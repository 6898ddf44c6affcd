import QpRs.Comms.Layer

/-! The network layers. The port bindings of `Network` are read by no layer operation. -/

namespace QpRs.Comms

open QpRs.Lib

def BROADCAST_ADDR : UInt16 := 0xFFFF

structure Network where
  address : UInt16
  pendingDst : UInt16
  pendingKind : UInt8
  lastRxSrc : UInt16
  lastRxKind : UInt8
  deriving DecidableEq, Repr

namespace Network

def new (address : UInt16) : Network :=
  { address := address, pendingDst := BROADCAST_ADDR, pendingKind := 0, lastRxSrc := 0,
    lastRxKind := 0 }

def down (checked : Bool) (net : Network) (frame : Frame) :
    Except Panic (Except CommsError Unit × Network × Frame) := do
  let hdr := toLeBytes 2 net.address.toNat ++ toLeBytes 2 net.pendingDst.toNat ++ [net.pendingKind]
  let net := { net with pendingDst := BROADCAST_ADDR, pendingKind := 0 }
  let (answer, frame) ← frame.prependHeader checked hdr
  pure (answer, net, frame)

def up (checked : Bool) (net : Network) (frame : Frame) :
    Except Panic (Except CommsError Bool × Network × Frame) := do
  let len ← frame.len checked
  if len < 5 then
    pure (.ok false, net, frame)
  else
    match ← frame.stripHeader checked 5 with
    | (.error e, frame) => pure (.error e, net, frame)
    | (.ok hdr, frame) =>
      let src := u16FromLeBytes (← index .bounds hdr 0) (← index .bounds hdr 1)
      let dst := u16FromLeBytes (← index .bounds hdr 2) (← index .bounds hdr 3)
      let kind ← index .bounds hdr 4
      if dst ≠ net.address ∧ dst ≠ BROADCAST_ADDR then
        pure (.ok false, net, frame)
      else
        pure (.ok true, { net with lastRxSrc := src, lastRxKind := kind }, frame)

def setTxMeta (net : Network) (dst : UInt16) (kind : UInt8) : Network :=
  { net with pendingDst := dst, pendingKind := kind }

def lastRxMeta (net : Network) : UInt16 × UInt8 := (net.lastRxSrc, net.lastRxKind)

end Network

instance : Layer Network where
  down := Network.down
  up := Network.up
  setTxMeta := Network.setTxMeta
  lastRxMeta := Network.lastRxMeta

structure NoopNetwork where
  deriving DecidableEq, Repr

instance : Layer NoopNetwork where
  down _ net frame := .ok (.ok (), net, frame)
  up _ net frame := .ok (.ok true, net, frame)

namespace Network

/-- The bytes after a header that names this node or every node. -/
def strip (net : Network) : List UInt8 → Option (List UInt8)
  | _ :: _ :: low :: high :: _ :: rest =>
    if u16FromLeBytes low high ≠ net.address ∧ u16FromLeBytes low high ≠ BROADCAST_ADDR then none
    else some rest
  | _ => none

theorem up_short (checked : Bool) (net : Network) {f : Frame} {bytes : List UInt8}
    (holds : f.Holds bytes) (short : bytes.length < 5) :
    net.up checked f = .ok (.ok false, net, f) := by
  rw [up, holds.len_eq, ok_bind, if_pos short]
  rfl

theorem up_eq (checked : Bool) (net : Network) {f : Frame} {a b low high kind : UInt8}
    {rest : List UInt8} (holds : f.Holds (a :: b :: low :: high :: kind :: rest)) :
    ∃ f', f'.Holds rest ∧ net.up checked f =
      if u16FromLeBytes low high ≠ net.address ∧ u16FromLeBytes low high ≠ BROADCAST_ADDR then
        .ok (.ok false, net, f')
      else
        .ok (.ok true, { net with lastRxSrc := u16FromLeBytes a b, lastRxKind := kind }, f') := by
  have split : f.Holds ([a, b, low, high, kind] ++ rest) := holds
  obtain ⟨f', stripped, left⟩ := split.stripHeader_eq checked
  have stripped : f.stripHeader checked 5 = .ok (.ok [a, b, low, high, kind], f') := stripped
  have long : ¬(a :: b :: low :: high :: kind :: rest).length < 5 := by simp
  refine ⟨f', left, ?_⟩
  rw [up, holds.len_eq, ok_bind, if_neg long, stripped]
  rfl

theorem up_long (checked : Bool) (net : Network) {f : Frame} {a b low high kind : UInt8}
    {rest : List UInt8} (holds : f.Holds (a :: b :: low :: high :: kind :: rest)) :
    ∃ r net' f', net.up checked f = .ok (r, net', f') ∧
      Passed (net.strip (a :: b :: low :: high :: kind :: rest)) r f' := by
  obtain ⟨f', left, ran⟩ := net.up_eq checked holds
  by_cases other : u16FromLeBytes low high ≠ net.address ∧ u16FromLeBytes low high ≠ BROADCAST_ADDR
  · rw [ran, if_pos other, strip, if_pos other]
    exact ⟨_, _, _, rfl, by simp [Passed]⟩
  · rw [ran, if_neg other, strip, if_neg other]
    exact ⟨_, _, _, rfl, rfl, left⟩

end Network

instance : Strips Network where
  strip := Network.strip
  overhead := 5
  length_strip net bytes left stripped := by
    unfold Network.strip at stripped
    split at stripped
    · split at stripped
      · cases stripped
      · cases stripped
        rfl
    · cases stripped
  up_passes checked net f bytes holds := by
    match bytes, holds with
    | _ :: _ :: _ :: _ :: _ :: rest, holds => exact net.up_long checked holds
    | [], holds | [_], holds | [_, _], holds | [_, _, _], holds | [_, _, _, _], holds =>
        exact ⟨_, _, _, net.up_short checked holds (by simp), by simp [Passed, Network.strip]⟩

theorem Network.down_wraps {checked : Bool} {net net' : Network} {f f' : Frame}
    {r : Except CommsError Unit} (ran : Layer.down checked net f = .ok (r, net', f'))
    (room : 5 ≤ f.start.toNat) : r = .ok () ∧ Wrapped 5 0 f f' := by
  obtain ⟨⟨answer, frame⟩, put, ran⟩ := bind_ok ran
  obtain ⟨rfl, moved⟩ := wrapped_header put room
  cases ran
  exact ⟨rfl, moved⟩

theorem Network.header_le : 5 ≤ 10 := by decide

instance : Wraps Network where
  header := 5
  trailer := 0
  complete := true
  header_le := Network.header_le
  accepts checked net net' f f' r ran room := by
    have done := (Network.down_wraps ran room).1
    simp [done, f.stop_fits]
  wrapped checked net net' f f' ran room := (Network.down_wraps ran room).2

instance : Strips NoopNetwork where
  strip _ bytes := some bytes
  overhead := 0
  length_strip net bytes left stripped := by
    cases stripped
    rfl
  up_passes checked net f bytes holds := ⟨.ok true, net, f, rfl, rfl, holds⟩

theorem NoopNetwork.header_le : 0 ≤ 10 := Nat.zero_le 10

instance : Wraps NoopNetwork where
  header := 0
  trailer := 0
  complete := true
  header_le := NoopNetwork.header_le
  accepts checked net net' f f' r ran room := by
    cases ran
    simp [f.stop_fits]
  wrapped checked net net' f f' ran room := by
    cases ran
    exact wrapped_unmoved f

end QpRs.Comms
