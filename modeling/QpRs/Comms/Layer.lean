import QpRs.Comms.Buf

/-! The protocol layers of the RF stack and two laws about them: what `up` leaves of the bytes of a
frame, and by how much `down` moves the cursors. -/

namespace QpRs.Comms

inductive TransportAction where
  | nothing
  | txComplete
  | shouldRetransmit
  | giveUp
  deriving DecidableEq, Repr

/-- The first argument of `down` and `up` says whether the build checks for overflow. -/
class Layer (L : Type) where
  down : Bool → L → Frame → Except Panic (Except CommsError Unit × L × Frame)
  up : Bool → L → Frame → Except Panic (Except CommsError Bool × L × Frame)
  onTimeout : L → TransportAction × L := fun layer => (.nothing, layer)
  setTxMeta : L → UInt16 → UInt8 → L := fun layer _ _ => layer
  lastRxMeta : L → UInt16 × UInt8 := fun _ => (0, 0)

/-- A frame that passes a layer goes on with the bytes that are left. -/
def Passed (left : Option (List UInt8)) (r : Except CommsError Bool) (f : Frame) : Prop :=
  match left with
  | some bytes => r = .ok true ∧ f.Holds bytes
  | none => r ≠ .ok true

/-- A layer whose `up` returns for every frame that holds some bytes; `strip` is what it leaves of
them, none when it stops the frame. -/
class Strips (L : Type) [Layer L] where
  strip : L → List UInt8 → Option (List UInt8)
  overhead : Nat
  length_strip : ∀ (layer : L) (bytes left : List UInt8), strip layer bytes = some left →
    left.length + overhead = bytes.length
  up_passes : ∀ (checked : Bool) (layer : L) (f : Frame) (bytes : List UInt8), f.Holds bytes →
    ∃ r layer' f', Layer.up checked layer f = .ok (r, layer', f') ∧
      Passed (strip layer bytes) r f'

/-- How `down` moves the cursors for a header before and a trailer after the payload. A trailer is
computed from the payload, so the payload can be read. -/
structure Wrapped (header trailer : Nat) (f f' : Frame) : Prop where
  start : f'.start.toNat + header = f.start.toNat
  stop : f'.stop.toNat = (f.stop.toNat + trailer) % 256
  ordered : 0 < trailer → f.start.toNat ≤ f.stop.toNat

/-- A layer whose `down` puts a header before and a trailer after the payload. One that is not
`complete` refuses every frame. -/
class Wraps (L : Type) [Layer L] where
  header : Nat
  trailer : Nat
  complete : Bool
  header_le : header ≤ 10
  accepts : ∀ (checked : Bool) (layer layer' : L) (f f' : Frame) (r : Except CommsError Unit),
    Layer.down checked layer f = .ok (r, layer', f') → header ≤ f.start.toNat →
      (r = .ok () ↔ complete = true ∧ f.stop.toNat + trailer ≤ 256)
  wrapped : ∀ (checked : Bool) (layer layer' : L) (f f' : Frame),
    Layer.down checked layer f = .ok (.ok (), layer', f') → header ≤ f.start.toNat →
      Wrapped header trailer f f'

section Cursors

variable {L : Type} [Layer L] [Wraps L] {checked : Bool} {layer layer' : L} {f f' : Frame}

theorem down_fits {r : Except CommsError Unit}
    (ran : Layer.down checked layer f = .ok (r, layer', f'))
    (room : Wraps.header L ≤ f.start.toNat) (complete : Wraps.complete L = true)
    (fits : f.stop.toNat + Wraps.trailer L ≤ 255) :
    r = .ok () ∧ f'.start.toNat + Wraps.header L = f.start.toNat ∧
      f'.stop.toNat = f.stop.toNat + Wraps.trailer L := by
  have done : r = .ok () :=
    (Wraps.accepts checked layer layer' f f' r ran room).mpr ⟨complete, by omega⟩
  subst done
  have moved := Wraps.wrapped checked layer layer' f f' ran room
  exact ⟨rfl, moved.start, by rw [moved.stop, Nat.mod_eq_of_lt (by omega)]⟩

theorem fits_of_down (ran : Layer.down checked layer f = .ok (.ok (), layer', f'))
    (room : Wraps.header L ≤ f.start.toNat) (headed : 0 < f.start.toNat)
    (ended : 0 < f'.stop.toNat) :
    Wraps.complete L = true ∧ 0 < f.stop.toNat ∧
      f'.start.toNat + Wraps.header L = f.start.toNat ∧
      f'.stop.toNat = f.stop.toNat + Wraps.trailer L := by
  obtain ⟨complete, inside⟩ :=
    (Wraps.accepts checked layer layer' f f' (.ok ()) ran room).mp rfl
  have moved := Wraps.wrapped checked layer layer' f f' ran room
  have stop := moved.stop
  have ordered := moved.ordered
  refine ⟨complete, ?_, moved.start, ?_⟩
  · by_cases plain : Wraps.trailer L = 0
    · rw [plain] at stop
      omega
    · have behind := ordered (Nat.pos_of_ne_zero plain)
      omega
  · omega

end Cursors

theorem Frame.stop_fits (f : Frame) : f.stop.toNat ≤ 256 := Nat.le_of_lt f.stop.toNat_lt

theorem wrapped_unmoved (f : Frame) : Wrapped 0 0 f f :=
  ⟨rfl, (Nat.mod_eq_of_lt f.stop.toNat_lt).symm, fun none => absurd none (Nat.lt_irrefl 0)⟩

theorem wrapped_header {checked : Bool} {f f' : Frame} {hdr : List UInt8}
    {r : Except CommsError Unit} (ran : f.prependHeader checked hdr = .ok (r, f'))
    (room : hdr.length ≤ f.start.toNat) : r = .ok () ∧ Wrapped hdr.length 0 f f' := by
  obtain ⟨done, start, stop⟩ := Frame.prependHeader_cursors ran room
  refine ⟨done, start, ?_, fun none => absurd none (Nat.lt_irrefl 0)⟩
  rw [stop]
  exact (Nat.mod_eq_of_lt f.stop.toNat_lt).symm

end QpRs.Comms
