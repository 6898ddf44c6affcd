import QpRs.Comms.Mac
import QpRs.Lib.Run

/-! Downlinks of LoRaWAN over whole receive histories: which frames `up` accepts, and how often. -/

namespace QpRs.Comms

open QpRs.Lib

/-- The counter in the header of a downlink. -/
def fcntOf (bytes : List UInt8) : UInt32 :=
  (u16FromLeBytes (bytes.getD 6 0) (bytes.getD 7 0)).toUInt32

/-- A MAC layer with the bytes of all frames that its `up` has accepted. -/
structure Downlink where
  mac : LoRaWanMac
  accepted : List (List UInt8)
  deriving DecidableEq, Repr

/-- Frames come as the buffer after the DMA and the length given to `set_received_len`. -/
inductive MacEvent where
  | up (frame : Frame) (n : UInt8)
  | down (frame : Frame)

namespace Downlink

def start (session : LoRaSession) (fport : UInt8) : Downlink := ⟨.new session fport, []⟩

def bytesOf (frame : Frame) (n : UInt8) : List UInt8 := frame.buf.toList.take n.toNat

def received : MacEvent → Option (List UInt8)
  | .up frame n => some (bytesOf frame n)
  | .down _ => none

/-- No bytes were accepted twice, and the counters of the accepted frames strictly increase. -/
def Protected (d : Downlink) : Prop :=
  d.accepted.Nodup ∧ d.accepted.Pairwise fun a b => fcntOf a < fcntOf b

theorem nodup_of_increasing {frames : List (List UInt8)}
    (increasing : frames.Pairwise fun a b => fcntOf a < fcntOf b) : frames.Nodup := by
  refine increasing.imp ?_
  rintro a b below rfl
  exact absurd below (UInt32.lt_irrefl _)

variable [Crypto]

def step (checked : Bool) (d : Downlink) : MacEvent → Option Downlink
  | .up frame n =>
    match d.mac.up checked (frame.setReceivedLen n.toNat) with
    | .ok (.ok true, mac, _) => some ⟨mac, d.accepted ++ [bytesOf frame n]⟩
    | .ok (_, mac, _) => some { d with mac := mac }
    | .error _ => none
  | .down frame =>
    match d.mac.down checked frame with
    | .ok (_, mac, _) => some { d with mac := mac }
    | .error _ => none

/-- A frame for this device with the MIC of the network. -/
def Authentic (session : LoRaSession) (bytes : List UInt8) : Prop :=
  13 ≤ bytes.length ∧ (bytes.drop 1).take 4 = session.devAddr.toList ∧
    bytes.drop (bytes.length - 4) =
      computeMic (bytes.take (bytes.length - 4)) session.nwkSkey session.devAddr (fcntOf bytes) 1

instance (session : LoRaSession) (bytes : List UInt8) : Decidable (Authentic session bytes) :=
  inferInstanceAs (Decidable (_ ∧ _ ∧ _))

def arrivals (session : LoRaSession) (events : List MacEvent) : List (List UInt8) :=
  (events.filterMap received).filter fun bytes => Authentic session bytes

end Downlink

namespace LoRaWanMac

variable [Crypto] {checked : Bool} {mac mac' : LoRaWanMac} {f f' : Frame}

def Serves (mac : LoRaWanMac) (session : LoRaSession) : Prop :=
  mac.devAddr = session.devAddr ∧ mac.nwkSkey = session.nwkSkey

theorem down_serves {session : LoRaSession} {r : Except CommsError Unit}
    (serves : mac.Serves session) (ran : mac.down checked f = .ok (r, mac', f')) :
    mac'.Serves session := by
  obtain ⟨data, _, ran⟩ := bind_ok ran
  obtain ⟨sealed, _, ran⟩ := bind_ok ran
  obtain ⟨written, _, ran⟩ := bind_ok ran
  obtain ⟨⟨answer, headed⟩, _, ran⟩ := bind_ok ran
  cases answer with
  | error e =>
      cases ran
      exact serves
  | ok done =>
      obtain ⟨msg, _, ran⟩ := bind_ok ran
      obtain ⟨⟨answer, ended⟩, _, ran⟩ := bind_ok ran
      cases answer with
      | error e =>
          cases ran
          exact serves
      | ok done =>
          cases ran
          exact serves

theorem up_serves {session : LoRaSession} {r : Except CommsError Bool}
    (serves : mac.Serves session) (ran : mac.up checked f = .ok (r, mac', f')) :
    mac'.Serves session := by
  obtain ⟨len, _, ran⟩ := bind_ok ran
  split at ran
  · cases ran
    exact serves
  · obtain ⟨⟨answer, trimmed⟩, _, ran⟩ := bind_ok ran
    cases answer with
    | error e =>
        cases ran
        exact serves
    | ok mic =>
        obtain ⟨payload, _, ran⟩ := bind_ok ran
        obtain ⟨_, _, ran⟩ := bind_ok ran
        obtain ⟨a, _, ran⟩ := bind_ok ran
        obtain ⟨b, _, ran⟩ := bind_ok ran
        obtain ⟨c, _, ran⟩ := bind_ok ran
        obtain ⟨d, _, ran⟩ := bind_ok ran
        obtain ⟨low, _, ran⟩ := bind_ok ran
        obtain ⟨high, _, ran⟩ := bind_ok ran
        dsimp only at ran
        split at ran
        · cases ran
          exact serves
        · split at ran
          · cases ran
            exact serves
          · obtain ⟨⟨answer, bare⟩, _, ran⟩ := bind_ok ran
            cases answer with
            | error e =>
                cases ran
                exact serves
            | ok hdr =>
                obtain ⟨_, _, ran⟩ := bind_ok ran
                obtain ⟨data, _, ran⟩ := bind_ok ran
                obtain ⟨plain, _, ran⟩ := bind_ok ran
                obtain ⟨frame, _, ran⟩ := bind_ok ran
                cases ran
                exact serves

theorem strip_isSome_iff {session : LoRaSession} (serves : mac.Serves session)
    (bytes : List UInt8) :
    (mac.strip bytes).isSome = true ↔ Downlink.Authentic session bytes := by
  obtain ⟨devAddr, nwkSkey⟩ := serves
  unfold strip Downlink.Authentic
  by_cases short : bytes.length < 13
  · rw [if_pos short]
    simp only [Option.isSome_none, Bool.false_eq_true, false_iff]
    omega
  · rw [if_neg short]
    have nine : 9 ≤ bytes.length := by omega
    obtain ⟨m, a, b, c, d, e, low, high, p, rest, rfl⟩ := exists_header nine
    have long : 4 ≤ rest.length := by
      simp only [List.length_cons] at short
      omega
    obtain ⟨k, size⟩ := Nat.exists_eq_add_of_le long
    have cut : (m :: a :: b :: c :: d :: e :: low :: high :: p :: rest).length - 4 = 9 + k := by
      simp only [List.length_cons, size]
      omega
    have front : (m :: a :: b :: c :: d :: e :: low :: high :: p :: rest).take (9 + k) =
        m :: a :: b :: c :: d :: e :: low :: high :: p :: rest.take k := by
      rw [Nat.add_comm]
      rfl
    rw [cut, front, decode, devAddr, nwkSkey]
    have addr : ((m :: a :: b :: c :: d :: e :: low :: high :: p :: rest).drop 1).take 4 =
        [a, b, c, d] := rfl
    have counter : fcntOf (m :: a :: b :: c :: d :: e :: low :: high :: p :: rest) =
        (u16FromLeBytes low high).toUInt32 := rfl
    rw [addr, counter]
    by_cases other : [a, b, c, d] = session.devAddr.toList
    · rw [if_neg (not_not.mpr other)]
      split
      · rename_i forged
        simp only [Option.isSome_none, Bool.false_eq_true, false_iff]
        exact fun all => forged all.2.2
      · rename_i genuine
        simp only [Option.isSome_some, true_iff]
        exact ⟨by omega, other, not_not.mp genuine⟩
    · rw [if_pos other]
      simp [other]

end LoRaWanMac

namespace Downlink

section Runs

variable [Crypto] {checked : Bool} {session : LoRaSession}

theorem step_accepts {d t : Downlink} {e : MacEvent} (serves : d.mac.Serves session)
    (stepped : step checked d e = some t) :
    t.mac.Serves session ∧ t.accepted = d.accepted ++ arrivals session [e] := by
  cases e with
  | down frame =>
      simp only [step] at stepped
      split at stepped
      · rename_i answer mac frame' ran
        cases stepped
        exact ⟨LoRaWanMac.down_serves serves ran, (List.append_nil _).symm⟩
      · cases stepped
  | up frame n =>
      have short : n.toNat ≤ 255 := Nat.le_of_lt_succ n.toNat_lt
      obtain ⟨r, mac', f', ran, passed⟩ :=
        Strips.up_passes checked d.mac _ _ (frame.setReceivedLen_holds short)
      have ran : d.mac.up checked (frame.setReceivedLen n.toNat) = .ok (r, mac', f') := ran
      have kept := LoRaWanMac.up_serves serves ran
      have genuine := LoRaWanMac.strip_isSome_iff serves (bytesOf frame n)
      have passed : Passed (d.mac.strip (bytesOf frame n)) r f' := passed
      simp only [step, ran] at stepped
      cases left : d.mac.strip (bytesOf frame n) with
      | none =>
          rw [left] at genuine passed
          have refused : ¬Authentic session (bytesOf frame n) := by simpa using genuine
          have same : t = { d with mac := mac' } := by
            revert stepped
            split
            · rename_i same
              cases same
              exact fun _ => absurd rfl passed
            · rename_i same
              cases same
              exact fun stepped => (Option.some.inj stepped).symm
            · rename_i same
              cases same
          subst same
          refine ⟨kept, ?_⟩
          simp [arrivals, received, refused]
      | some bytes =>
          rw [left] at genuine passed
          have authentic : Authentic session (bytesOf frame n) := by simpa using genuine
          obtain ⟨rfl, _⟩ := passed
          cases stepped
          refine ⟨kept, ?_⟩
          simp [arrivals, received, authentic]

theorem run_accepts {d last : Downlink} {events : List MacEvent} (serves : d.mac.Serves session)
    (ran : run (step checked) d events = some last) :
    last.accepted = d.accepted ++ arrivals session events := by
  induction events generalizing d with
  | nil =>
      cases ran
      exact (List.append_nil _).symm
  | cons e rest ih =>
      obtain ⟨u, stepped, ran⟩ := run_cons ran
      obtain ⟨kept, accepted⟩ := step_accepts serves stepped
      rw [ih kept ran, accepted, List.append_assoc]
      congr 1
      simp only [arrivals]
      rw [← List.filter_append, ← List.filterMap_append]
      rfl

/-- A run is free of replays exactly when the frames for this device arrive with strictly increasing
counters: the MAC adds no protection of its own. -/
theorem protected_run_iff (checked : Bool) (session : LoRaSession) (fport : UInt8)
    (events : List MacEvent) (last : Downlink)
    (ran : run (step checked) (start session fport) events = some last) :
    last.Protected ↔ (arrivals session events).Pairwise fun a b => fcntOf a < fcntOf b := by
  have serves : (start session fport).mac.Serves session := ⟨rfl, rfl⟩
  have all : last.accepted = arrivals session events := run_accepts serves ran
  rw [Protected, all]
  exact and_iff_right_of_imp nodup_of_increasing

end Runs

/-! A session with keys of zeros and a downlink for it with counter `count`, under a CMAC that is
zero. -/

@[reducible] def flatCrypto : Crypto := ⟨fun _ block => block, fun _ _ => Vector.replicate 16 0⟩

def flatSession : LoRaSession :=
  ⟨Vector.replicate 4 0, Vector.replicate 16 0, Vector.replicate 16 0, 0⟩

def downlink (count : UInt8) : MacEvent :=
  .up { Frame.new with buf := Frame.new.buf.set 6 count } 13

theorem counted_downlinks_protected : ∃ last,
    run (@step flatCrypto true) (start flatSession 1) [downlink 0, downlink 1] = some last ∧
      last.Protected := by
  have ran : (run (@step flatCrypto true) (start flatSession 1)
      [downlink 0, downlink 1]).isSome := by decide +kernel
  obtain ⟨last, ran⟩ := Option.isSome_iff_exists.mp ran
  refine ⟨last, ran, ?_⟩
  have increasing : (@arrivals flatCrypto flatSession [downlink 0, downlink 1]).Pairwise
      fun a b => fcntOf a < fcntOf b := by decide +kernel
  exact (@protected_run_iff flatCrypto true flatSession 1 _ last ran).mpr increasing

/-- The same bytes are accepted a second time. -/
theorem replayed_downlink_accepted : ∃ last,
    run (@step flatCrypto true) (start flatSession 1) [downlink 7, downlink 7] = some last ∧
      ¬last.Protected := by
  have seen : (run (@step flatCrypto true) (start flatSession 1) [downlink 7, downlink 7]).map
      (fun last => decide last.accepted.Nodup) = some false := by decide +kernel
  obtain ⟨last, ran, again⟩ := Option.map_eq_some_iff.mp seen
  exact ⟨last, ran, fun fresh => of_decide_eq_false again fresh.1⟩

end Downlink

end QpRs.Comms
