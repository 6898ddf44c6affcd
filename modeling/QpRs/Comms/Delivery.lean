import QpRs.Comms.Transport

/-! The receiving side of the reliable transport: which arrivals of the peer's PDUs it takes for
new ones, in any interleaving with its own transmissions. -/

namespace QpRs.Comms

open QpRs.Lib

/-- `seen` counts the PDUs of the peer that have arrived so far, each once. -/
structure Receiver where
  transport : ReliableTransport
  seen : Nat
  deriving DecidableEq, Repr

/-- Frames come as the buffer after the DMA and the length given to `set_received_len`. A repeated
arrival is one of the PDU that arrived last. -/
inductive ReceiverEvent where
  | down (frame : Frame)
  | timeout
  | ack (frame : Frame) (n : UInt8)
  | data (again : Bool) (frame : Frame) (n : UInt8)

namespace Receiver

def start (maxRetries : UInt8) : Receiver := ⟨.new maxRetries, 0⟩

def pduOf (frame : Frame) (n : UInt8) : Option Pdu := Pdu.read (frame.buf.toList.take n.toNat)

def arrive (checked : Bool) (t : ReliableTransport) (frame : Frame) (n : UInt8) :
    Except Panic (Except CommsError Bool × ReliableTransport × Frame) :=
  t.up checked (frame.setReceivedLen n.toNat)

/-- The sequence number of the PDU that a data event brings: the peer counts from 0 modulo 256. -/
def number (r : Receiver) (again : Bool) : UInt8 :=
  UInt8.ofNat (if again then r.seen - 1 else r.seen)

def step (checked : Bool) (r : Receiver) : ReceiverEvent → Option Receiver
  | .down frame =>
    match r.transport.down checked frame with
    | .ok (_, t, _) => some { r with transport := t }
    | .error _ => none
  | .timeout => some { r with transport := r.transport.onTimeout.2 }
  | .ack frame n =>
    match pduOf frame n, arrive checked r.transport frame n with
    | some p, .ok (_, t, _) => if p.IsAck then some { r with transport := t } else none
    | _, _ => none
  | .data again frame n =>
    match pduOf frame n, arrive checked r.transport frame n with
    | some p, .ok (_, t, _) =>
      if ¬p.IsAck ∧ p.seq = r.number again ∧ (again = true → 0 < r.seen) then
        some { transport := t, seen := if again then r.seen else r.seen + 1 }
      else none
    | _, _ => none

/-- `up` takes the first arrival of a PDU and drops every other one. -/
def Delivered (checked : Bool) (r : Receiver) : ReceiverEvent → Prop
  | .data again frame n =>
    ∃ t frame', arrive checked r.transport frame n = .ok (.ok !again, t, frame')
  | _ => True

/-- The receiver's own transmit state tells a repeated arrival from a first one: idle for PDU 0,
waiting for every repetition. -/
def Told (r : Receiver) : ReceiverEvent → Prop
  | .data true _ _ => r.transport.state = .waitingAck
  | .data false _ _ => r.seen = 0 → r.transport.state = .idle
  | _ => True

/-- What is remembered is the number of the last PDU, and the number 0 before the first one. -/
def Remembers (r : Receiver) : Prop := r.transport.acked = UInt8.ofNat (r.seen - 1)

variable {checked : Bool} {r u : Receiver}

theorem arrive_read (checked : Bool) (t : ReliableTransport) {frame : Frame} {n : UInt8} {p : Pdu}
    (known : pduOf frame n = some p) :
    ∃ frame', arrive checked t frame n = .ok (.ok (t.receive p).1, (t.receive p).2, frame') := by
  have short : n.toNat ≤ 255 := Nat.le_of_lt_succ n.toNat_lt
  obtain ⟨frame', ran, _⟩ := t.up_read checked (frame.setReceivedLen_holds short) known
  exact ⟨frame', ran⟩

theorem step_data {again : Bool} {frame : Frame} {n : UInt8}
    (stepped : r.step checked (.data again frame n) = some u) :
    ∃ p frame', ¬p.IsAck ∧ p.seq = r.number again ∧ (again = true → 0 < r.seen) ∧
      arrive checked r.transport frame n =
        .ok (.ok (r.transport.receive p).1, (r.transport.receive p).2, frame') ∧
      u = ⟨(r.transport.receive p).2, if again then r.seen else r.seen + 1⟩ := by
  cases known : pduOf frame n with
  | none => simp [step, known] at stepped
  | some p =>
      obtain ⟨frame', ran⟩ := arrive_read checked r.transport known
      simp only [step, known, ran] at stepped
      split at stepped
      · rename_i numbered
        cases stepped
        exact ⟨p, frame', numbered.1, numbered.2.1, numbered.2.2, ran, rfl⟩
      · cases stepped

theorem number_remembered (remembers : r.Remembers) (again : Bool) :
    r.number again = r.transport.acked ↔ (again = true ∨ r.seen = 0) := by
  rw [remembers, number]
  cases again with
  | true => simp
  | false =>
      simp only [Bool.false_eq_true, if_false, false_or]
      constructor
      · intro same
        have value := congrArg UInt8.toNat same
        rw [UInt8.toNat_ofNat', UInt8.toNat_ofNat'] at value
        omega
      · intro none
        rw [none]

theorem idle_or_waiting (t : ReliableTransport) : t.state ≠ .idle ↔ t.state = .waitingAck := by
  cases t.state <;> simp

theorem delivered_iff_told (remembers : r.Remembers) {e : ReceiverEvent}
    (stepped : r.step checked e = some u) : r.Delivered checked e ↔ r.Told e := by
  cases e with
  | down frame => exact Iff.rfl
  | timeout => exact Iff.rfl
  | ack frame n => exact Iff.rfl
  | data again frame n =>
      obtain ⟨p, frame', data, numbered, _, ran, _⟩ := step_data stepped
      have taken : r.Delivered checked (.data again frame n) ↔
          (r.transport.receive p).1 = !again := by
        constructor
        · rintro ⟨t, frame'', same⟩
          rw [ran] at same
          exact Except.ok.inj (congrArg Prod.fst (Except.ok.inj same))
        · intro value
          exact ⟨_, frame', by rw [ran, value]⟩
      have stays := number_remembered remembers again
      rw [taken, ReliableTransport.receive_data _ data, numbered]
      -- a repetition is dropped by a transport that waits; PDU 0 is taken by one that does not
      by_cases waits : r.transport.state = .idle
      · cases again <;> simp [Told, waits]
      · have waiting := (idle_or_waiting r.transport).mp waits
        cases again with
        | true =>
            have dup : r.number true = r.transport.acked := stays.mpr (.inl rfl)
            simp [Told, waiting, dup]
        | false =>
            simp only [Bool.false_eq_true, false_or] at stays
            by_cases first : r.seen = 0 <;> simp [Told, waiting, stays, first]

theorem remembers_step (remembers : r.Remembers) {e : ReceiverEvent}
    (stepped : r.step checked e = some u) : u.Remembers := by
  cases e with
  | down frame =>
      simp only [step] at stepped
      split at stepped
      · rename_i answer t frame' ran
        cases stepped
        obtain ⟨_, rfl⟩ | ⟨_, rfl⟩ := ReliableTransport.down_ran ran
        · exact remembers
        · exact remembers
      · cases stepped
  | timeout =>
      cases stepped
      exact r.transport.onTimeout_spec.2.1.trans remembers
  | ack frame n =>
      cases known : pduOf frame n with
      | none => simp [step, known] at stepped
      | some p =>
          obtain ⟨frame', ran⟩ := arrive_read checked r.transport known
          simp only [step, known, ran] at stepped
          split at stepped
          · rename_i ack
            cases stepped
            change (r.transport.receive p).2.acked = _
            rw [ReliableTransport.receive_ack _ ack, ReliableTransport.onAckReceived_acked]
            exact remembers
          · cases stepped
  | data again frame n =>
      obtain ⟨p, frame', data, numbered, behind, _, rfl⟩ := step_data stepped
      have last : r.number again =
          UInt8.ofNat ((if again then r.seen else r.seen + 1) - 1) := by
        cases again <;> rfl
      change (r.transport.receive p).2.acked = _
      rw [ReliableTransport.receive_data _ data, ← last, ← numbered]
      split
      · rename_i dup
        exact dup.1.symm
      · rfl

/-- In every interleaving of the peer's PDUs with the receiver's own transmissions, each PDU is
delivered exactly once just where the transmit state tells its arrivals apart. -/
theorem delivered_once_iff (checked : Bool) (maxRetries : UInt8) (events : List ReceiverEvent)
    (last : Receiver) (ran : run (step checked) (start maxRetries) events = some last) :
    Along (step checked) (Delivered checked) (start maxRetries) events ↔
      Along (step checked) Told (start maxRetries) events := by
  have fresh : (start maxRetries).Remembers := rfl
  exact along_iff (fun _ _ _ remembers stepped => delivered_iff_told remembers stepped)
    (fun _ _ _ remembers stepped _ => remembers_step remembers stepped) fresh ran

def twice : List ReceiverEvent := [.data false .new 5, .data true .new 5]

def afterFirst : Receiver := ⟨.new 3, 1⟩

theorem twice_ran (checked : Bool) (r : Receiver) (again : Bool)
    (stepped : r = start 3 ∧ again = false ∨ r = afterFirst ∧ again = true) :
    r.step checked (.data again .new 5) = some afterFirst := by
  have known : pduOf .new 5 = some ⟨0, 0, []⟩ := by decide
  obtain ⟨frame', ran⟩ := arrive_read checked r.transport known
  simp only [step, known, ran]
  rcases stepped with ⟨rfl, rfl⟩ | ⟨rfl, rfl⟩ <;> rfl

/-- A receiver that sends nothing of its own takes the repetition for a new PDU. -/
theorem repetition_delivered_again :
    run (step true) (start 3) twice = some afterFirst ∧
      ¬Along (step true) (Delivered true) (start 3) twice := by
  have first := twice_ran true (start 3) false (.inl ⟨rfl, rfl⟩)
  have second := twice_ran true afterFirst true (.inr ⟨rfl, rfl⟩)
  constructor
  · simp [run, twice, first, second]
  · intro all
    have delivered := (all.2 afterFirst first).1
    have told := (delivered_iff_told (r := afterFirst) rfl second).mp delivered
    cases told

def sentBetween : List ReceiverEvent := [.data false .new 5, .down .new, .data true .new 5]

def afterSending : Receiver :=
  ⟨{ seq := 1, acked := 0, retries := 3, maxRetries := 3, state := .waitingAck }, 1⟩

theorem sentBetween_delivered_once :
    run (step true) (start 3) sentBetween = some afterSending ∧
      Along (step true) (Delivered true) (start 3) sentBetween := by
  have ran : run (step true) (start 3) sentBetween = some afterSending := by decide +kernel
  have first := twice_ran true (start 3) false (.inl ⟨rfl, rfl⟩)
  have sent : afterFirst.step true (.down .new) = some afterSending := by decide +kernel
  refine ⟨ran, (delivered_once_iff true 3 sentBetween afterSending ran).mpr ?_⟩
  apply along_cons first
  · intro _
    rfl
  · apply along_cons sent trivial
    exact ⟨rfl, fun _ _ => trivial⟩

end Receiver

end QpRs.Comms
