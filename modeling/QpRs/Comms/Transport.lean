import QpRs.Comms.Layer
import QpRs.Lib.Run

/-! The transport layers. -/

namespace QpRs.Comms

open QpRs.Lib

namespace TransportFlags

def FIRST_FRAG : UInt8 := 0x01
def LAST_FRAG : UInt8 := 0x02
def ACK_REQ : UInt8 := 0x04
def IS_ACK : UInt8 := 0x08

end TransportFlags

inductive TransportState where
  | idle
  | waitingAck
  deriving DecidableEq, Repr

structure ReliableTransport where
  seq : UInt8
  acked : UInt8
  retries : UInt8
  maxRetries : UInt8
  state : TransportState
  deriving DecidableEq, Repr

namespace ReliableTransport

def new (maxRetries : UInt8) : ReliableTransport :=
  { seq := 0, acked := 0, retries := 0, maxRetries := maxRetries, state := .idle }

def onTimeout (t : ReliableTransport) : TransportAction × ReliableTransport :=
  if t.state = .waitingAck then
    if t.retries > 0 then (.shouldRetransmit, { t with retries := t.retries - 1 })
    else (.giveUp, { t with state := .idle })
  else (.nothing, t)

def onAckReceived (t : ReliableTransport) (ackSeq : UInt8) : TransportAction × ReliableTransport :=
  if ackSeq = t.seq - 1 then (.txComplete, { t with state := .idle }) else (.nothing, t)

def down (checked : Bool) (t : ReliableTransport) (frame : Frame) :
    Except Panic (Except CommsError Unit × ReliableTransport × Frame) := do
  let payloadLen ← frame.len checked
  let hdr := [t.seq, t.acked,
    TransportFlags.FIRST_FRAG ||| TransportFlags.LAST_FRAG ||| TransportFlags.ACK_REQ,
    UInt8.ofNat payloadLen, 0]
  match ← frame.prependHeader checked hdr with
  | (.error e, frame) => pure (.error e, t, frame)
  | (.ok (), frame) =>
    pure (.ok (), { t with retries := t.maxRetries, state := .waitingAck, seq := t.seq + 1 }, frame)

def up (checked : Bool) (t : ReliableTransport) (frame : Frame) :
    Except Panic (Except CommsError Bool × ReliableTransport × Frame) := do
  let len ← frame.len checked
  if len < 5 then
    pure (.ok false, t, frame)
  else
    match ← frame.stripHeader checked 5 with
    | (.error e, frame) => pure (.error e, t, frame)
    | (.ok raw, frame) =>
      let seq ← index .bounds raw 0
      let flags ← index .bounds raw 2
      if flags &&& TransportFlags.IS_ACK ≠ 0 then
        pure (.ok false, (t.onAckReceived seq).2, frame)
      else if seq = t.acked ∧ t.state ≠ .idle then
        pure (.ok false, t, frame)
      else
        pure (.ok true, { t with acked := seq }, frame)

end ReliableTransport

instance : Layer ReliableTransport where
  down := ReliableTransport.down
  up := ReliableTransport.up
  onTimeout := ReliableTransport.onTimeout

structure UnreliableTransport where
  seq : UInt8
  deriving DecidableEq, Repr

namespace UnreliableTransport

def new : UnreliableTransport := ⟨0⟩

def down (checked : Bool) (t : UnreliableTransport) (frame : Frame) :
    Except Panic (Except CommsError Unit × UnreliableTransport × Frame) := do
  let n ← frame.len checked
  let len := UInt16.ofNat n
  let hdr := [t.seq, 0, TransportFlags.FIRST_FRAG ||| TransportFlags.LAST_FRAG,
    len.toUInt8, (len >>> 8).toUInt8]
  match ← frame.prependHeader checked hdr with
  | (.error e, frame) => pure (.error e, t, frame)
  | (.ok (), frame) => pure (.ok (), { t with seq := t.seq + 1 }, frame)

def up (checked : Bool) (t : UnreliableTransport) (frame : Frame) :
    Except Panic (Except CommsError Bool × UnreliableTransport × Frame) := do
  let len ← frame.len checked
  if len < 5 then
    pure (.ok false, t, frame)
  else
    match ← frame.stripHeader checked 5 with
    | (.error e, frame) => pure (.error e, t, frame)
    | (.ok _, frame) => pure (.ok true, t, frame)

end UnreliableTransport

instance : Layer UnreliableTransport where
  down := UnreliableTransport.down
  up := UnreliableTransport.up

/-- The fields of a transport header that a receiver reads, and the payload after it. -/
structure Pdu where
  seq : UInt8
  flags : UInt8
  payload : List UInt8
  deriving DecidableEq, Repr

namespace Pdu

def read : List UInt8 → Option Pdu
  | seq :: _ :: flags :: _ :: _ :: payload => some ⟨seq, flags, payload⟩
  | _ => none

def IsAck (p : Pdu) : Prop := p.flags &&& TransportFlags.IS_ACK ≠ 0

instance (p : Pdu) : Decidable p.IsAck := inferInstanceAs (Decidable (_ ≠ _))

theorem read_none {bytes : List UInt8} (unread : read bytes = none) : bytes.length < 5 := by
  rcases bytes with _ | ⟨seq, _ | ⟨ack, _ | ⟨flags, _ | ⟨low, _ | ⟨high, payload⟩⟩⟩⟩⟩
  on_goal 6 => cases unread
  all_goals simp

theorem read_some {bytes : List UInt8} {p : Pdu} (known : read bytes = some p) :
    ∃ hdr, bytes = hdr ++ p.payload ∧ hdr.length = 5 ∧ hdr[0]? = some p.seq ∧
      hdr[2]? = some p.flags := by
  unfold read at known
  split at known
  · rename_i seq ack flags low high payload
    cases known
    exact ⟨[seq, ack, flags, low, high], rfl, rfl, rfl, rfl⟩
  · cases known

theorem length_read {bytes : List UInt8} {p : Pdu} (known : read bytes = some p) :
    p.payload.length + 5 = bytes.length := by
  obtain ⟨hdr, rfl, five, _⟩ := read_some known
  rw [List.length_append, five, Nat.add_comm]

end Pdu

namespace ReliableTransport

/-- What an arriving PDU does to the transport, and whether its payload goes on. -/
def receive (t : ReliableTransport) (p : Pdu) : Bool × ReliableTransport :=
  if p.IsAck then (false, (t.onAckReceived p.seq).2)
  else if p.seq = t.acked ∧ t.state ≠ .idle then (false, t)
  else (true, { t with acked := p.seq })

def strip (t : ReliableTransport) (bytes : List UInt8) : Option (List UInt8) :=
  (Pdu.read bytes).bind fun p => if (t.receive p).1 then some p.payload else none

variable {f : Frame} {bytes : List UInt8} {p : Pdu}

theorem receive_ack (t : ReliableTransport) (ack : p.IsAck) :
    t.receive p = (false, (t.onAckReceived p.seq).2) := if_pos ack

theorem receive_data (t : ReliableTransport) (data : ¬p.IsAck) :
    t.receive p = if p.seq = t.acked ∧ t.state ≠ .idle then (false, t)
      else (true, { t with acked := p.seq }) := if_neg data

theorem receive_seq (t : ReliableTransport) (p : Pdu) : (t.receive p).2.seq = t.seq := by
  unfold receive onAckReceived
  split
  · split <;> rfl
  · split <;> rfl

/-- Only the acknowledgement of the last PDU ends the wait for it. -/
theorem receive_state (t : ReliableTransport) (p : Pdu) :
    (t.receive p).2.state = if p.IsAck ∧ p.seq = t.seq - 1 then .idle else t.state := by
  by_cases ack : p.IsAck
  · rw [receive_ack t ack, onAckReceived]
    by_cases last : p.seq = t.seq - 1
    · rw [if_pos last, if_pos ⟨ack, last⟩]
    · rw [if_neg last, if_neg fun both => last both.2]
  · have data : (t.receive p).2.state = t.state := by
      rw [receive_data t ack]
      split <;> rfl
    rw [data, if_neg fun both => ack both.1]

theorem not_isAck_of_receive {t : ReliableTransport} (taken : (t.receive p).1 = true) :
    ¬p.IsAck := by
  intro ack
  rw [receive_ack t ack] at taken
  cases taken

theorem onAckReceived_acked (t : ReliableTransport) (seq : UInt8) :
    (t.onAckReceived seq).2.acked = t.acked := by
  unfold onAckReceived
  split <;> rfl

/-- A timeout renumbers nothing, and ends the wait only by giving up. -/
theorem onTimeout_spec (t : ReliableTransport) : t.onTimeout.2.seq = t.seq ∧
    t.onTimeout.2.acked = t.acked ∧ t.onTimeout.1 ≠ .txComplete ∧
    (t.onTimeout.1 ≠ .giveUp → t.onTimeout.2.state = t.state) := by
  unfold onTimeout
  split
  · split
    · exact ⟨rfl, rfl, by simp, fun _ => rfl⟩
    · exact ⟨rfl, rfl, by simp, fun goes => absurd rfl goes⟩
  · exact ⟨rfl, rfl, by simp, fun _ => rfl⟩

theorem down_ran {checked : Bool} {t t' : ReliableTransport} {f f' : Frame}
    {a : Except CommsError Unit} (ran : t.down checked f = .ok (a, t', f')) :
    (∃ e, a = .error e) ∧ t' = t ∨ a = .ok () ∧
      t' = { t with retries := t.maxRetries, state := .waitingAck, seq := t.seq + 1 } := by
  obtain ⟨n, _, ran⟩ := bind_ok ran
  obtain ⟨⟨answer, moved⟩, _, ran⟩ := bind_ok ran
  cases answer with
  | error e =>
      cases ran
      exact .inl ⟨⟨e, rfl⟩, rfl⟩
  | ok done =>
      cases ran
      exact .inr ⟨rfl, rfl⟩

theorem up_unread (checked : Bool) (t : ReliableTransport) (holds : f.Holds bytes)
    (unread : Pdu.read bytes = none) : up checked t f = .ok (.ok false, t, f) := by
  rw [up, holds.len_eq, ok_bind, if_pos (Pdu.read_none unread)]
  rfl

theorem up_read (checked : Bool) (t : ReliableTransport) (holds : f.Holds bytes)
    (known : Pdu.read bytes = some p) :
    ∃ f', up checked t f = .ok (.ok (t.receive p).1, (t.receive p).2, f') ∧
      f'.Holds p.payload := by
  obtain ⟨hdr, rfl, five, seq, flags⟩ := Pdu.read_some known
  obtain ⟨f', stripped, left⟩ := holds.stripHeader_eq checked
  have long : ¬(hdr ++ p.payload).length < 5 := by
    rw [List.length_append]
    omega
  rw [five] at stripped
  refine ⟨f', ?_, left⟩
  rw [up, holds.len_eq, ok_bind, if_neg long, stripped, ok_bind]
  simp only [index_ok seq, index_ok flags, ok_bind]
  by_cases ack : p.flags &&& TransportFlags.IS_ACK ≠ 0
  · rw [if_pos ack, receive_ack t ack]
    rfl
  · rw [if_neg ack, receive_data t ack]
    by_cases again : p.seq = t.acked ∧ t.state ≠ .idle
    · rw [if_pos again, if_pos again]
      rfl
    · rw [if_neg again, if_neg again]
      rfl

end ReliableTransport

instance : Strips ReliableTransport where
  strip := ReliableTransport.strip
  overhead := 5
  length_strip t bytes left stripped := by
    obtain ⟨p, known, rest⟩ := Option.bind_eq_some_iff.mp stripped
    split at rest
    · cases rest
      exact Pdu.length_read known
    · cases rest
  up_passes checked t f bytes holds := by
    cases known : Pdu.read bytes with
    | none =>
        refine ⟨_, _, _, ReliableTransport.up_unread checked t holds known, ?_⟩
        simp [Passed, ReliableTransport.strip, known]
    | some p =>
        obtain ⟨f', ran, left⟩ := ReliableTransport.up_read checked t holds known
        refine ⟨_, _, _, ran, ?_⟩
        cases accepted : (t.receive p).1 with
        | false => simp [Passed, ReliableTransport.strip, known, accepted]
        | true => simpa [Passed, ReliableTransport.strip, known, accepted] using left

theorem ReliableTransport.down_wraps {checked : Bool} {t t' : ReliableTransport} {f f' : Frame}
    {r : Except CommsError Unit} (ran : Layer.down checked t f = .ok (r, t', f'))
    (room : 5 ≤ f.start.toNat) : r = .ok () ∧ Wrapped 5 0 f f' := by
  obtain ⟨n, _, ran⟩ := bind_ok ran
  obtain ⟨⟨answer, frame⟩, put, ran⟩ := bind_ok ran
  obtain ⟨rfl, moved⟩ := wrapped_header put room
  cases ran
  exact ⟨rfl, moved⟩

theorem ReliableTransport.header_le : 5 ≤ 10 := by decide

instance : Wraps ReliableTransport where
  header := 5
  trailer := 0
  complete := true
  header_le := ReliableTransport.header_le
  accepts checked t t' f f' r ran room := by
    have done := (ReliableTransport.down_wraps ran room).1
    simp [done, f.stop_fits]
  wrapped checked t t' f f' ran room := (ReliableTransport.down_wraps ran room).2

namespace UnreliableTransport

def strip (bytes : List UInt8) : Option (List UInt8) :=
  if bytes.length < 5 then none else some (bytes.drop 5)

end UnreliableTransport

instance : Strips UnreliableTransport where
  strip _ := UnreliableTransport.strip
  overhead := 5
  length_strip t bytes left stripped := by
    unfold UnreliableTransport.strip at stripped
    split at stripped
    · cases stripped
    · cases stripped
      rw [List.length_drop]
      omega
  up_passes checked t f bytes holds := by
    by_cases short : bytes.length < 5
    · refine ⟨.ok false, t, f, ?_, by simp [Passed, UnreliableTransport.strip, short]⟩
      change UnreliableTransport.up checked t f = _
      rw [UnreliableTransport.up, holds.len_eq, ok_bind, if_pos short]
      rfl
    · have split : f.Holds (bytes.take 5 ++ bytes.drop 5) := by
        rw [List.take_append_drop]
        exact holds
      obtain ⟨f', stripped, left⟩ := split.stripHeader_eq checked
      have five : (bytes.take 5).length = 5 := by
        rw [List.length_take]
        omega
      rw [five] at stripped
      refine ⟨.ok true, t, f', ?_, by simpa [Passed, UnreliableTransport.strip, short] using left⟩
      change UnreliableTransport.up checked t f = _
      rw [UnreliableTransport.up, holds.len_eq, ok_bind, if_neg short, stripped]
      rfl

theorem UnreliableTransport.down_wraps {checked : Bool} {t t' : UnreliableTransport} {f f' : Frame}
    {r : Except CommsError Unit} (ran : Layer.down checked t f = .ok (r, t', f'))
    (room : 5 ≤ f.start.toNat) : r = .ok () ∧ Wrapped 5 0 f f' := by
  obtain ⟨n, _, ran⟩ := bind_ok ran
  obtain ⟨⟨answer, frame⟩, put, ran⟩ := bind_ok ran
  obtain ⟨rfl, moved⟩ := wrapped_header put room
  cases ran
  exact ⟨rfl, moved⟩

theorem UnreliableTransport.header_le : 5 ≤ 10 := by decide

instance : Wraps UnreliableTransport where
  header := 5
  trailer := 0
  complete := true
  header_le := UnreliableTransport.header_le
  accepts checked t t' f f' r ran room := by
    have done := (UnreliableTransport.down_wraps ran room).1
    simp [done, f.stop_fits]
  wrapped checked t t' f f' ran room := (UnreliableTransport.down_wraps ran room).2

end QpRs.Comms
