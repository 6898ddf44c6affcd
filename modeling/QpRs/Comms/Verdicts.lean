import QpRs.Comms.Transport

/-! The verdicts of the reliable transport on its PDUs, over every sequence of sends, timeouts and
acknowledgements. -/

namespace QpRs.Comms

open QpRs.Lib

inductive TransportCall where
  | down (frame : Frame)
  | onTimeout
  | onAckReceived (ackSeq : UInt8)

/-- What has happened, with what the transport answered. -/
inductive TxEntry where
  | sent (seq : UInt8)
  | timeout (action : TransportAction)
  | ack (ackSeq : UInt8) (action : TransportAction)
  deriving DecidableEq, Repr

namespace TxEntry

def action : TxEntry → TransportAction
  | .sent _ => .nothing
  | .timeout action => action
  | .ack _ action => action

def isSent : TxEntry → Bool
  | .sent _ => true
  | _ => false

def isVerdict (e : TxEntry) : Bool := e.action = .txComplete || e.action = .giveUp

end TxEntry

/-! A log has its newest entry first. -/

namespace TxLog

def sinceDown (log : List TxEntry) : List TxEntry := log.takeWhile fun e => !e.isSent

def latest : List TxEntry → Option UInt8
  | [] => none
  | .sent seq :: _ => some seq
  | _ :: past => latest past

def resent (log : List TxEntry) : Nat :=
  (sinceDown log).countP fun e => e.action = .shouldRetransmit

def verdicts (log : List TxEntry) : Nat := (sinceDown log).countP TxEntry.isVerdict

/-- The newest entry, against the ones before it. A transport waits when it has sent a PDU and given
no verdict on it. -/
structure Justified (maxRetries : UInt8) (e : TxEntry) (past : List TxEntry) : Prop where
  completes : e.action = .txComplete →
    ∃ seq, latest past = some seq ∧ e = .ack seq .txComplete ∧ verdicts past = 0
  gives_up : e.action = .giveUp → resent past = maxRetries.toNat
  quiet : 0 < verdicts past → e.isSent = false → e.action = .nothing

/-- The transport has been right so far about the latest PDU. -/
structure OneVerdict (maxRetries : UInt8) (log : List TxEntry) : Prop where
  resent_le : resent log ≤ maxRetries.toNat
  verdicts_le : verdicts log ≤ 1
  justified : ∀ e past, log = e :: past → Justified maxRetries e past

end TxLog

structure TransportRun where
  transport : ReliableTransport
  log : List TxEntry

namespace TransportRun

def start (maxRetries : UInt8) : TransportRun := ⟨.new maxRetries, []⟩

/-- A PDU that cannot be encoded is not sent. -/
def step (checked : Bool) (s : TransportRun) : TransportCall → Option TransportRun
  | .down frame =>
    match s.transport.down checked frame with
    | .error _ => none
    | .ok (.error _, t, _) => some { s with transport := t }
    | .ok (.ok (), t, _) => some ⟨t, .sent s.transport.seq :: s.log⟩
  | .onTimeout => some ⟨s.transport.onTimeout.2, .timeout s.transport.onTimeout.1 :: s.log⟩
  | .onAckReceived ackSeq =>
    some ⟨(s.transport.onAckReceived ackSeq).2,
      .ack ackSeq (s.transport.onAckReceived ackSeq).1 :: s.log⟩

end TransportRun

/-- No acknowledgement of the latest PDU comes when it is not waited for. -/
def TransportCall.Timely (t : ReliableTransport) : TransportCall → Prop
  | .onAckReceived ackSeq => ackSeq = t.seq - 1 → t.state = .waitingAck
  | _ => True

namespace TxLog

variable {log past : List TxEntry} {e : TxEntry}

theorem sinceDown_told (told : e.isSent = false) : sinceDown (e :: past) = e :: sinceDown past := by
  rw [sinceDown, List.takeWhile_cons_of_pos (by simp [told]), sinceDown]

theorem latest_told (told : e.isSent = false) : latest (e :: past) = latest past := by
  cases e with
  | sent seq => cases told
  | timeout action => rfl
  | ack ackSeq action => rfl

theorem resent_told (told : e.isSent = false) :
    resent (e :: past) = resent past + if e.action = .shouldRetransmit then 1 else 0 := by
  rw [resent, sinceDown_told told, List.countP_cons]
  simp [resent]

theorem verdicts_told (told : e.isSent = false) :
    verdicts (e :: past) = verdicts past + if e.isVerdict then 1 else 0 := by
  rw [verdicts, sinceDown_told told, List.countP_cons]
  rfl

theorem oneVerdict_nil (maxRetries : UInt8) : OneVerdict maxRetries [] where
  resent_le := Nat.zero_le _
  verdicts_le := Nat.zero_le _
  justified e past same := by cases same

theorem justified_sent (maxRetries seq : UInt8) (past : List TxEntry) :
    Justified maxRetries (.sent seq) past where
  completes done := by cases done
  gives_up gave := by cases gave
  quiet _ told := by cases told

theorem oneVerdict_cons {maxRetries : UInt8} (resent_le : resent (e :: past) ≤ maxRetries.toNat)
    (verdicts_le : verdicts (e :: past) ≤ 1) (justified : Justified maxRetries e past) :
    OneVerdict maxRetries (e :: past) where
  resent_le := resent_le
  verdicts_le := verdicts_le
  justified e' past' same := by
    cases same
    exact justified

end TxLog

namespace TransportRun

open TxLog

/-- The fields of the transport are what its log says. -/
structure Follows (maxRetries : UInt8) (s : TransportRun) : Prop where
  limit : s.transport.maxRetries = maxRetries
  numbered : ∀ seq, latest s.log = some seq → s.transport.seq = seq + 1
  waits : s.transport.state = .waitingAck ↔ latest s.log ≠ none ∧ verdicts s.log = 0
  left : s.transport.state = .waitingAck →
    s.transport.retries.toNat + resent s.log = maxRetries.toNat
  sound : OneVerdict maxRetries s.log

variable {maxRetries : UInt8} {s t : TransportRun}

theorem follows_start (maxRetries : UInt8) : (start maxRetries).Follows maxRetries where
  limit := rfl
  numbered _ none_sent := by cases none_sent
  waits := by simp [start, ReliableTransport.new, latest]
  left waiting := by cases waiting
  sound := oneVerdict_nil maxRetries

theorem Follows.told_nothing (follows : s.Follows maxRetries) {e : TxEntry}
    (told : e.isSent = false) (silent : e.action = .nothing) :
    Follows maxRetries ⟨s.transport, e :: s.log⟩ := by
  have resent_same : resent (e :: s.log) = resent s.log := by
    rw [resent_told told, silent]
    rfl
  have verdicts_same : verdicts (e :: s.log) = verdicts s.log := by
    rw [verdicts_told told, TxEntry.isVerdict, silent]
    rfl
  refine ⟨follows.limit, ?_, ?_, ?_, oneVerdict_cons ?_ ?_ ⟨?_, ?_, ?_⟩⟩
  · rw [latest_told told]
    exact follows.numbered
  · rw [latest_told told, verdicts_same]
    exact follows.waits
  · rw [resent_same]
    exact follows.left
  · rw [resent_same]
    exact follows.sound.resent_le
  · rw [verdicts_same]
    exact follows.sound.verdicts_le
  · intro completed
    rw [silent] at completed
    cases completed
  · intro gave_up
    rw [silent] at gave_up
    cases gave_up
  · intro _ _
    exact silent

/-- A verdict ends the wait. -/
theorem Follows.concluded (follows : s.Follows maxRetries) {e : TxEntry} {after : ReliableTransport}
    (told : e.isSent = false) (verdict : e.isVerdict = true) (open_yet : verdicts s.log = 0)
    (limit : after.maxRetries = s.transport.maxRetries) (numbered : after.seq = s.transport.seq)
    (idle : after.state ≠ .waitingAck) (justified : Justified maxRetries e s.log) :
    Follows maxRetries ⟨after, e :: s.log⟩ := by
  have other : e.action ≠ .shouldRetransmit := by
    intro again
    rw [TxEntry.isVerdict, again] at verdict
    cases verdict
  have counted : resent (e :: s.log) = resent s.log := by
    rw [resent_told told, if_neg other, Nat.add_zero]
  have given : verdicts (e :: s.log) = 1 := by
    rw [verdicts_told told, open_yet, if_pos verdict]
  refine ⟨limit.trans follows.limit, ?_, ?_, ?_, oneVerdict_cons ?_ given.le justified⟩
  · intro seq newest
    rw [latest_told told] at newest
    exact numbered.trans (follows.numbered seq newest)
  · refine iff_of_false idle ?_
    intro still
    have none_given := still.2
    rw [given] at none_given
    cases none_given
  · intro waits
    exact absurd waits idle
  · rw [counted]
    exact follows.sound.resent_le

theorem Follows.down {checked : Bool} {frame : Frame} (follows : s.Follows maxRetries)
    (stepped : s.step checked (.down frame) = some t) : t.Follows maxRetries := by
  rw [step] at stepped
  split at stepped
  · cases stepped
  · next ran =>
      obtain ⟨_, same⟩ | ⟨encoded, _⟩ := ReliableTransport.down_ran ran
      · cases stepped
        rw [same]
        exact follows
      · cases encoded
  · next ran =>
      obtain ⟨⟨e, refused⟩, _⟩ | ⟨_, sent⟩ := ReliableTransport.down_ran ran
      · cases refused
      · cases stepped
        rw [sent]
        refine ⟨follows.limit, ?_, ?_, ?_, oneVerdict_cons (Nat.zero_le _) (Nat.zero_le _) ?_⟩
        · intro seq newest
          cases newest
          rfl
        · exact ⟨fun _ => ⟨by simp [latest], rfl⟩, fun _ => rfl⟩
        · intro _
          change s.transport.maxRetries.toNat + 0 = maxRetries.toNat
          rw [follows.limit, Nat.add_zero]
        · exact justified_sent maxRetries _ _

theorem Follows.onTimeout {checked : Bool} (follows : s.Follows maxRetries)
    (stepped : s.step checked .onTimeout = some t) : t.Follows maxRetries := by
  cases stepped
  by_cases waiting : s.transport.state = .waitingAck
  · obtain ⟨sent, open_yet⟩ := follows.waits.mp waiting
    have left := follows.left waiting
    by_cases more : s.transport.retries > 0
    · rw [ReliableTransport.onTimeout, if_pos waiting, if_pos more]
      have used : (s.transport.retries - 1).toNat + 1 = s.transport.retries.toNat := by
        have positive : 0 < s.transport.retries.toNat := more
        have one_le : (1 : UInt8) ≤ s.transport.retries := UInt8.le_iff_toNat_le.mpr positive
        rw [UInt8.toNat_sub_of_le _ _ one_le]
        exact Nat.sub_add_cancel positive
      have counted : resent (.timeout .shouldRetransmit :: s.log) = resent s.log + 1 :=
        resent_told rfl
      have none_given : verdicts (.timeout .shouldRetransmit :: s.log) = 0 :=
        (verdicts_told rfl).trans open_yet
      refine ⟨follows.limit, follows.numbered, ?_, ?_, oneVerdict_cons ?_ ?_ ⟨?_, ?_, ?_⟩⟩
      · exact ⟨fun _ => ⟨sent, none_given⟩, fun _ => waiting⟩
      · intro _
        rw [counted]
        change (s.transport.retries - 1).toNat + _ = _
        omega
      · rw [counted]
        omega
      · rw [none_given]
        exact Nat.zero_le 1
      · intro done
        cases done
      · intro gave
        cases gave
      · intro given
        omega
    · rw [ReliableTransport.onTimeout, if_pos waiting, if_neg more]
      have spent : s.transport.retries.toNat = 0 := Nat.eq_zero_of_not_pos more
      refine follows.concluded rfl rfl open_yet rfl rfl nofun ⟨nofun, ?_, ?_⟩
      · intro _
        omega
      · intro before
        omega
  · rw [ReliableTransport.onTimeout, if_neg waiting]
    exact follows.told_nothing rfl rfl

theorem Follows.onAckReceived {checked : Bool} {ackSeq : UInt8} (follows : s.Follows maxRetries)
    (timely : (TransportCall.onAckReceived ackSeq).Timely s.transport)
    (stepped : s.step checked (.onAckReceived ackSeq) = some t) : t.Follows maxRetries := by
  cases stepped
  by_cases mine : ackSeq = s.transport.seq - 1
  · obtain ⟨sent, open_yet⟩ := follows.waits.mp (timely mine)
    obtain ⟨seq, newest⟩ := Option.ne_none_iff_exists'.mp sent
    have number : ackSeq = seq := by
      rw [mine, follows.numbered seq newest, UInt8.add_sub_cancel]
    rw [ReliableTransport.onAckReceived, if_pos mine]
    refine follows.concluded rfl rfl open_yet rfl rfl ?_ ⟨?_, ?_, ?_⟩
    · intro resends
      cases resends
    · intro _
      exact ⟨seq, newest, by rw [number], open_yet⟩
    · intro gives_up
      cases gives_up
    · intro before
      omega
  · rw [ReliableTransport.onAckReceived, if_neg mine]
    exact follows.told_nothing rfl rfl

theorem Follows.step {checked : Bool} {c : TransportCall} (follows : s.Follows maxRetries)
    (timely : c.Timely s.transport) (stepped : s.step checked c = some t) :
    t.Follows maxRetries := by
  cases c with
  | down frame => exact follows.down stepped
  | onTimeout => exact follows.onTimeout stepped
  | onAckReceived ackSeq => exact follows.onAckReceived timely stepped

/-- A verdict on a PDU that is not waited for is not justified. -/
theorem timely_of_oneVerdict {checked : Bool} {c : TransportCall} (follows : s.Follows maxRetries)
    (right : ∀ t, s.step checked c = some t → OneVerdict maxRetries t.log) :
    c.Timely s.transport := by
  cases c with
  | down frame => trivial
  | onTimeout => trivial
  | onAckReceived ackSeq =>
      intro mine
      have told := right _ rfl
      have done : (s.transport.onAckReceived ackSeq).1 = .txComplete := by
        rw [ReliableTransport.onAckReceived, if_pos mine]
      obtain ⟨seq, newest, _, open_yet⟩ := (told.justified _ _ rfl).completes done
      exact follows.waits.mpr ⟨by rw [newest]; simp, open_yet⟩

/-- The verdicts are right in every state of a run exactly where each acknowledgement of the latest
PDU comes while it is waited for. -/
theorem one_verdict_iff (checked : Bool) (maxRetries : UInt8) (calls : List TransportCall) :
    After (step checked) (fun s => OneVerdict maxRetries s.log) (start maxRetries) calls ↔
      Along (step checked) (fun s c => c.Timely s.transport) (start maxRetries) calls := by
  refine along_congr ?_ ?_ (follows_start maxRetries)
  · intro s c follows
    constructor
    · exact timely_of_oneVerdict follows
    · intro timely t stepped
      exact (follows.step timely stepped).sound
  · intro s c t follows timely stepped
    exact follows.step timely stepped

/-- A duplicate of the acknowledgement completes the same PDU a second time. -/
theorem second_verdict : ¬∀ (checked : Bool) (maxRetries : UInt8) (calls : List TransportCall),
    After (step checked) (fun s => OneVerdict maxRetries s.log) (start maxRetries) calls := by
  intro always
  have after_down := (always true 3 [.down Frame.new, .onAckReceived 0, .onAckReceived 0]).2 _ rfl
  have told := (after_down.2 _ rfl).1 _ rfl
  obtain ⟨seq, _, _, open_yet⟩ := (told.justified _ _ rfl).completes rfl
  cases open_yet

end TransportRun

end QpRs.Comms
