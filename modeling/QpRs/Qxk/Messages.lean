import Mathlib.Data.Finset.Card
import QpRs.Lib.Handoff
import QpRs.Lib.Run
import QpRs.Qxk.Primitives

/-! Message queues with each call as one step: the order of the messages, the capacity, and the
wake-ups of both sides.

The fields after the scheduler are ghost state: the messages sent and received so far, and for each
side the wake-ups that were not yet retried. `try_send` and `try_receive` take no thread; the one
that calls them, if it is a thread, is part of the label. -/

namespace QpRs.Qxk

open Lib (Handoff)

inductive QueueCall (τ : Type) where
  | trySend (msg : τ) (caller : Option ThreadId)
  | tryReceive (caller : Option ThreadId)
  | send (msg : τ) (thread : ThreadId) (priority : Nat)
  | receive (thread : ThreadId) (priority : Nat)

variable {τ : Type}

namespace QueueCall

def caller : QueueCall τ → Option ThreadId
  | .trySend _ caller => caller
  | .tryReceive caller => caller
  | .send _ thread _ => some thread
  | .receive thread _ => some thread

def sends : QueueCall τ → Bool
  | .trySend _ _ => true
  | .tryReceive _ => false
  | .send _ _ _ => true
  | .receive _ _ => false

/-- The thread that a call puts on a waiting list when it fails. -/
def entry : QueueCall τ → List ThreadId
  | .send _ thread _ => [thread]
  | .receive thread _ => [thread]
  | _ => []

end QueueCall

structure QueueRun (τ : Type) where
  queue : MessageQueueInner τ
  sched : QxkScheduler
  sent : List τ
  received : List τ
  wokenSenders : List ThreadId
  wokenReceivers : List ThreadId

namespace QueueRun

def init (capacity : Nat) (sched : QxkScheduler) : QueueRun τ :=
  ⟨.new capacity, sched, [], [], [], []⟩

def wokenIds (woken : Option WaitingThread) : List ThreadId := ids woken.toList

def wakes (q : MessageQueueInner τ) : QueueCall τ → List ThreadId
  | .trySend msg _ =>
      match q.enterTrySend msg with
      | .ok (woken, _) => wokenIds woken
      | .error _ => []
  | .tryReceive _ => []
  | .send msg thread priority =>
      match q.enterSend msg thread priority with
      | (some woken, _) => wokenIds woken
      | (none, _) => []
  | .receive thread priority =>
      match q.enterReceive thread priority with
      | (some (_, woken), _) => wokenIds woken
      | (none, _) => []

def noteSent (r : QueueRun τ) (c : QueueCall τ) (msg : τ)
    (outcome : Except SyncError Unit × MessageQueueInner τ × QxkScheduler) :
    Except SyncError (Option τ) × QueueRun τ :=
  (outcome.1.map fun _ => none,
    { r with
      queue := outcome.2.1
      sched := outcome.2.2
      sent := if outcome.1.isOk then r.sent ++ [msg] else r.sent
      wokenSenders := Handoff.retried r.wokenSenders c.caller
      wokenReceivers := r.wokenReceivers ++ wakes r.queue c })

def noteReceived (r : QueueRun τ) (c : QueueCall τ)
    (outcome : Except SyncError τ × MessageQueueInner τ × QxkScheduler) :
    Except SyncError (Option τ) × QueueRun τ :=
  (outcome.1.map some,
    { r with
      queue := outcome.2.1
      sched := outcome.2.2
      received := r.received ++ outcome.1.toOption.toList
      wokenSenders := r.wokenSenders ++ wakes r.queue c
      wokenReceivers := Handoff.retried r.wokenReceivers c.caller })

/-- The result of a call and the state after it. A send that succeeds returns no message. -/
def call (r : QueueRun τ) (c : QueueCall τ) : Except SyncError (Option τ) × QueueRun τ :=
  match c with
  | .trySend msg _ => r.noteSent c msg (r.queue.trySend msg r.sched)
  | .tryReceive _ => r.noteReceived c (r.queue.tryReceive.1, r.queue.tryReceive.2, r.sched)
  | .send msg thread priority => r.noteSent c msg (r.queue.send msg thread priority r.sched)
  | .receive thread priority => r.noteReceived c (r.queue.receive thread priority r.sched)

def step (r : QueueRun τ) (c : QueueCall τ) : Option (QueueRun τ) := some (r.call c).2

/-- Free slots and the senders that wait for them. -/
def sendSide (r : QueueRun τ) : Handoff ThreadId :=
  ⟨r.queue.capacity - r.queue.queue.length, ids r.queue.waitingSenders, r.wokenSenders⟩

/-- Queued messages and the receivers that wait for them. -/
def receiveSide (r : QueueRun τ) : Handoff ThreadId :=
  ⟨r.queue.queue.length, ids r.queue.waitingReceivers, r.wokenReceivers⟩

end QueueRun

/-- What a call does, by its success. -/
inductive Effect (r r' : QueueRun τ) (c : QueueCall τ) : Bool → Prop where
  | sent (msg : τ) (sends : c.sends = true)
      (room : r.queue.queue.length < r.queue.capacity) (sent : r'.sent = r.sent ++ [msg])
      (received : r'.received = r.received) (queue : r'.queue.queue = r.queue.queue ++ [msg])
      (senders : r.sendSide.Retries c.caller c.entry r'.sendSide)
      (receivers : r.receiveSide.Grants r'.receiveSide) : Effect r r' c true
  | unsent (sends : c.sends = true) (sent : r'.sent = r.sent)
      (received : r'.received = r.received) (queue : r'.queue.queue = r.queue.queue)
      (senders : r.sendSide.Retries c.caller c.entry r'.sendSide)
      (receivers : r'.receiveSide = r.receiveSide) : Effect r r' c false
  | received (msg : τ) (blocks : ∃ thread priority, c = .receive thread priority)
      (sent : r'.sent = r.sent) (received : r'.received = r.received ++ [msg])
      (queue : r.queue.queue = msg :: r'.queue.queue)
      (senders : r.sendSide.Grants r'.sendSide)
      (receivers : r.receiveSide.Retries c.caller c.entry r'.receiveSide) : Effect r r' c true
  | unwoken (msg : τ) (nonblocking : ∃ caller, c = .tryReceive caller)
      (sent : r'.sent = r.sent) (received : r'.received = r.received ++ [msg])
      (queue : r.queue.queue = msg :: r'.queue.queue)
      (senders : r'.sendSide = r.sendSide.add)
      (receivers : r.receiveSide.Retries c.caller c.entry r'.receiveSide) : Effect r r' c true
  | unreceived (receives : c.sends = false) (sent : r'.sent = r.sent)
      (received : r'.received = r.received) (queue : r'.queue.queue = r.queue.queue)
      (empty : r.queue.queue = [])
      (senders : r'.sendSide = r.sendSide)
      (receivers : r.receiveSide.Retries c.caller c.entry r'.receiveSide) : Effect r r' c false

section Calls

variable {r : QueueRun τ}

theorem grants_takeHighest (available : Nat) (v : WaitVec) (woken : List ThreadId) :
    Handoff.Grants ⟨available, ids v, woken⟩
      ⟨available + 1, ids (v.takeHighest.elim v Prod.snd),
        woken ++ QueueRun.wokenIds (v.takeHighest.map Prod.fst)⟩ := by
  cases taken : v.takeHighest with
  | none =>
      have nobody : ids v = [] := by simp [WaitVec.takeHighest_none taken, ids]
      simpa [QueueRun.wokenIds, ids] using Handoff.Grants.unclaimed (h := ⟨_, ids v, woken⟩) nobody
  | some found => exact .woke ((WaitVec.takeHighest_perm taken).map WaitingThread.id)

theorem wakeReceiver_eq (q : MessageQueueInner τ) :
    q.wakeReceiver = (q.waitingReceivers.takeHighest.map Prod.fst,
      { q with
        waitingReceivers := q.waitingReceivers.takeHighest.elim q.waitingReceivers Prod.snd }) := by
  unfold MessageQueueInner.wakeReceiver
  cases q.waitingReceivers.takeHighest <;> rfl

theorem wakeSender_eq (q : MessageQueueInner τ) :
    q.wakeSender = (q.waitingSenders.takeHighest.map Prod.fst,
      { q with
        waitingSenders := q.waitingSenders.takeHighest.elim q.waitingSenders Prod.snd }) := by
  unfold MessageQueueInner.wakeSender
  cases q.waitingSenders.takeHighest <;> rfl

theorem sent_effect (c : QueueCall τ) (msg : τ) (sched : QxkScheduler)
    (sends : c.sends = true) (room : r.queue.queue.length < r.queue.capacity)
    {woken : Option WaitingThread} {q : MessageQueueInner τ}
    (pushed : { r.queue with queue := r.queue.queue ++ [msg] }.wakeReceiver = (woken, q)) :
    Effect r { r with
      queue := q, sched := sched, sent := r.sent ++ [msg]
      wokenSenders := Handoff.retried r.wokenSenders c.caller
      wokenReceivers := r.wokenReceivers ++ QueueRun.wokenIds woken } c true := by
  rw [wakeReceiver_eq] at pushed
  cases pushed
  refine .sent msg sends room rfl rfl rfl ?_ ?_
  · apply Handoff.Retries.taken
    simp only [QueueRun.sendSide, List.length_append, List.length_singleton]
    omega
  · have granted := grants_takeHighest r.queue.queue.length r.queue.waitingReceivers
      r.wokenReceivers
    simpa only [QueueRun.receiveSide, List.length_append, List.length_singleton] using granted

theorem unsent_effect (c : QueueCall τ) (sched : QxkScheduler)
    (sends : c.sends = true) (full : r.queue.capacity ≤ r.queue.queue.length) {senders : WaitVec}
    (listed : ids senders = ids r.queue.waitingSenders ++ c.entry) :
    Effect r { r with
      queue := { r.queue with waitingSenders := senders }, sched := sched
      wokenSenders := Handoff.retried r.wokenSenders c.caller
      wokenReceivers := r.wokenReceivers ++ [] } c false := by
  refine .unsent sends rfl rfl rfl ?_ ?_
  · have none : r.queue.capacity - r.queue.queue.length = 0 := by omega
    simp only [QueueRun.sendSide, listed, none]
    exact .refused rfl
  · simp [QueueRun.receiveSide]

theorem trySend_effect (r : QueueRun τ) (msg : τ) (caller : Option ThreadId) :
    Effect r (r.call (.trySend msg caller)).2 (.trySend msg caller)
      (r.call (.trySend msg caller)).1.isOk := by
  simp only [QueueRun.call, QueueRun.noteSent, MessageQueueInner.trySend, QueueRun.wakes,
    MessageQueueInner.enterTrySend, MessageQueueInner.tryPush]
  by_cases full : r.queue.queue.length ≥ r.queue.capacity
  · simp only [if_pos full]
    exact unsent_effect (.trySend msg caller) r.sched rfl full (List.append_nil _).symm
  · simp only [if_neg full]
    exact sent_effect (.trySend msg caller) msg _ rfl (by omega) rfl

theorem send_effect (r : QueueRun τ) (msg : τ) (thread : ThreadId) (priority : Nat) :
    Effect r (r.call (.send msg thread priority)).2 (.send msg thread priority)
      (r.call (.send msg thread priority)).1.isOk := by
  simp only [QueueRun.call, QueueRun.noteSent, MessageQueueInner.send, QueueRun.wakes,
    MessageQueueInner.enterSend, MessageQueueInner.tryPush]
  by_cases full : r.queue.queue.length ≥ r.queue.capacity
  · simp only [if_pos full]
    exact unsent_effect (.send msg thread priority) _ rfl full (by simp [ids, QueueCall.entry])
  · simp only [if_neg full]
    exact sent_effect (.send msg thread priority) msg _ rfl (by omega) rfl

theorem unreceived_effect (c : QueueCall τ) (sched : QxkScheduler) (receives : c.sends = false)
    (empty : r.queue.queue = []) {receivers : WaitVec}
    (listed : ids receivers = ids r.queue.waitingReceivers ++ c.entry) :
    Effect r { r with
      queue := ⟨r.queue.capacity, [], receivers, r.queue.waitingSenders⟩, sched := sched
      received := r.received ++ []
      wokenSenders := r.wokenSenders ++ []
      wokenReceivers := Handoff.retried r.wokenReceivers c.caller } c false := by
  refine .unreceived receives rfl (List.append_nil _) empty.symm empty ?_ ?_
  · simp [QueueRun.sendSide, empty]
  · simp only [QueueRun.receiveSide, listed, empty, List.length_nil]
    exact .refused rfl

theorem tryReceive_effect (bounded : r.queue.queue.length ≤ r.queue.capacity)
    (caller : Option ThreadId) :
    Effect r (r.call (.tryReceive caller)).2 (.tryReceive caller)
      (r.call (.tryReceive caller)).1.isOk := by
  simp only [QueueRun.call, QueueRun.noteReceived, MessageQueueInner.tryReceive, QueueRun.wakes]
  cases messages : r.queue.queue with
  | nil =>
      have same : r.queue = ⟨r.queue.capacity, [], r.queue.waitingReceivers,
          r.queue.waitingSenders⟩ := by rw [← messages]
      rw [same]
      exact unreceived_effect (.tryReceive caller) r.sched rfl messages (List.append_nil _).symm
  | cons msg rest =>
      rw [messages, List.length_cons] at bounded
      refine .unwoken msg ⟨caller, rfl⟩ rfl rfl messages ?_ ?_
      · simp only [QueueRun.sendSide, Handoff.add, messages, List.length_cons, List.append_nil,
          Handoff.mk.injEq, and_true]
        omega
      · apply Handoff.Retries.taken
        simp only [QueueRun.receiveSide, messages, List.length_cons]

theorem receive_effect (bounded : r.queue.queue.length ≤ r.queue.capacity) (thread : ThreadId)
    (priority : Nat) :
    Effect r (r.call (.receive thread priority)).2 (.receive thread priority)
      (r.call (.receive thread priority)).1.isOk := by
  simp only [QueueRun.call, QueueRun.noteReceived, MessageQueueInner.receive, QueueRun.wakes,
    MessageQueueInner.enterReceive]
  cases messages : r.queue.queue with
  | nil =>
      have listed : ids (r.queue.waitingReceivers ++ [⟨thread, priority⟩]) =
          ids r.queue.waitingReceivers ++ [thread] := by simp [ids]
      exact unreceived_effect (.receive thread priority) _ rfl messages listed
  | cons msg rest =>
      rw [messages, List.length_cons] at bounded
      simp only [wakeSender_eq]
      refine .received msg ⟨thread, priority, rfl⟩ rfl rfl messages ?_ ?_
      · have granted := grants_takeHighest (r.queue.capacity - r.queue.queue.length)
          r.queue.waitingSenders r.wokenSenders
        have freed : r.queue.capacity - rest.length =
            r.queue.capacity - r.queue.queue.length + 1 := by
          rw [messages, List.length_cons]
          omega
        simpa only [QueueRun.sendSide, freed] using granted
      · apply Handoff.Retries.taken
        simp only [QueueRun.receiveSide, messages, List.length_cons]

theorem call_effect (bounded : r.queue.queue.length ≤ r.queue.capacity) (c : QueueCall τ) :
    Effect r (r.call c).2 c (r.call c).1.isOk := by
  cases c with
  | trySend msg caller => exact trySend_effect r msg caller
  | tryReceive caller => exact tryReceive_effect bounded caller
  | send msg thread priority => exact send_effect r msg thread priority
  | receive thread priority => exact receive_effect bounded thread priority

end Calls

/-- The messages are in order and within the capacity, and while receivers wait the queued messages
are covered by wake-ups. -/
structure QueueSound (capacity : Nat) (r : QueueRun τ) : Prop where
  limit : r.queue.capacity = capacity
  order : r.sent = r.received ++ r.queue.queue
  bounded : r.queue.queue.length ≤ capacity
  receivers : r.receiveSide.Covered

/-- A `try_receive` that takes a message while senders wait leaves a wake-up for the slot. -/
def Wakeful (r : QueueRun τ) : QueueCall τ → Prop
  | .tryReceive _ =>
      r.queue.queue = [] ∨ r.queue.waitingSenders = [] ∨
        r.queue.capacity - r.queue.queue.length < r.wokenSenders.length
  | _ => True

/-- No thread blocks on a side of the queue while it is already on that side's list. -/
def Unlisted (r : QueueRun τ) : QueueCall τ → Prop
  | .send _ thread _ => thread ∉ ids r.queue.waitingSenders
  | .receive thread _ => thread ∉ ids r.queue.waitingReceivers
  | _ => True

instance (r : QueueRun τ) [DecidableEq τ] : (c : QueueCall τ) → Decidable (Wakeful r c)
  | .tryReceive _ => inferInstanceAs (Decidable (_ ∨ _ ∨ _))
  | .trySend _ _ => .isTrue trivial
  | .send _ _ _ => .isTrue trivial
  | .receive _ _ => .isTrue trivial

instance (r : QueueRun τ) : (c : QueueCall τ) → Decidable (Unlisted r c)
  | .send _ _ _ => inferInstanceAs (Decidable (_ ∉ _))
  | .receive _ _ => inferInstanceAs (Decidable (_ ∉ _))
  | .trySend _ _ => .isTrue trivial
  | .tryReceive _ => .isTrue trivial

section Runs

variable {capacity : Nat} {r : QueueRun τ}

theorem capacity_call (r : QueueRun τ) (c : QueueCall τ) :
    (r.call c).2.queue.capacity = r.queue.capacity := by
  cases c with
  | trySend msg caller =>
      simp only [QueueRun.call, QueueRun.noteSent, MessageQueueInner.trySend,
        MessageQueueInner.enterTrySend, MessageQueueInner.tryPush, wakeReceiver_eq]
      by_cases full : r.queue.queue.length ≥ r.queue.capacity
      · simp only [if_pos full]
      · simp only [if_neg full]
  | tryReceive caller =>
      simp only [QueueRun.call, QueueRun.noteReceived, MessageQueueInner.tryReceive]
      cases r.queue.queue <;> rfl
  | send msg thread priority =>
      simp only [QueueRun.call, QueueRun.noteSent, MessageQueueInner.send,
        MessageQueueInner.enterSend, MessageQueueInner.tryPush, wakeReceiver_eq]
      by_cases full : r.queue.queue.length ≥ r.queue.capacity
      · simp only [if_pos full]
      · simp only [if_neg full]
  | receive thread priority =>
      simp only [QueueRun.call, QueueRun.noteReceived, MessageQueueInner.receive,
        MessageQueueInner.enterReceive, wakeSender_eq]
      cases r.queue.queue <;> rfl

theorem QueueSound.call (sound : QueueSound capacity r) (c : QueueCall τ) :
    QueueSound capacity (r.call c).2 := by
  have bounded := sound.bounded
  have order := sound.order
  have limit := (capacity_call r c).trans sound.limit
  rw [← sound.limit] at bounded
  have effect := call_effect bounded c
  generalize (r.call c).1.isOk = succeeded at effect
  cases effect with
  | sent msg sends room sent received queue senders receivers =>
      refine ⟨limit, ?_, ?_, sound.receivers.grants receivers⟩
      · rw [sent, received, queue, order, List.append_assoc]
      · rw [queue, List.length_append, List.length_singleton, ← sound.limit]
        exact room
  | unsent sends sent received queue senders receivers =>
      refine ⟨limit, ?_, ?_, ?_⟩
      · rw [sent, received, queue, order]
      · rw [queue]
        exact sound.bounded
      · rw [receivers]
        exact sound.receivers
  | received msg blocks sent received queue senders receivers =>
      refine ⟨limit, ?_, ?_, sound.receivers.retries receivers⟩
      · rw [sent, received, order, queue, List.append_assoc, List.singleton_append]
      · rw [queue, List.length_cons, sound.limit] at bounded
        omega
  | unwoken msg nonblocking sent received queue senders receivers =>
      refine ⟨limit, ?_, ?_, sound.receivers.retries receivers⟩
      · rw [sent, received, order, queue, List.append_assoc, List.singleton_append]
      · rw [queue, List.length_cons, sound.limit] at bounded
        omega
  | unreceived receives sent received queue empty senders receivers =>
      refine ⟨limit, ?_, ?_, sound.receivers.retries receivers⟩
      · rw [sent, received, queue, order]
      · rw [queue]
        exact sound.bounded

theorem call_fails (sound : QueueSound capacity r) (c : QueueCall τ)
    (failed : (r.call c).1.isOk = false) :
    (r.call c).2.queue.queue = r.queue.queue ∧ (r.call c).2.sent = r.sent ∧
      (r.call c).2.received = r.received := by
  have bounded := sound.bounded
  rw [← sound.limit] at bounded
  have effect := call_effect bounded c
  rw [failed] at effect
  cases effect with
  | unsent sends sent received queue senders receivers => exact ⟨queue, sent, received⟩
  | unreceived receives sent received queue empty senders receivers => exact ⟨queue, sent, received⟩

theorem wakeful_of_sends {c : QueueCall τ} (sends : c.sends = true) : Wakeful r c := by
  cases c with
  | tryReceive caller => cases sends
  | trySend msg caller => trivial
  | send msg thread priority => trivial
  | receive thread priority => trivial

theorem senders_call_iff (sound : QueueSound capacity r) (senders : r.sendSide.Covered)
    (c : QueueCall τ) : (r.call c).2.sendSide.Covered ↔ Wakeful r c := by
  have bounded := sound.bounded
  rw [← sound.limit] at bounded
  have effect := call_effect bounded c
  generalize (r.call c).1.isOk = succeeded at effect
  cases effect with
  | sent msg sends room sent received queue retries grants =>
      exact iff_of_true (senders.retries retries) (wakeful_of_sends sends)
  | unsent sends sent received queue retries same =>
      exact iff_of_true (senders.retries retries) (wakeful_of_sends sends)
  | received msg blocks sent received queue grants retries =>
      rcases blocks with ⟨thread, priority, rfl⟩
      exact iff_of_true (senders.grants grants) trivial
  | unwoken msg nonblocking sent received queue added retries =>
      rcases nonblocking with ⟨caller, rfl⟩
      rw [added, senders.add_iff]
      simp [Wakeful, QueueRun.sendSide, queue, ids]
  | unreceived receives sent received queue empty same retries =>
      rw [same]
      refine iff_of_true senders ?_
      cases c with
      | tryReceive caller => exact .inl empty
      | trySend msg caller => trivial
      | send msg thread priority => trivial
      | receive thread priority => trivial

theorem entry_nodup (c : QueueCall τ) : c.entry.Nodup := by
  cases c <;> simp [QueueCall.entry]

theorem entry_caller (c : QueueCall τ) : ∀ t ∈ c.entry, c.caller = some t := by
  cases c <;> simp [QueueCall.entry, QueueCall.caller]

theorem Unlisted.senders {c : QueueCall τ} (unlisted : Unlisted r c) (sends : c.sends = true) :
    ∀ t ∈ c.entry, t ∉ r.sendSide.waiting := by
  cases c with
  | trySend msg caller => simp [QueueCall.entry]
  | send msg thread priority =>
      simpa [QueueCall.entry, Unlisted, QueueRun.sendSide] using unlisted
  | tryReceive caller => cases sends
  | receive thread priority => cases sends

theorem Unlisted.receivers {c : QueueCall τ} (unlisted : Unlisted r c)
    (receives : c.sends = false) :
    ∀ t ∈ c.entry, t ∉ r.receiveSide.waiting := by
  cases c with
  | trySend msg caller => cases receives
  | send msg thread priority => cases receives
  | tryReceive caller => simp [QueueCall.entry]
  | receive thread priority =>
      simpa [QueueCall.entry, Unlisted, QueueRun.receiveSide] using unlisted

theorem single_call (sound : QueueSound capacity r) (c : QueueCall τ) (unlisted : Unlisted r c)
    (single : r.sendSide.Single ∧ r.receiveSide.Single) :
    (r.call c).2.sendSide.Single ∧ (r.call c).2.receiveSide.Single := by
  have bounded := sound.bounded
  rw [← sound.limit] at bounded
  have effect := call_effect bounded c
  generalize (r.call c).1.isOk = succeeded at effect
  rcases single with ⟨sending, receiving⟩
  have once := entry_nodup c
  have own := entry_caller c
  cases effect with
  | sent msg sends room sent received queue retries grants =>
      exact ⟨sending.retries retries once own (unlisted.senders sends), receiving.grants grants⟩
  | unsent sends sent received queue retries same =>
      rw [same]
      exact ⟨sending.retries retries once own (unlisted.senders sends), receiving⟩
  | received msg blocks sent received queue grants retries =>
      rcases blocks with ⟨thread, priority, rfl⟩
      exact ⟨sending.grants grants, receiving.retries retries once own (unlisted.receivers rfl)⟩
  | unwoken msg nonblocking sent received queue added retries =>
      rcases nonblocking with ⟨caller, rfl⟩
      rw [added]
      exact ⟨sending, receiving.retries retries once own (unlisted.receivers rfl)⟩
  | unreceived receives sent received queue empty same retries =>
      rw [same]
      exact ⟨sending, receiving.retries retries once own (unlisted.receivers receives)⟩

theorem queueSound_init (sched : QxkScheduler) :
    QueueSound capacity (QueueRun.init capacity sched : QueueRun τ) where
  limit := rfl
  order := rfl
  bounded := Nat.zero_le _
  receivers := by
    intro listed
    exact Nat.zero_le _

end Runs

/-- While no thread blocks on a side of the queue it already waits on, the wake-ups of a side are of
different threads. -/
theorem woken_nodup {capacity : Nat} {sched : QxkScheduler} {calls : List (QueueCall τ)}
    {r : QueueRun τ} (unlisted : Lib.Along QueueRun.step Unlisted (.init capacity sched) calls)
    (ran : Lib.run QueueRun.step (.init capacity sched) calls = some r) :
    r.wokenSenders.Nodup ∧ r.wokenReceivers.Nodup := by
  have both : QueueSound capacity r ∧ r.sendSide.Single ∧ r.receiveSide.Single := by
    apply Lib.along_preserves _ _ unlisted ran
    · intro r c r' both good stepped
      rw [← Option.some.inj stepped]
      exact ⟨both.1.call c, single_call both.1 c good both.2⟩
    · exact ⟨queueSound_init sched, List.nodup_nil, List.nodup_nil⟩
  exact ⟨(List.nodup_append.mp both.2.1).1, (List.nodup_append.mp both.2.2).1⟩

theorem senders_covered {capacity : Nat} {sched : QxkScheduler} {calls : List (QueueCall τ)}
    {r : QueueRun τ} (wakeful : Lib.Along QueueRun.step Wakeful (.init capacity sched) calls)
    (ran : Lib.run QueueRun.step (.init capacity sched) calls = some r) :
    QueueSound capacity r ∧ r.sendSide.Covered := by
  apply Lib.along_preserves _ _ wakeful ran
  · intro r c r' both good stepped
    rw [← Option.some.inj stepped]
    exact ⟨both.1.call c, (senders_call_iff both.1 both.2 c).mpr good⟩
  · refine ⟨queueSound_init sched, ?_⟩
    intro nobody
    exact absurd rfl nobody

/-- The messages received are in the order sent, at most `N` are queued, and a failed call leaves
them as they are. If no thread blocks on a side it already waits on, the queued messages are covered
by the threads woken while receivers wait, and so are the free slots while senders wait if the
`try_receive` calls leave a wake-up for the slot. -/
theorem queue_accounting (capacity : Nat) (sched : QxkScheduler) (calls : List (QueueCall τ))
    (r : QueueRun τ) (ran : Lib.run QueueRun.step (.init capacity sched) calls = some r) :
    r.sent = r.received ++ r.queue.queue ∧
    r.queue.queue.length ≤ capacity ∧
    (∀ c, (r.call c).1.isOk = false →
      (r.call c).2.queue.queue = r.queue.queue ∧ (r.call c).2.sent = r.sent ∧
        (r.call c).2.received = r.received) ∧
    (Lib.Along QueueRun.step Unlisted (.init capacity sched) calls →
      (r.queue.waitingReceivers ≠ [] →
        r.queue.queue.length ≤ r.wokenReceivers.toFinset.card) ∧
      (Lib.Along QueueRun.step Wakeful (.init capacity sched) calls →
        r.queue.waitingSenders ≠ [] →
          capacity - r.queue.queue.length ≤ r.wokenSenders.toFinset.card)) := by
  have sound : QueueSound capacity r := by
    apply Lib.run_preserves _ (queueSound_init sched) ran
    intro r c r' sound stepped
    rw [← Option.some.inj stepped]
    exact sound.call c
  refine ⟨sound.order, sound.bounded, fun c => call_fails sound c, fun unlisted => ?_⟩
  obtain ⟨senders, receivers⟩ := woken_nodup unlisted ran
  rw [List.toFinset_card_of_nodup senders, List.toFinset_card_of_nodup receivers]
  constructor
  · intro listed
    apply sound.receivers
    simpa [QueueRun.receiveSide, ids] using listed
  · intro wakeful listed
    have covered := (senders_covered wakeful ran).2
      (by simpa [QueueRun.sendSide, ids] using listed)
    simpa only [QueueRun.sendSide, sound.limit] using covered

/-- A queue of one slot: thread 1 sends, thread 2 blocks on a second message. -/
def fullQueue : List (QueueCall Nat) := [.send 7 ⟨1⟩ 3, .send 8 ⟨2⟩ 4]

/-- A queue of two slots: three senders block, two of them are woken, a message that an interrupt
sends takes one of their slots, and `try_receive` frees it again. -/
def wakingQueue : List (QueueCall Nat) :=
  [.send 7 ⟨1⟩ 3, .send 8 ⟨1⟩ 3, .send 9 ⟨2⟩ 4, .send 10 ⟨4⟩ 6, .send 11 ⟨5⟩ 2, .receive ⟨3⟩ 5,
    .receive ⟨3⟩ 5, .trySend 12 none, .tryReceive none]

theorem wakingQueue_accounting :
    ∃ r : QueueRun Nat,
      Lib.run QueueRun.step (.init 2 .new) wakingQueue = some r ∧
      ids r.queue.waitingSenders = [⟨5⟩] ∧ r.wokenSenders = [⟨4⟩, ⟨2⟩] ∧
      r.received = [7, 8, 12] ∧ r.sent = r.received ++ r.queue.queue ∧
      2 - r.queue.queue.length ≤ r.wokenSenders.toFinset.card := by
  have wakeful : Lib.Along QueueRun.step Wakeful (.init 2 .new) wakingQueue := by decide
  have unlisted : Lib.Along QueueRun.step Unlisted (.init 2 .new) wakingQueue := by decide
  have accounted := queue_accounting 2 .new wakingQueue _ rfl
  exact ⟨_, rfl, rfl, rfl, rfl, accounted.1,
    (accounted.2.2.2 unlisted).2 wakeful (by decide)⟩

/-- `try_receive` frees the slot, thread 2 stays on the list and nobody was woken. -/
theorem tryReceive_strands_sender :
    ∃ r : QueueRun Nat,
      Lib.run QueueRun.step (.init 1 .new) (fullQueue ++ [.tryReceive (some ⟨3⟩)]) = some r ∧
      ids r.queue.waitingSenders = [⟨2⟩] ∧ 1 - r.queue.queue.length = 1 ∧ r.wokenSenders = [] := by
  exact ⟨_, rfl, rfl, rfl, rfl⟩

end QpRs.Qxk
