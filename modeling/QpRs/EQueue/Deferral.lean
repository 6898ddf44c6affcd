import Mathlib.Data.List.Basic
import QpRs.Active
import QpRs.EQueue.QEQueue
import QpRs.Lib.Run

/-! Deferred events (`qf/src/equeue.rs`): an active object puts events aside in a queue of its own
and takes them back later. Dynamic build. -/

namespace QpRs

open Lib
open Pool (Fault)

variable {π : Type}

namespace QEQueue

def defer (eq : QEQueue π false) (event : DynEvent π) : Except Fault (Bool × QEQueue π false) :=
  eq.post event 0

/-- `recall` -/
def recallDeferred (queue : EventQueue π) (eq : QEQueue π false) :
    Bool × EventQueue π × QEQueue π false :=
  match eq.get with
  | (some event, eq) => (true, queue.pushFront event, eq)
  | (none, eq) => (false, queue, eq)

def flushDeferred (eq : QEQueue π false) : Nat → Nat × QEQueue π false
  | 0 => (0, eq)
  | num + 1 =>
    match eq.get with
    | (none, eq) => (0, eq)
    | (some _, eq) => ((flushDeferred eq num).1 + 1, (flushDeferred eq num).2)

variable {eq : QEQueue π false}

theorem updateWatermark_buffer (q : QEQueue π false) :
    q.updateWatermark.buffer = q.buffer ∧ q.updateWatermark.capacity = q.capacity := by
  rw [QEQueueInner.updateWatermark]
  split <;> exact ⟨rfl, rfl⟩

theorem defer_room (event : DynEvent π) (room : eq.buffer.items.length < eq.capacity) :
    ∃ t, defer eq event = .ok (true, t) ∧ t.buffer.items = eq.buffer.items ++ [event] ∧
      t.capacity = eq.capacity := by
  have free : 0 < eq.free := Nat.sub_pos_of_lt room
  obtain ⟨buffer, pushed, items⟩ := Deque.pushBack_room (d := eq.buffer) (x := event) nofun
  obtain ⟨same, capacity⟩ := updateWatermark_buffer { eq with buffer := buffer }
  refine ⟨({ eq with buffer := buffer } : QEQueue π false).updateWatermark, ?_, ?_, capacity⟩
  · rw [defer, QEQueueInner.post, if_pos free, QEQueueInner.pushBack, pushed]
    rfl
  · rw [same]
    exact items

theorem defer_full (event : DynEvent π) (full : eq.capacity ≤ eq.buffer.items.length) :
    defer eq event = .ok (false, eq) := by
  have none_free : ¬0 < eq.free := Nat.not_lt.mpr (Nat.sub_eq_zero_of_le full).le
  rw [defer, QEQueueInner.post, if_neg none_free]

theorem flushDeferred_eq (num : Nat) (eq : QEQueue π false) :
    (flushDeferred eq num).2.buffer.items = eq.buffer.items.drop (flushDeferred eq num).1 ∧
      (flushDeferred eq num).2.capacity = eq.capacity := by
  induction num generalizing eq with
  | zero => exact ⟨rfl, rfl⟩
  | succ num ih =>
      cases items : eq.buffer.items with
      | nil =>
          have none_left : eq.get.1 = none := congrArg List.head? items
          have empty : flushDeferred eq (num + 1) = (0, eq.get.2) := by
            rw [flushDeferred, ← Prod.mk.eta (p := eq.get), none_left]
          rw [empty]
          exact ⟨congrArg List.tail items, rfl⟩
      | cons e rest =>
          have one : eq.get.1 = some e := congrArg List.head? items
          have later : flushDeferred eq (num + 1) =
              ((flushDeferred eq.get.2 num).1 + 1, (flushDeferred eq.get.2 num).2) := by
            rw [flushDeferred, ← Prod.mk.eta (p := eq.get), one]
          have left : eq.get.2.buffer.items = rest := congrArg List.tail items
          obtain ⟨dropped, capacity⟩ := ih eq.get.2
          rw [later, List.drop_succ_cons, ← left]
          exact ⟨dropped, capacity⟩

end QEQueue

/-- What became of an event. -/
inductive Happened (π : Type) where
  | posted (event : DynEvent π)
  | jumped (event : DynEvent π)
  | handled (event : DynEvent π)
  | deferred (event : DynEvent π)
  | refused (event : DynEvent π)
  | recalled (event : DynEvent π)
  | flushed (events : List (DynEvent π))

namespace Happened

def arrived : Happened π → List (DynEvent π)
  | .posted e | .jumped e | .recalled e => [e]
  | _ => []

def taken : Happened π → List (DynEvent π)
  | .handled e => [e]
  | _ => []

def accepted : Happened π → List (DynEvent π)
  | .deferred e => [e]
  | _ => []

/-- The deferred events that were taken back or dropped. -/
def removed : Happened π → List (DynEvent π)
  | .recalled e => [e]
  | .flushed es => es
  | _ => []

/-- Nothing leaves the front of the queue of the active object, or is put there. -/
def Quiet : Happened π → Prop
  | .handled _ | .jumped _ | .recalled _ => False
  | _ => True

end Happened

inductive DeferCall (π : Type) where
  | post (event : DynEvent π)
  | postLifo (event : DynEvent π)
  | dispatchOne
  | defer (event : DynEvent π)
  | recallDeferred
  | flushDeferred (num : Nat)

/-- An active object with a queue for deferred events, and what has happened so far. -/
structure Deferring (π : Type) where
  queue : EventQueue π
  deferred : QEQueue π false
  log : List (Happened π)

namespace Deferring

def start (π : Type) (capacity : Nat) : Except Fault (Deferring π) :=
  (QEQueue.new capacity).map fun eq => ⟨.new, eq, []⟩

def step (s : Deferring π) : DeferCall π → Option (Deferring π)
  | .post e => some { s with queue := s.queue.pushBack e, log := s.log ++ [.posted e] }
  | .postLifo e => some { s with queue := s.queue.pushFront e, log := s.log ++ [.jumped e] }
  | .dispatchOne =>
    match s.queue.popFront with
    | (some e, queue) => some { s with queue := queue, log := s.log ++ [.handled e] }
    | (none, queue) => some { s with queue := queue }
  | .defer e =>
    match QEQueue.defer s.deferred e with
    | .ok (true, eq) => some { s with deferred := eq, log := s.log ++ [.deferred e] }
    | .ok (false, eq) => some { s with deferred := eq, log := s.log ++ [.refused e] }
    | .error _ => none
  | .recallDeferred =>
    let (_, queue, eq) := QEQueue.recallDeferred s.queue s.deferred
    some ⟨queue, eq, s.log ++ (s.deferred.get.1.map .recalled).toList⟩
  | .flushDeferred num =>
    let (count, eq) := QEQueue.flushDeferred s.deferred num
    some { s with
      deferred := eq
      log := s.log ++ [.flushed (s.deferred.buffer.items.take count)] }

/-- An event is refused when the queue is full of those that are still to be taken back. -/
def FullRefusals (capacity : Nat) (log : List (Happened π)) : Prop :=
  ∀ before e after, log = before ++ .refused e :: after →
    (before.flatMap Happened.accepted).length =
      (before.flatMap Happened.removed).length + capacity

/-- The event that is taken back is the next one that is handled, unless another one is put before
it. -/
def RecalledNext (log : List (Happened π)) : Prop :=
  ∀ before e between d after, log = (before ++ .recalled e :: between) ++ .handled d :: after →
    (∀ x ∈ between, x.Quiet) → d = e

/-- An event that was taken back, and that nothing was put before, is at the front. -/
def Ahead (log : List (Happened π)) (buf : List (DynEvent π)) : Prop :=
  ∀ before e between, log = before ++ .recalled e :: between → (∀ x ∈ between, x.Quiet) →
    buf.head? = some e

theorem split_push {α : Type} {log before after : List α} {x y : α}
    (split : log ++ [x] = before ++ y :: after) :
    log = before ∧ x = y ∧ after = [] ∨
      ∃ earlier, after = earlier ++ [x] ∧ log = before ++ y :: earlier := by
  rcases List.eq_nil_or_concat after with rfl | ⟨earlier, z, rfl⟩
  · obtain ⟨same, last⟩ := List.append_inj' split rfl
    exact .inl ⟨same, (List.cons.inj last).1, rfl⟩
  · rw [List.concat_eq_append, ← List.cons_append, ← List.append_assoc] at split
    obtain ⟨same, last⟩ := List.append_inj' split rfl
    obtain rfl := (List.cons.inj last).1
    exact .inr ⟨earlier, List.concat_eq_append, same⟩

variable {capacity : Nat} {log : List (Happened π)} {buf buf' : List (DynEvent π)}

theorem FullRefusals.push (here : FullRefusals capacity log) {x : Happened π}
    (full : ∀ e, x = .refused e → (log.flatMap Happened.accepted).length =
      (log.flatMap Happened.removed).length + capacity) : FullRefusals capacity (log ++ [x]) := by
  intro before e after split
  rcases split_push split with ⟨rfl, last, _⟩ | ⟨earlier, _, same⟩
  · exact full e last
  · exact here before e earlier same

theorem RecalledNext.push (here : RecalledNext log) {x : Happened π} (ahead : Ahead log buf)
    (first : ∀ d, x = .handled d → buf.head? = some d) : RecalledNext (log ++ [x]) := by
  intro before e between d after split quiet
  rcases split_push split with ⟨same, last, _⟩ | ⟨earlier, _, same⟩
  · have front := ahead before e between same quiet
    rw [first d last] at front
    exact Option.some.inj front
  · exact here before e between d earlier same quiet

theorem Ahead.push (here : Ahead log buf) {x : Happened π}
    (quiet : x.Quiet → ∀ e, buf.head? = some e → buf'.head? = some e)
    (front : ∀ e, x = .recalled e → buf'.head? = some e) : Ahead (log ++ [x]) buf' := by
  intro before e between split still
  rcases split_push split with ⟨_, last, _⟩ | ⟨earlier, rfl, same⟩
  · exact front e last
  · apply quiet (still x (by simp))
    apply here before e earlier same
    intro y mem
    exact still y (List.mem_append_left [x] mem)

structure Kept (capacity : Nat) (s : Deferring π) : Prop where
  size : s.deferred.capacity = capacity
  fits : s.deferred.buffer.items.length ≤ capacity
  fifo : s.log.flatMap Happened.accepted =
    s.log.flatMap Happened.removed ++ s.deferred.buffer.items
  all : (s.log.flatMap Happened.arrived).Perm (s.log.flatMap Happened.taken ++ s.queue.buf)
  refusals : FullRefusals capacity s.log
  next : RecalledNext s.log
  ahead : Ahead s.log s.queue.buf

variable {s t : Deferring π}

theorem perm_arrives {arrived taken : List (DynEvent π)} (all : arrived.Perm (taken ++ buf))
    {e : DynEvent π} (more : buf'.Perm (e :: buf)) : (arrived ++ [e]).Perm (taken ++ buf') := by
  have came : (arrived ++ [e]).Perm (e :: (taken ++ buf)) :=
    (List.perm_append_singleton e arrived).trans (all.cons e)
  exact came.trans (List.perm_middle.symm.trans (more.symm.append_left taken))

theorem Kept.post (here : Kept capacity s) (e : DynEvent π) :
    Kept capacity { s with queue := s.queue.pushBack e, log := s.log ++ [.posted e] } where
  size := here.size
  fits := here.fits
  fifo := by simpa [Happened.accepted, Happened.removed] using here.fifo
  all := by
    rw [List.flatMap_append, List.flatMap_append, EventQueue.buf_pushBack]
    change (_ ++ [e]).Perm (_ ++ [] ++ _)
    rw [List.append_nil]
    exact perm_arrives here.all (List.perm_append_singleton e _)
  refusals := here.refusals.push nofun
  next := here.next.push here.ahead nofun
  ahead := by
    refine here.ahead.push ?_ nofun
    intro _ first front
    rw [EventQueue.buf_pushBack, List.head?_append, front]
    rfl

theorem Kept.postLifo (here : Kept capacity s) (e : DynEvent π) :
    Kept capacity { s with queue := s.queue.pushFront e, log := s.log ++ [.jumped e] } where
  size := here.size
  fits := here.fits
  fifo := by simpa [Happened.accepted, Happened.removed] using here.fifo
  all := by
    rw [List.flatMap_append, List.flatMap_append, EventQueue.buf_pushFront]
    change (_ ++ [e]).Perm (_ ++ [] ++ _)
    rw [List.append_nil]
    exact perm_arrives here.all (List.Perm.refl _)
  refusals := here.refusals.push nofun
  next := here.next.push here.ahead nofun
  ahead := here.ahead.push (fun quiet => quiet.elim) nofun

theorem Kept.dispatchOne (here : Kept capacity s) {e : DynEvent π} {rest : List (DynEvent π)}
    (queued : s.queue.buf = e :: rest) :
    Kept capacity { s with
      queue := { s.queue with buf := rest }, log := s.log ++ [.handled e] } where
  size := here.size
  fits := here.fits
  fifo := by simpa [Happened.accepted, Happened.removed] using here.fifo
  all := by
    have all := here.all
    rw [queued] at all
    rw [List.flatMap_append, List.flatMap_append]
    change (_ ++ []).Perm (_ ++ [e] ++ rest)
    rw [List.append_nil, List.append_assoc]
    exact all
  refusals := here.refusals.push nofun
  next := by
    apply here.next.push here.ahead
    intro d same
    cases same
    rw [queued]
    rfl
  ahead := here.ahead.push (fun quiet => quiet.elim) nofun

theorem Kept.apart (here : Kept capacity s) {eq : QEQueue π false} {x : Happened π}
    (size : eq.capacity = capacity) (fits : eq.buffer.items.length ≤ capacity)
    (fifo : s.log.flatMap Happened.accepted ++ x.accepted =
      s.log.flatMap Happened.removed ++ x.removed ++ eq.buffer.items)
    (elsewhere : x.arrived = [] ∧ x.taken = [])
    (full : ∀ e, x = .refused e → (s.log.flatMap Happened.accepted).length =
      (s.log.flatMap Happened.removed).length + capacity) :
    Kept capacity { s with deferred := eq, log := s.log ++ [x] } where
  size := size
  fits := fits
  fifo := by
    rw [List.flatMap_append, List.flatMap_append, List.flatMap_singleton, List.flatMap_singleton]
    exact fifo
  all := by
    rw [List.flatMap_append, List.flatMap_append, List.flatMap_singleton, List.flatMap_singleton,
      elsewhere.1, elsewhere.2, List.append_nil, List.append_nil]
    exact here.all
  refusals := here.refusals.push full
  next := by
    apply here.next.push here.ahead
    intro d same
    rw [same] at elsewhere
    exact absurd elsewhere.2 (List.cons_ne_nil d [])
  ahead := by
    apply here.ahead.push
    · intro _ e front
      exact front
    · intro e same
      rw [same] at elsewhere
      exact absurd elsewhere.1 (List.cons_ne_nil e [])

theorem Kept.defer (here : Kept capacity s) (e : DynEvent π) :
    ∃ t, step s (.defer e) = some t ∧ Kept capacity t := by
  by_cases room : s.deferred.buffer.items.length < s.deferred.capacity
  · obtain ⟨eq, deferred, items, size⟩ := QEQueue.defer_room e room
    refine ⟨{ s with deferred := eq, log := s.log ++ [.deferred e] }, ?_, ?_⟩
    · simp only [step, deferred]
    · apply here.apart (size.trans here.size) _ _ ⟨rfl, rfl⟩
      · intro _ other
        cases other
      · rw [items, List.length_append, List.length_singleton, ← here.size]
        exact room
      · change _ ++ [e] = _ ++ [] ++ _
        rw [here.fifo, items, List.append_nil, List.append_assoc]
  · have full := Nat.le_of_not_lt room
    refine ⟨{ s with log := s.log ++ [.refused e] }, ?_, ?_⟩
    · simp only [step, QEQueue.defer_full e full]
    · apply here.apart here.size here.fits _ ⟨rfl, rfl⟩
      · intro _ _
        rw [here.size] at full
        have count := congrArg List.length here.fifo
        rw [List.length_append, Nat.le_antisymm here.fits full] at count
        exact count
      · change _ ++ [] = _ ++ [] ++ _
        rw [List.append_nil, List.append_nil]
        exact here.fifo

theorem Kept.recallDeferred (here : Kept capacity s) :
    ∃ t, step s .recallDeferred = some t ∧ Kept capacity t := by
  have left : s.deferred.get.2.buffer.items = s.deferred.buffer.items.tail := rfl
  cases items : s.deferred.buffer.items with
  | nil =>
      have none_left : s.deferred.get.1 = none := congrArg List.head? items
      have stays : QEQueue.recallDeferred s.queue s.deferred =
          (false, s.queue, s.deferred.get.2) := by
        rw [QEQueue.recallDeferred, ← Prod.mk.eta (p := s.deferred.get), none_left]
      rw [items] at left
      refine ⟨{ s with deferred := s.deferred.get.2 }, ?_, { here with
        fits := left ▸ Nat.zero_le capacity
        fifo := ?_ }⟩
      · simp only [step, stays, none_left, Option.map_none, Option.toList_none, List.append_nil]
      · have fifo := here.fifo
        rw [items] at fifo
        exact fifo.trans (congrArg _ left.symm)
  | cons e rest =>
      have one : s.deferred.get.1 = some e := congrArg List.head? items
      have moves : QEQueue.recallDeferred s.queue s.deferred =
          (true, s.queue.pushFront e, s.deferred.get.2) := by
        rw [QEQueue.recallDeferred, ← Prod.mk.eta (p := s.deferred.get), one]
      have fits := here.fits
      rw [items] at left fits
      refine ⟨⟨s.queue.pushFront e, s.deferred.get.2, s.log ++ [.recalled e]⟩, ?_, ?_⟩
      · simp only [step, moves, one]
        rfl
      · constructor
        case size => exact here.size
        case fits =>
          rw [left]
          exact Nat.le_of_succ_le fits
        case fifo =>
          rw [left, List.flatMap_append, List.flatMap_append]
          change _ ++ [] = _ ++ [e] ++ rest
          rw [List.append_nil, here.fifo, items, List.append_assoc]
          rfl
        case all =>
          rw [List.flatMap_append, List.flatMap_append, EventQueue.buf_pushFront]
          change (_ ++ [e]).Perm (_ ++ [] ++ _)
          rw [List.append_nil]
          exact perm_arrives here.all (List.Perm.refl _)
        case refusals => exact here.refusals.push nofun
        case next => exact here.next.push here.ahead nofun
        case ahead =>
          apply here.ahead.push
          · exact fun quiet => quiet.elim
          · intro d same
            cases same
            rw [EventQueue.buf_pushFront]
            rfl

theorem Kept.flushDeferred (here : Kept capacity s) (num : Nat) :
    ∃ t, step s (.flushDeferred num) = some t ∧ Kept capacity t := by
  obtain ⟨left, size⟩ := QEQueue.flushDeferred_eq num s.deferred
  refine ⟨_, rfl, ?_⟩
  apply here.apart (size.trans here.size) _ _ ⟨rfl, rfl⟩
  · intro _ other
    cases other
  · rw [left, List.length_drop]
    exact (Nat.sub_le _ _).trans here.fits
  · rw [left]
    change _ ++ [] = _ ++ s.deferred.buffer.items.take _ ++ _
    rw [List.append_nil, List.append_assoc, List.take_append_drop]
    exact here.fifo

theorem Kept.step (here : Kept capacity s) (call : DeferCall π) :
    ∃ t, step s call = some t ∧ Kept capacity t := by
  cases call with
  | post e => exact ⟨_, rfl, here.post e⟩
  | postLifo e => exact ⟨_, rfl, here.postLifo e⟩
  | dispatchOne =>
      cases queued : s.queue.buf with
      | nil =>
          refine ⟨s, ?_, here⟩
          simp only [Deferring.step, EventQueue.popFront, queued]
      | cons e rest =>
          refine ⟨_, ?_, here.dispatchOne queued⟩
          simp only [Deferring.step, EventQueue.popFront, queued]
  | defer e => exact here.defer e
  | recallDeferred => exact here.recallDeferred
  | flushDeferred num => exact here.flushDeferred num

theorem start_kept (π : Type) (capacity : Nat) :
    ∃ s, start π capacity = .ok s ∧ Kept capacity s := by
  refine ⟨⟨.new, ⟨.new, capacity, capacity, min 0 capacity, 0⟩, []⟩, rfl, ?_⟩
  constructor
  case size => rfl
  case fits => exact Nat.zero_le capacity
  case fifo => rfl
  case all => exact List.Perm.refl []
  case refusals =>
    intro before e after split
    exact absurd split.symm (List.append_ne_nil_of_right_ne_nil before (List.cons_ne_nil _ after))
  case next =>
    intro before e between d after split
    exact absurd split.symm (List.append_ne_nil_of_right_ne_nil _ (List.cons_ne_nil _ after))
  case ahead =>
    intro before e between split
    exact absurd split.symm (List.append_ne_nil_of_right_ne_nil before (List.cons_ne_nil _ between))

/-- No event is lost on the way: the events put aside are taken back or dropped in the order in
which they came, those that are taken back are handled next, and only a full queue refuses one. -/
theorem deferral_accounted {π : Type} (capacity : Nat) (calls : List (DeferCall π)) :
    ∃ s last, start π capacity = .ok s ∧ run step s calls = some last ∧
      last.log.flatMap Happened.accepted =
        last.log.flatMap Happened.removed ++ last.deferred.buffer.items ∧
      (last.log.flatMap Happened.arrived).Perm
        (last.log.flatMap Happened.taken ++ last.queue.buf) ∧
      FullRefusals capacity last.log ∧ RecalledNext last.log := by
  obtain ⟨s, started, kept⟩ := start_kept π capacity
  have goes (calls : List (DeferCall π)) :
      ∀ s, Kept capacity s → ∃ last, run step s calls = some last ∧ Kept capacity last := by
    induction calls with
    | nil => exact fun s here => ⟨s, rfl, here⟩
    | cons call rest ih =>
        intro s here
        obtain ⟨t, stepped, next⟩ := here.step call
        obtain ⟨last, ran, kept⟩ := ih t next
        refine ⟨last, ?_, kept⟩
        rw [run, stepped]
        exact ran
  obtain ⟨last, ran, here⟩ := goes calls s kept
  exact ⟨s, last, started, ran, here.fifo, here.all, here.refusals, here.next⟩

end Deferring

end QpRs
