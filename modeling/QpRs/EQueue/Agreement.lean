import QpRs.EQueue.QEQueue

/-! The three event queues answer as one bounded queue. -/

namespace QpRs

open Lib
open Pool (Build Fault)

namespace QEQueueInner

variable {π : Type} {bound : Option Nat} {N : Nat} {q : QEQueueInner π bound}
  {m : ReservedQueue π N} {b : Build} {event : DynEvent π} {clamped : Prop}

/-- A margin beyond the capacity counts as the whole capacity, and is not kept when `clamped`. -/
structure Represents (clamped : Prop) (q : QEQueueInner π bound) (m : ReservedQueue π N) :
    Prop where
  items : q.buffer.items = m.queue.items
  capacity : q.capacity = N
  least : q.minFree = m.queue.leastFree
  margin : min q.safetyMargin N = m.margin
  kept : clamped → q.safetyMargin ≤ N
  shed : q.shedCount = m.shed
  watched : m.queue.Watched

namespace Represents

theorem free (rep : q.Represents clamped m) : q.free = m.queue.free := by
  rw [QEQueueInner.free, BoundedQueue.free, Deque.len, rep.items, rep.capacity]

theorem reserved_iff (rep : q.Represents clamped m) :
    q.safetyMargin < q.free ↔ m.margin < q.free := by
  have within : q.free ≤ N := by
    rw [rep.free]
    exact Nat.sub_le _ _
  have margin := rep.margin
  omega

theorem refill (rep : q.Represents clamped m) (buffer : Deque (DynEvent π) bound)
    (fits : buffer.items.length ≤ N) :
    ({ q with buffer := buffer }).updateWatermark.Represents clamped
      { m with queue := m.queue.change buffer.items fits } := by
  have free : ({ q with buffer := buffer } : QEQueueInner π bound).free =
      N - buffer.items.length := by
    simp only [QEQueueInner.free, Deque.len, rep.capacity]
  have least := rep.least
  by_cases lower : ({ q with buffer := buffer } : QEQueueInner π bound).free < q.minFree
  · rw [updateWatermark, if_pos lower]
    have lowest : N - buffer.items.length = min (N - buffer.items.length) m.queue.leastFree := by
      omega
    exact ⟨rfl, rep.capacity, free.trans lowest, rep.margin, rep.kept, rep.shed,
      rep.watched.change fits⟩
  · rw [updateWatermark, if_neg lower]
    have lowest : q.minFree = min (N - buffer.items.length) m.queue.leastFree := by
      omega
    exact ⟨rfl, rep.capacity, lowest, rep.margin, rep.kept, rep.shed, rep.watched.change fits⟩

theorem room (rep : q.Represents clamped m) (large : ∀ limit ∈ bound, N ≤ limit)
    (some_free : m.queue.items.length < N) : q.buffer.Room := by
  intro limit is
  rw [rep.items]
  exact Nat.lt_of_lt_of_le some_free (large limit is)

theorem pushBack (rep : q.Represents clamped m) (large : ∀ limit ∈ bound, N ≤ limit)
    (fits : (m.queue.items ++ [event]).length ≤ N) :
    ∃ t, q.pushBack event = .ok t ∧
      t.updateWatermark.Represents clamped { m with queue := m.queue.change _ fits } := by
  have some_free : m.queue.items.length < N := by
    rw [List.length_append] at fits
    exact fits
  obtain ⟨buffer, pushed, items⟩ := Deque.pushBack_room (x := event) (rep.room large some_free)
  rw [rep.items] at items
  refine ⟨{ q with buffer := buffer }, by rw [QEQueueInner.pushBack, pushed], ?_⟩
  have refilled := rep.refill buffer (items ▸ fits)
  simpa only [items] using refilled

theorem pushFront (rep : q.Represents clamped m) (large : ∀ limit ∈ bound, N ≤ limit)
    (event : DynEvent π) (fits : (event :: m.queue.items).length ≤ N) :
    ∃ t, q.pushFront event = .ok t ∧
      t.updateWatermark.Represents clamped { m with queue := m.queue.change _ fits } := by
  obtain ⟨buffer, pushed, items⟩ := Deque.pushFront_room (x := event) (rep.room large fits)
  rw [rep.items] at items
  refine ⟨{ q with buffer := buffer }, by rw [QEQueueInner.pushFront, pushed], ?_⟩
  have refilled := rep.refill buffer (items ▸ fits)
  simpa only [items] using refilled

theorem post (rep : q.Represents clamped m) (large : ∀ limit ∈ bound, N ≤ limit)
    (event : DynEvent π) (margin : Nat) :
    ∃ t, q.post event margin = .ok ((m.post event margin).1, t) ∧
      t.Represents clamped (m.post event margin).2 := by
  have free := rep.free
  by_cases enough : margin < q.free
  · have fits : (m.queue.items ++ [event]).length ≤ N := by
      rw [free, BoundedQueue.free] at enough
      rw [List.length_append, List.length_singleton]
      omega
    obtain ⟨t, pushed, after⟩ := rep.pushBack large fits
    refine ⟨t.updateWatermark, ?_, ?_⟩
    · simp [QEQueueInner.post, enough, pushed, ReservedQueue.post, BoundedQueue.postBack, ← free]
    · simpa [ReservedQueue.post, BoundedQueue.postBack, ← free, enough] using after
  · refine ⟨q, ?_, ?_⟩
    · simp [QEQueueInner.post, enough, ReservedQueue.post, BoundedQueue.postBack, ← free]
    · simpa [ReservedQueue.post, BoundedQueue.postBack, ← free, enough] using rep

theorem postLifo (rep : q.Represents clamped m) (large : ∀ limit ∈ bound, N ≤ limit)
    (event : DynEvent π) :
    ∃ t, q.postLifo event = .ok ((m.postLifo event).1, t) ∧
      t.Represents clamped (m.postLifo event).2 := by
  have len : q.buffer.len = m.queue.items.length := congrArg List.length rep.items
  have capacity := rep.capacity
  by_cases enough : m.queue.items.length < N
  · obtain ⟨t, pushed, after⟩ := rep.pushFront large event enough
    refine ⟨t.updateWatermark, ?_, ?_⟩
    · simp [QEQueueInner.postLifo, len, capacity, enough, pushed, ReservedQueue.postLifo,
        BoundedQueue.postFront]
    · simpa [ReservedQueue.postLifo, BoundedQueue.postFront, enough] using after
  · refine ⟨q, ?_, ?_⟩
    · simp [QEQueueInner.postLifo, len, capacity, enough, ReservedQueue.postLifo,
        BoundedQueue.postFront]
    · simpa [ReservedQueue.postLifo, BoundedQueue.postFront, enough] using rep

theorem degraded_iff (rep : q.Represents clamped m) :
    q.free ≤ q.safetyMargin ↔ m.queue.free ≤ m.margin := by
  have reserved := rep.reserved_iff
  rw [rep.free] at reserved ⊢
  omega

theorem postNormal (rep : q.Represents clamped m) (large : ∀ limit ∈ bound, N ≤ limit)
    (event : DynEvent π) :
    Agree (fun x y => x.1 = y.1 ∧ x.2.Represents clamped y.2) (q.postNormal b event)
      (m.postNormal b event) := by
  have reserved := rep.reserved_iff
  have free := rep.free
  by_cases enough : m.margin < m.queue.free
  · have fits : (m.queue.items ++ [event]).length ≤ N := by
      rw [BoundedQueue.free] at enough
      rw [List.length_append, List.length_singleton]
      omega
    obtain ⟨t, pushed, after⟩ := rep.pushBack large fits
    have left : q.postNormal b event = .ok (if t.updateWatermark.free ≤
        t.updateWatermark.safetyMargin then .acceptedDegraded else .accepted,
          t.updateWatermark) := by
      have open_ : q.safetyMargin < q.free := reserved.mpr (free ▸ enough)
      simp only [QEQueueInner.postNormal, if_pos open_, pushed, ok_bind]
    have right : m.postNormal b event = .ok (if (m.queue.change _ fits).free ≤ m.margin then
        .acceptedDegraded else .accepted, { m with queue := m.queue.change _ fits }) := by
      simp [ReservedQueue.postNormal, ReservedQueue.post, BoundedQueue.postBack, enough]
    rw [left, right]
    refine Agree.ok ⟨?_, after⟩
    exact if_congr after.degraded_iff rfl rfl
  · have left : q.postNormal b event = (b.add q.shedCount 1).map fun shed =>
        (.shed, { q with shedCount := shed }) := by
      have closed : ¬q.safetyMargin < q.free := fun open_ => enough (free ▸ reserved.mp open_)
      rw [QEQueueInner.postNormal, if_neg closed]
      rfl
    have right : m.postNormal b event = (b.add m.shed 1).map fun shed =>
        (.shed, { m with shed := shed }) := by
      simp [ReservedQueue.postNormal, ReservedQueue.post, BoundedQueue.postBack, enough]
    rw [left, right, rep.shed]
    cases b.add m.shed 1 with
    | error fault => exact rfl
    | ok shed => exact Agree.ok ⟨rfl, rep.items, rep.capacity, rep.least, rep.margin, rep.kept, rfl,
        rep.watched⟩

theorem take (rep : q.Represents clamped m) :
    q.get.1 = m.queue.take.1 ∧
      q.get.2.Represents clamped { m with queue := m.queue.take.2 } := by
  have items := rep.items
  have fits : m.queue.items.tail.length ≤ N := by
    have fits := m.queue.fits
    rw [List.length_tail]
    omega
  have least : q.minFree = min (N - m.queue.items.tail.length) m.queue.leastFree := by
    have lowest := rep.watched.leastFree_le
    rw [BoundedQueue.free] at lowest
    rw [rep.least, List.length_tail]
    omega
  exact ⟨congrArg List.head? items, congrArg List.tail items, rep.capacity, least, rep.margin,
    rep.kept, rep.shed, rep.watched.change fits⟩

theorem setSafetyMargin (rep : q.Represents clamped m) (margin : Nat) :
    (q.setSafetyMargin margin).Represents True { m with margin := min margin N } where
  items := rep.items
  capacity := rep.capacity
  least := rep.least
  margin := by
    show min (min margin q.capacity) N = min margin N
    rw [rep.capacity, Nat.min_assoc, Nat.min_self]
  kept _ := by
    show min margin q.capacity ≤ N
    rw [rep.capacity]
    exact Nat.min_le_right _ _
  shed := rep.shed
  watched := rep.watched

theorem weaken (rep : q.Represents clamped m) {less : Prop} (implied : less → clamped) :
    q.Represents less m :=
  { rep with kept := fun known => rep.kept (implied known) }

theorem call (rep : q.Represents clamped m) (large : ∀ limit ∈ bound, N ≤ limit)
    (c : QueueCall π) :
    Agree (fun x y => x.2.Represents (clamped ∨ ∃ margin, c = .setSafetyMargin margin) y.2 ∧
        ((c = .safetyMargin → clamped) → x.1 = y.1))
      (q.call b c) (m.call b c) := by
  have len : q.buffer.len = m.queue.items.length := congrArg List.length rep.items
  have empty : q.buffer.isEmpty = m.queue.items.isEmpty := congrArg List.isEmpty rep.items
  cases c with
  | post event margin =>
      obtain ⟨t, ran, after⟩ := rep.post large event margin
      simp only [QEQueueInner.call, ReservedQueue.call, ran]
      exact Agree.ok ⟨after.weaken (by simp), fun _ => rfl⟩
  | postNormal event =>
      have same := rep.postNormal (b := b) large event
      simp only [QEQueueInner.call, ReservedQueue.call]
      refine same.map fun x y both => ?_
      exact ⟨both.2.weaken (by simp), fun _ => congrArg QueueAnswer.status both.1⟩
  | postCritical event =>
      obtain ⟨t, ran, after⟩ := rep.post large event 0
      simp only [QEQueueInner.call, ReservedQueue.call, QEQueueInner.postCritical, ran]
      exact Agree.ok ⟨after.weaken (by simp), fun _ => rfl⟩
  | postLifo event =>
      obtain ⟨t, ran, after⟩ := rep.postLifo large event
      simp only [QEQueueInner.call, ReservedQueue.call, ran]
      exact Agree.ok ⟨after.weaken (by simp), fun _ => rfl⟩
  | get =>
      obtain ⟨same, after⟩ := rep.take
      exact Agree.ok ⟨after.weaken (by simp), fun _ => congrArg QueueAnswer.event same⟩
  | setSafetyMargin margin =>
      exact Agree.ok ⟨(rep.setSafetyMargin margin).weaken fun _ => trivial, fun _ => rfl⟩
  | safetyMargin =>
      refine Agree.ok ⟨rep.weaken (by simp), fun known => congrArg QueueAnswer.count ?_⟩
      rw [← rep.margin]
      exact (Nat.min_eq_left (rep.kept (known rfl))).symm
  | isDegraded =>
      refine Agree.ok ⟨rep.weaken (by simp), fun _ => congrArg QueueAnswer.flag ?_⟩
      exact decide_eq_decide.mpr rep.degraded_iff
  | shedCount => exact Agree.ok ⟨rep.weaken (by simp), fun _ => congrArg QueueAnswer.count rep.shed⟩
  | peekFront =>
      exact Agree.ok ⟨rep.weaken (by simp), fun _ => congrArg (QueueAnswer.flag !·) empty⟩
  | isEmpty => exact Agree.ok ⟨rep.weaken (by simp), fun _ => congrArg QueueAnswer.flag empty⟩
  | getFree => exact Agree.ok ⟨rep.weaken (by simp), fun _ => congrArg QueueAnswer.count rep.free⟩
  | getMin => exact Agree.ok ⟨rep.weaken (by simp), fun _ => congrArg QueueAnswer.count rep.least⟩
  | len => exact Agree.ok ⟨rep.weaken (by simp), fun _ => congrArg QueueAnswer.count len⟩
  | capacity =>
      exact Agree.ok ⟨rep.weaken (by simp), fun _ => congrArg QueueAnswer.count rep.capacity⟩

end Represents

end QEQueueInner

namespace StaticEQueue

variable {π : Type} {N : Nat} {q : StaticEQueue π N} {b : Build} {event : DynEvent π}

/-- A `StaticEQueue` is a queue whose storage ends where its capacity does. -/
def asQueue (q : StaticEQueue π N) : QEQueueInner π (some N) :=
  ⟨q.buffer, N, q.minFree, q.safetyMargin, q.shedCount⟩

@[simp] theorem asQueue_buffer : q.asQueue.buffer = q.buffer := rfl

@[simp] theorem asQueue_capacity : q.asQueue.capacity = N := rfl

@[simp] theorem asQueue_free : q.asQueue.free = q.free := rfl

@[simp] theorem asQueue_updateWatermark :
    q.asQueue.updateWatermark = q.updateWatermark.asQueue := by
  by_cases lower : q.free < q.minFree
  · rw [updateWatermark, if_pos lower]
    exact if_pos lower
  · rw [updateWatermark, if_neg lower]
    exact if_neg lower

theorem asQueue_pushBack : q.asQueue.pushBack event = (q.pushBack event).map asQueue := by
  simp only [pushBack, QEQueueInner.pushBack, asQueue_buffer]
  cases q.buffer.pushBack event with
  | none => rfl
  | some buffer => rfl

theorem asQueue_pushFront : q.asQueue.pushFront event = (q.pushFront event).map asQueue := by
  simp only [pushFront, QEQueueInner.pushFront, asQueue_buffer]
  cases q.buffer.pushFront event with
  | none => rfl
  | some buffer => rfl

theorem asQueue_post (margin : Nat) : q.asQueue.post event margin =
    (q.post event margin).map fun out => (out.1, out.2.asQueue) := by
  by_cases enough : margin < q.free
  · simp only [post, QEQueueInner.post, asQueue_free, if_pos enough, asQueue_pushBack]
    cases q.pushBack event with
    | error fault => rfl
    | ok t => exact congrArg (fun t => Except.ok (true, t)) asQueue_updateWatermark
  · simp only [post, QEQueueInner.post, asQueue_free, enough, if_false]
    rfl

theorem asQueue_postLifo : q.asQueue.postLifo event =
    (q.postLifo event).map fun out => (out.1, out.2.asQueue) := by
  by_cases enough : q.buffer.len < N
  · simp only [postLifo, QEQueueInner.postLifo, asQueue_buffer, asQueue_capacity, if_pos enough,
      asQueue_pushFront]
    cases q.pushFront event with
    | error fault => rfl
    | ok t => exact congrArg (fun t => Except.ok (true, t)) asQueue_updateWatermark
  · simp only [postLifo, QEQueueInner.postLifo, asQueue_buffer, asQueue_capacity, enough, if_false]
    rfl

theorem asQueue_postNormal : q.asQueue.postNormal b event =
    (q.postNormal b event).map fun out => (out.1, out.2.asQueue) := by
  have margin : q.asQueue.safetyMargin = q.safetyMargin := rfl
  by_cases enough : q.safetyMargin < q.free
  · simp only [postNormal, QEQueueInner.postNormal, asQueue_free, margin, if_pos enough,
      asQueue_pushBack]
    cases q.pushBack event with
    | error fault => rfl
    | ok t =>
        simp only [Except.map, ok_bind, asQueue_updateWatermark, asQueue_free]
        rfl
  · simp only [postNormal, QEQueueInner.postNormal, asQueue_free, margin, if_neg enough]
    show (b.add q.shedCount 1 >>= _) = _
    cases b.add q.shedCount 1 with
    | error fault => rfl
    | ok count => rfl

theorem asQueue_setSafetyMargin (margin : Nat) :
    q.asQueue.setSafetyMargin margin = (q.setSafetyMargin margin).asQueue := by
  have clamp : min margin N = if margin > N then N else margin := by
    by_cases beyond : margin > N
    · rw [if_pos beyond]
      exact Nat.min_eq_right (Nat.le_of_lt beyond)
    · rw [if_neg beyond]
      exact Nat.min_eq_left (Nat.le_of_not_lt beyond)
  exact congrArg (fun margin => (⟨q.buffer, N, q.minFree, margin, q.shedCount⟩ :
    QEQueueInner π (some N))) clamp

theorem asQueue_call (c : QueueCall π) :
    q.asQueue.call b c = (q.call b c).map fun out => (out.1, out.2.asQueue) := by
  cases c with
  | post event margin =>
      simp only [call, QEQueueInner.call, asQueue_post]
      cases q.post event margin <;> rfl
  | postNormal event =>
      simp only [call, QEQueueInner.call, asQueue_postNormal]
      cases q.postNormal b event <;> rfl
  | postCritical event =>
      simp only [call, QEQueueInner.call, postCritical, QEQueueInner.postCritical, asQueue_post]
      cases q.post event 0 <;> rfl
  | postLifo event =>
      simp only [call, QEQueueInner.call, asQueue_postLifo]
      cases q.postLifo event <;> rfl
  | setSafetyMargin margin =>
      exact congrArg (fun t => Except.ok (QueueAnswer.done, t)) (asQueue_setSafetyMargin margin)
  | _ => rfl

end StaticEQueue

def Refused {π : Type} (c : QueueCall π) (out : QueueAnswer π) : Prop :=
  match c with
  | .post _ _ => out = .flag false
  | .postCritical _ => out = .flag false
  | .postLifo _ => out = .flag false
  | .postNormal _ => out = .status .shed
  | _ => False

namespace QEQueueInner

variable {π : Type} {bound : Option Nat} {N : Nat} {q t : QEQueueInner π bound} {b : Build}

theorem post_refused {event : DynEvent π} {margin : Nat}
    (ran : q.post event margin = .ok (false, t)) : t = q := by
  by_cases enough : margin < q.free
  · rw [post, if_pos enough] at ran
    obtain ⟨u, _, ran⟩ := bind_ok ran
    cases ran
  · rw [post, if_neg enough] at ran
    cases ran
    rfl

theorem postLifo_refused {event : DynEvent π} (ran : q.postLifo event = .ok (false, t)) :
    t = q := by
  by_cases enough : q.buffer.len < q.capacity
  · rw [postLifo, if_pos enough] at ran
    obtain ⟨u, _, ran⟩ := bind_ok ran
    cases ran
  · rw [postLifo, if_neg enough] at ran
    cases ran
    rfl

theorem postNormal_refused {event : DynEvent π} (ran : q.postNormal b event = .ok (.shed, t)) :
    ∃ count, b.add q.shedCount 1 = .ok count ∧ t = { q with shedCount := count } := by
  by_cases enough : q.safetyMargin < q.free
  · rw [postNormal, if_pos enough] at ran
    obtain ⟨u, _, ran⟩ := bind_ok ran
    have kept := congrArg Prod.fst (Except.ok.inj ran)
    by_cases degraded : u.updateWatermark.free ≤ u.updateWatermark.safetyMargin
    · simp [degraded] at kept
    · simp [degraded] at kept
  · rw [postNormal, if_neg enough] at ran
    obtain ⟨count, counted, ran⟩ := bind_ok ran
    cases ran
    exact ⟨count, counted, rfl⟩

theorem refused_same {c : QueueCall π} {out : QueueAnswer π} (ran : q.call b c = .ok (out, t))
    (refused : Refused c out) :
    t = q ∨ (∃ event, c = .postNormal event) ∧
      ∃ count, b.add q.shedCount 1 = .ok count ∧ t = { q with shedCount := count } := by
  cases c with
  | post event margin =>
      cases refused
      obtain ⟨⟨granted, u⟩, posted, same⟩ := map_ok ran
      cases same
      exact Or.inl (post_refused posted)
  | postCritical event =>
      cases refused
      obtain ⟨⟨granted, u⟩, posted, same⟩ := map_ok ran
      cases same
      exact Or.inl (post_refused posted)
  | postLifo event =>
      cases refused
      obtain ⟨⟨granted, u⟩, posted, same⟩ := map_ok ran
      cases same
      exact Or.inl (postLifo_refused posted)
  | postNormal event =>
      cases refused
      obtain ⟨⟨status, u⟩, posted, same⟩ := map_ok ran
      cases same
      exact Or.inr ⟨⟨event, rfl⟩, postNormal_refused posted⟩
  | _ => exact refused.elim

end QEQueueInner

theorem StaticEQueue.refused_same {π : Type} {N : Nat} {q t : StaticEQueue π N} {b : Build}
    {c : QueueCall π} {out : QueueAnswer π} (ran : q.call b c = .ok (out, t))
    (refused : Refused c out) :
    t = q ∨ (∃ event, c = .postNormal event) ∧
      ∃ count, b.add q.shedCount 1 = .ok count ∧ t = { q with shedCount := count } := by
  have seen : q.asQueue.call b c = .ok (out, t.asQueue) := by
    rw [asQueue_call, ran]
    rfl
  have injective : ∀ u : StaticEQueue π N, t.asQueue = u.asQueue → t = u := by
    intro u same
    cases t
    cases u
    cases same
    rfl
  rcases QEQueueInner.refused_same seen refused with same | ⟨normal, count, counted, same⟩
  · exact Or.inl (injective q same)
  · exact Or.inr ⟨normal, count, counted, injective { q with shedCount := count } same⟩

def SetsMargin {π : Type} (calls : List (QueueCall π)) : Prop :=
  ∃ margin, QueueCall.setSafetyMargin margin ∈ calls

/-- The states that answer alike, after the calls of `past`. -/
def Alike {π : Type} {bound : Option Nat} {N : Nat} (clamped : Prop) (past : List (QueueCall π))
    (q : QEQueueInner π bound) (m : ReservedQueue π N) : Prop :=
  q.Represents (clamped ∨ SetsMargin past) m

section Alike

variable {π : Type} {bound : Option Nat} {N : Nat} {q : QEQueueInner π bound}
  {m : ReservedQueue π N} {b : Build} {clamped : Prop} {past : List (QueueCall π)}

theorem QEQueueInner.simulated (large : ∀ limit ∈ bound, N ≤ limit) (past : List (QueueCall π))
    (q : QEQueueInner π bound) (m : ReservedQueue π N) (c : QueueCall π)
    (alike : Alike clamped past q m) :
    Agree (fun x y => Alike clamped (past ++ [c]) x.2 y.2) (q.call b c) (m.call b c) := by
  have called := QEQueueInner.Represents.call (b := b) alike large c
  refine called.imp fun x y both => both.1.weaken ?_
  rintro (known | ⟨margin, member⟩)
  · exact Or.inl (Or.inl known)
  · rcases List.mem_append.mp member with earlier | last
    · exact Or.inl (Or.inr ⟨margin, earlier⟩)
    · exact Or.inr ⟨margin, (List.mem_singleton.mp last).symm⟩

theorem Alike.answers (alike : Alike clamped past q m) (large : ∀ limit ∈ bound, N ≤ limit)
    {c : QueueCall π} (reported : c = .safetyMargin → clamped ∨ SetsMargin past) :
    Agree (fun x y => x.1 = y.1) (q.call b c) (m.call b c) :=
  (QEQueueInner.Represents.call alike large c).imp fun _ _ both => both.2 reported

theorem new_alike {margin : Nat} {q : QEQueueInner π bound} (items : q.buffer.items = [])
    (capacity : q.capacity = N) (minFree : q.minFree = N)
    (safetyMargin : min q.safetyMargin N = min margin N) (kept : clamped → q.safetyMargin ≤ N)
    (shed : q.shedCount = 0) : Alike clamped [] q (.new margin : ReservedQueue π N) where
  items := items
  capacity := capacity
  least := minFree.trans (Nat.min_self N).symm
  margin := safetyMargin
  kept known := kept (known.resolve_right fun ⟨_, member⟩ => by cases member)
  shed := shed
  watched := BoundedQueue.new_watched

end Alike

section Runs

variable {π : Type} {N : Nat} (b : Build) (margin : Nat) (past : List (QueueCall π))

/-- What a queue holds after a sequence of calls, against the bounded queue after the same calls. -/
def Holds (items : List (DynEvent π)) (minFree : Nat) : Prop :=
  ∃ m : ReservedQueue π N, after (ReservedQueue.call b) (.new margin) past = .ok m ∧
    items = m.queue.items ∧ IsLeast {n | n ∈ m.queue.frees} minFree

variable {b margin past}

theorem Alike.holds {bound : Option Nat} {clamped : Prop} {q : QEQueueInner π bound}
    {m : ReservedQueue π N} (alike : Alike clamped past q m)
    (ran : after (ReservedQueue.call b) (.new margin) past = .ok m) :
    Holds (N := N) b margin past q.buffer.items q.minFree := by
  have watermark := alike.watched.leastFree
  rw [← alike.least] at watermark
  exact ⟨m, ran, alike.items, watermark⟩

theorem QEQueueInner.holds {bound : Option Nat} {clamped : Prop} {q t : QEQueueInner π bound}
    (fresh : Alike clamped [] q (.new margin : ReservedQueue π N))
    (large : ∀ limit ∈ bound, N ≤ limit) (ran : after (QEQueueInner.call b) q past = .ok t) :
    Holds (N := N) b margin past t.buffer.items t.minFree := by
  have reached := after_agree (QEQueueInner.simulated (b := b) large) fresh past
  obtain ⟨m, modelled, alike⟩ := reached.returns ran
  exact alike.holds modelled

theorem StaticEQueue.simulated (past : List (QueueCall π)) (q : StaticEQueue π N)
    (m : ReservedQueue π N) (c : QueueCall π) (alike : Alike False past q.asQueue m) :
    Agree (fun x y => Alike False (past ++ [c]) x.2.asQueue y.2) (q.call b c) (m.call b c) := by
  have called := QEQueueInner.simulated (b := b)
    (fun _ same => Nat.le_of_eq (Option.some.inj same)) past q.asQueue m c alike
  rw [asQueue_call] at called
  exact called.of_map

theorem StaticEQueue.new_alike :
    Alike False [] (withSafetyMargin margin : StaticEQueue π N).asQueue
      (.new margin : ReservedQueue π N) :=
  QpRs.new_alike rfl rfl rfl rfl False.elim rfl

theorem StaticEQueue.holds {t : StaticEQueue π N}
    (ran : after (StaticEQueue.call b) (withSafetyMargin margin) past = .ok t) :
    Holds (N := N) b margin past t.buffer.items t.minFree := by
  have start : Alike False [] (withSafetyMargin margin : StaticEQueue π N).asQueue
      (.new margin : ReservedQueue π N) := new_alike
  have reached := after_agree (simulated (b := b)) start past
  obtain ⟨m, modelled, alike⟩ := reached.returns ran
  exact Alike.holds alike modelled

end Runs

/-- `QEQueue` in both builds and `StaticEQueue` are one bounded queue that reserves `margin` of its
`N` slots: they answer every call after every sequence of calls as it does, the safety margin of a
`StaticEQueue` apart before it is set. A refused post leaves everything but the count of shed
events. -/
theorem one_bounded_queue {π : Type} (b : Build) (staticAlloc : Bool) (N margin : Nat)
    (inline : staticAlloc = true → N ≤ qequeueCapacity) :
    (∃ q : QEQueue π staticAlloc, QEQueue.withSafetyMargin N margin = .ok q ∧
      (∀ past c, answer (QEQueueInner.call b) q past c =
        answer (ReservedQueue.call b) (.new margin : ReservedQueue π N) past c) ∧
      ∀ past t, after (QEQueueInner.call b) q past = .ok t →
        Holds (N := N) b margin past t.buffer.items t.minFree ∧
          ∀ c out u, t.call b c = .ok (out, u) → Refused c out →
            u = t ∨ (∃ event, c = .postNormal event) ∧
              ∃ count, b.add t.shedCount 1 = .ok count ∧ u = { t with shedCount := count }) ∧
    (∀ past c, (c = .safetyMargin → SetsMargin past) →
      answer (StaticEQueue.call b) (.withSafetyMargin margin : StaticEQueue π N) past c =
        answer (ReservedQueue.call b) (.new margin : ReservedQueue π N) past c) ∧
    ∀ past t, after (StaticEQueue.call b) (.withSafetyMargin margin : StaticEQueue π N) past =
        .ok t →
      Holds (N := N) b margin past t.buffer.items t.minFree ∧
        ∀ c out u, t.call b c = .ok (out, u) → Refused c out →
          u = t ∨ (∃ event, c = .postNormal event) ∧
            ∃ count, b.add t.shedCount 1 = .ok count ∧ u = { t with shedCount := count } := by
  refine ⟨?_, ?_, ?_⟩
  · have built : (QEQueue.withSafetyMargin N margin : Except Fault (QEQueue π staticAlloc)) =
        .ok ⟨.new, N, N, min margin N, 0⟩ := by
      have within : ¬(staticAlloc = true ∧ qequeueCapacity < N) := by
        rintro ⟨static, beyond⟩
        exact Nat.not_lt.mpr (inline static) beyond
      rw [QEQueue.withSafetyMargin, if_neg within]
    have large : ∀ limit ∈ qequeueBound staticAlloc, N ≤ limit := by
      intro limit is
      cases staticAlloc with
      | false => cases is
      | true => exact Option.some.inj is ▸ inline rfl
    have fresh : Alike True [] (⟨.new, N, N, min margin N, 0⟩ : QEQueue π staticAlloc)
        (.new margin : ReservedQueue π N) :=
      new_alike rfl rfl rfl (by rw [Nat.min_assoc, Nat.min_self])
        (fun _ => Nat.min_le_right _ _) rfl
    refine ⟨_, built, ?_, ?_⟩
    · intro past c
      refine answer_agree (QEQueueInner.simulated large) fresh past fun q m alike => ?_
      exact Alike.answers alike large fun _ => Or.inl trivial
    · intro past t ran
      exact ⟨QEQueueInner.holds fresh large ran, fun _ _ _ => QEQueueInner.refused_same⟩
  · intro past c reported
    refine answer_agree StaticEQueue.simulated StaticEQueue.new_alike past fun q m alike => ?_
    have called := alike.answers (b := b) (c := c)
      (fun _ same => Nat.le_of_eq (Option.some.inj same)) fun is => Or.inr (reported is)
    rw [StaticEQueue.asQueue_call] at called
    exact called.of_map
  · intro past t ran
    exact ⟨StaticEQueue.holds ran, fun _ _ _ => StaticEQueue.refused_same⟩

/-- An inline queue of the whole capacity, made with a margin beyond it. -/
theorem one_bounded_queue_sixteen :
    answer (StaticEQueue.call ⟨3, true, true⟩)
        (.withSafetyMargin 20 : StaticEQueue Unit qequeueCapacity)
        [.postNormal (.emptyDyn qUserSig), .postCritical (.emptyDyn qUserSig)] .getMin =
      answer (ReservedQueue.call ⟨3, true, true⟩) (.new 20 : ReservedQueue Unit qequeueCapacity)
        [.postNormal (.emptyDyn qUserSig), .postCritical (.emptyDyn qUserSig)] .getMin :=
  (one_bounded_queue ⟨3, true, true⟩ true qequeueCapacity 20 fun _ => Nat.le_refl _).2.1 _ _
    fun getter => by cases getter

end QpRs
