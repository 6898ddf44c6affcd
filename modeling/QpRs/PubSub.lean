import QpRs.Active

/-! The subscription table (`qf/src/pubsub.rs`) against the history of subscription calls.

The table has one 64-bit word for each signal, so two priorities that are equal modulo 64 share a
bit when overflow checks are compiled out. -/

namespace QpRs

inductive Subscription where
  | subscribe (signal : Signal) (prio : Nat)
  | unsubscribe (signal : Signal) (prio : Nat)
  | unsubscribeAll (prio : Nat)
  deriving DecidableEq, Repr

namespace Subscription

def prio : Subscription → Nat
  | .subscribe _ prio => prio
  | .unsubscribe _ prio => prio
  | .unsubscribeAll prio => prio

/-- What a call says about a signal and a priority, if it concerns them. -/
def decides (a : Subscription) (signal : Signal) (prio : Nat) : Option Bool :=
  match a with
  | .subscribe s q => if s = signal ∧ q = prio then some true else none
  | .unsubscribe s q => if s = signal ∧ q = prio then some false else none
  | .unsubscribeAll q => if q = prio then some false else none

/-- `max_signal` bounds the signals of the calls. -/
def InRange (maxSignal : Nat) : Subscription → Prop
  | .subscribe signal _ => signal.val ≤ maxSignal
  | .unsubscribe signal _ => signal.val ≤ maxSignal
  | .unsubscribeAll _ => True

instance (maxSignal : Nat) : (a : Subscription) → Decidable (a.InRange maxSignal)
  | .subscribe signal _ => inferInstanceAs (Decidable (signal.val ≤ maxSignal))
  | .unsubscribe signal _ => inferInstanceAs (Decidable (signal.val ≤ maxSignal))
  | .unsubscribeAll _ => inferInstanceAs (Decidable True)

/-- The call names no priority that shares its bit with another registered one, and none that
overflows the shift where that is checked. -/
structure Careful (checks : Bool) (registered : List Nat) (a : Subscription) : Prop where
  fits : checks = true → a.prio < 64
  apart : ∀ p ∈ registered, p % 64 = a.prio % 64 → p = a.prio

/-- The condition on the subscription call of a step, if it makes one. -/
def Admitted (checks : Bool) (maxSignal : Nat) (registered : List Nat) (a : Option Subscription) :
    Prop :=
  ∀ s ∈ a, s.InRange maxSignal ∧ s.Careful checks registered

end Subscription

/-- The most recent call that concerns the signal and the priority was `subscribe`. -/
def wants (history : List Subscription) (signal : Signal) (prio : Nat) : Bool :=
  (history.reverse.findSome? fun a => a.decides signal prio).getD false

theorem wants_snoc (history : List Subscription) (a : Subscription) (signal : Signal) (prio : Nat) :
    wants (history ++ [a]) signal prio =
      (a.decides signal prio).getD (wants history signal prio) := by
  unfold wants
  rw [List.reverse_append, List.reverse_singleton, List.singleton_append, List.findSome?_cons]
  cases a.decides signal prio <;> rfl

theorem shiftOne_ok {checks : Bool} {prio : Nat} (fits : checks = true → prio < 64) :
    shiftOne checks prio = .ok (1#64 <<< (prio % 64)) := by
  unfold shiftOne
  by_cases low : prio < 64
  · rw [if_pos low, Nat.mod_eq_of_lt low]
  · have unchecked : ¬ checks = true := fun checked => low (fits checked)
    rw [if_neg low, if_neg unchecked]

namespace PubSubTable

def apply (checks : Bool) (t : PubSubTable) : Subscription → Except Halt PubSubTable
  | .subscribe signal prio => t.subscribe checks signal prio
  | .unsubscribe signal prio => t.unsubscribe checks signal prio
  | .unsubscribeAll prio => t.unsubscribeAll checks prio

/-- The bit of each registered priority says what its last call for the signal said. -/
structure Tracks (maxSignal : Nat) (registered : List Nat) (history : List Subscription)
    (t : PubSubTable) : Prop where
  limit : t.maxSignal = maxSignal
  bits : ∀ signal : Signal, signal.val ≤ maxSignal → ∀ p ∈ registered,
    (t.subscriptions signal.val).getLsbD (p % 64) = wants history signal p

variable {maxSignal : Nat} {registered : List Nat} {history : List Subscription} {t : PubSubTable}

theorem tracks_new (maxSignal : Nat) (registered : List Nat) :
    Tracks maxSignal registered [] (.new maxSignal) where
  limit := rfl
  bits := by
    intro signal _ p _
    simp [new, wants]

theorem Tracks.idx (tracks : Tracks maxSignal registered history t) {signal : Signal}
    (bounded : signal.val ≤ maxSignal) : t.idx signal = .ok signal.val := by
  rw [PubSubTable.idx, tracks.limit]
  exact if_pos bounded

theorem signal_eq {s signal : Signal} (same : signal.val = s.val) : s = signal := by
  cases s
  cases signal
  exact congrArg Signal.mk same.symm

theorem getLsbD_or_shift (x : BitVec 64) (i j : Nat) (inRange : j < 64) :
    (x ||| 1#64 <<< j).getLsbD i = (decide (i = j) || x.getLsbD i) := by
  have inserted := ReadySet.contains_insert ⟨x⟩ inRange i
  rwa [ReadySet.contains_eq, ReadySet.contains_eq] at inserted

theorem getLsbD_and_not_shift (x : BitVec 64) (i j : Nat) :
    (x &&& ~~~(1#64 <<< j)).getLsbD i = (decide (i ≠ j) && x.getLsbD i) := by
  have removed := ReadySet.contains_remove ⟨x⟩ j i
  rwa [ReadySet.contains_eq, ReadySet.contains_eq] at removed

theorem Tracks.subscribers (tracks : Tracks maxSignal registered history t) {signal : Signal}
    (bounded : signal.val ≤ maxSignal) :
    t.subscribers signal = .ok (t.subscriptions signal.val) := by
  rw [PubSubTable.subscribers, tracks.idx bounded]
  rfl

theorem Tracks.apply {checks : Bool} {a : Subscription}
    (tracks : Tracks maxSignal registered history t)
    (inRange : a.InRange maxSignal) (careful : a.Careful checks registered) :
    ∃ t', t.apply checks a = .ok t' ∧ Tracks maxSignal registered (history ++ [a]) t' := by
  have shift := shiftOne_ok careful.fits
  have low := Nat.mod_lt a.prio (show 64 > 0 by decide)
  have same {p : Nat} (member : p ∈ registered) : p % 64 = a.prio % 64 ↔ a.prio = p :=
    ⟨fun equal => (careful.apart p member equal).symm, fun equal => by rw [equal]⟩
  cases a with
  | subscribe s q =>
      simp only [Subscription.prio] at shift low same
      simp only [PubSubTable.apply, subscribe, tracks.idx inRange, shift]
      refine ⟨_, rfl, ⟨tracks.limit, ?_⟩⟩
      intro signal bounded p member
      rw [wants_snoc, ← tracks.bits signal bounded p member]
      by_cases here : signal.val = s.val
      · have equal := signal_eq here
        subst equal
        simp only [if_true, getLsbD_or_shift _ _ _ low, same member, Subscription.decides]
        by_cases own : q = p <;> simp [own]
      · have other : ¬ s = signal := fun equal => here (congrArg Signal.val equal.symm)
        simp only [if_neg here, Subscription.decides, other, false_and, if_false, Option.getD_none]
  | unsubscribe s q =>
      simp only [Subscription.prio] at shift same
      simp only [PubSubTable.apply, unsubscribe, tracks.idx inRange, shift]
      refine ⟨_, rfl, ⟨tracks.limit, ?_⟩⟩
      intro signal bounded p member
      rw [wants_snoc, ← tracks.bits signal bounded p member]
      by_cases here : signal.val = s.val
      · have equal := signal_eq here
        subst equal
        simp only [if_true, getLsbD_and_not_shift, ne_eq, same member, Subscription.decides]
        by_cases own : q = p <;> simp [own]
      · have other : ¬ s = signal := fun equal => here (congrArg Signal.val equal.symm)
        simp only [if_neg here, Subscription.decides, other, false_and, if_false, Option.getD_none]
  | unsubscribeAll q =>
      simp only [Subscription.prio] at shift same
      simp only [PubSubTable.apply, unsubscribeAll, shift]
      refine ⟨_, rfl, ⟨tracks.limit, ?_⟩⟩
      intro signal bounded p member
      rw [wants_snoc, ← tracks.bits signal bounded p member]
      simp only [getLsbD_and_not_shift, ne_eq, same member, Subscription.decides]
      by_cases own : q = p <;> simp [own]

end PubSubTable

end QpRs
