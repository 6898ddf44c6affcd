import QpRs.Lib.Run
import Mathlib.Logic.Function.Basic

/-! Actors that take one message at a time.

An actor that takes a message changes its own state and leaves what it sends in its outbox. The
messages of an outbox reach the mailboxes one by one, in order, and an actor takes nothing before
its outbox is empty. The labels carry every choice of the environment. -/

namespace QpRs.Lib

/-- `handle` gives the new state and the messages sent; its second argument is what the environment
answers to the handler. `outside` is what happens to an actor from outside, with the message that
this puts into its mailbox. Both give `none` where the environment has no such choice. -/
structure Actors (ι : Type) (σ : ι → Type) (μ χ ω : Type) where
  handle : (i : ι) → χ → σ i → μ → Option (σ i × List (ι × μ))
  outside : (i : ι) → ω → σ i → Option (σ i × Option μ)

namespace Actors

structure Config (ι : Type) (σ : ι → Type) (μ : Type) where
  state : (i : ι) → σ i
  mailbox : ι → List μ
  outbox : ι → List (ι × μ)

inductive Label (ι χ ω : Type) where
  | take (i : ι) (answer : χ)
  | send (i : ι)
  | outside (i : ι) (o : ω)

variable {ι : Type} {σ : ι → Type} {μ χ ω : Type} [DecidableEq ι]

namespace Config

def take (c : Config ι σ μ) (i : ι) (rest : List μ) (s : σ i) (out : List (ι × μ)) :
    Config ι σ μ where
  state := Function.update c.state i s
  mailbox := Function.update c.mailbox i rest
  outbox := Function.update c.outbox i out

def send (c : Config ι σ μ) (i j : ι) (m : μ) (rest : List (ι × μ)) : Config ι σ μ where
  state := c.state
  mailbox := Function.update c.mailbox j (c.mailbox j ++ [m])
  outbox := Function.update c.outbox i rest

def outside (c : Config ι σ μ) (i : ι) (s : σ i) (m : Option μ) : Config ι σ μ where
  state := Function.update c.state i s
  mailbox := Function.update c.mailbox i (c.mailbox i ++ m.toList)
  outbox := c.outbox

end Config

def step (A : Actors ι σ μ χ ω) (c : Config ι σ μ) : Label ι χ ω → Option (Config ι σ μ)
  | .take i answer =>
      match c.mailbox i, c.outbox i with
      | m :: rest, [] =>
          (A.handle i answer (c.state i) m).map fun done => c.take i rest done.1 done.2
      | _, _ => none
  | .send i =>
      match c.outbox i with
      | (j, m) :: rest => some (c.send i j m rest)
      | [] => none
  | .outside i o => (A.outside i o (c.state i)).map fun done => c.outside i done.1 done.2

section Steps

variable {A : Actors ι σ μ χ ω} {c d : Config ι σ μ}

theorem step_take {i : ι} {answer : χ} {m : μ} {rest : List μ} {s : σ i} {out : List (ι × μ)}
    (first : c.mailbox i = m :: rest) (sent : c.outbox i = [])
    (handled : A.handle i answer (c.state i) m = some (s, out)) :
    A.step c (.take i answer) = some (c.take i rest s out) := by
  simp [step, first, sent, handled]

theorem step_send {i j : ι} {m : μ} {rest : List (ι × μ)} (next : c.outbox i = (j, m) :: rest) :
    A.step c (.send i) = some (c.send i j m rest) := by
  simp [step, next]

theorem step_outside {i : ι} {o : ω} {s : σ i} {m : Option μ}
    (happens : A.outside i o (c.state i) = some (s, m)) :
    A.step c (.outside i o) = some (c.outside i s m) := by
  simp [step, happens]

theorem step_cases {l : Label ι χ ω} (stepped : A.step c l = some d) :
    (∃ i answer m rest s out, l = .take i answer ∧ c.mailbox i = m :: rest ∧ c.outbox i = [] ∧
      A.handle i answer (c.state i) m = some (s, out) ∧ d = c.take i rest s out) ∨
    (∃ i j m rest, l = .send i ∧ c.outbox i = (j, m) :: rest ∧ d = c.send i j m rest) ∨
    ∃ i o s m, l = .outside i o ∧ A.outside i o (c.state i) = some (s, m) ∧
      d = c.outside i s m := by
  cases l with
  | take i answer =>
      left
      cases first : c.mailbox i with
      | nil => simp [step, first] at stepped
      | cons m rest =>
          cases sent : c.outbox i with
          | cons o more => simp [step, first, sent] at stepped
          | nil =>
              simp only [step, first, sent] at stepped
              obtain ⟨⟨s, out⟩, handled, same⟩ := Option.map_eq_some_iff.mp stepped
              exact ⟨i, answer, m, rest, s, out, rfl, first, sent, handled, same.symm⟩
  | send i =>
      right
      left
      cases next : c.outbox i with
      | nil => simp [step, next] at stepped
      | cons o rest =>
          simp only [step, next] at stepped
          exact ⟨i, o.1, o.2, rest, rfl, next, (Option.some.inj stepped).symm⟩
  | outside i o =>
      right
      right
      obtain ⟨⟨s, m⟩, happens, same⟩ := Option.map_eq_some_iff.mp stepped
      exact ⟨i, o, s, m, rfl, happens, same.symm⟩

end Steps

def sentTo (j : ι) (out : List (ι × μ)) : List μ := (out.filter fun m => m.1 = j).map Prod.snd

@[simp] theorem sentTo_nil (j : ι) : sentTo j ([] : List (ι × μ)) = [] := rfl

@[simp] theorem sentTo_self (j : ι) (m : μ) (rest : List (ι × μ)) :
    sentTo j ((j, m) :: rest) = m :: sentTo j rest := by
  simp [sentTo]

theorem sentTo_of_ne {i j : ι} (apart : i ≠ j) (m : μ) (rest : List (ι × μ)) :
    sentTo j ((i, m) :: rest) = sentTo j rest := by
  simp [sentTo, apart]

theorem mem_sentTo {j : ι} {m : μ} {out : List (ι × μ)} : m ∈ sentTo j out ↔ (j, m) ∈ out := by
  simp [sentTo]

/-- The messages of one kind on their way from `i` to `j`, the oldest first. -/
def channel (kind : μ → Bool) (i j : ι) (c : Config ι σ μ) : List μ :=
  (c.mailbox j).filter kind ++ (sentTo j (c.outbox i)).filter kind

/-- Only `i` sends messages of the kind to `j`. -/
def Owned (kind : μ → Bool) (i j : ι) (c : Config ι σ μ) : Prop :=
  ∀ k, k ≠ i → ∀ m ∈ sentTo j (c.outbox k), kind m = false

section Channel

variable {kind : μ → Bool} {i j : ι} {c : Config ι σ μ}

/-- A send moves messages along their channel: nothing is lost, doubled or overtaken. -/
theorem channel_send (owned : Owned kind i j c) {k l : ι} {m : μ} {rest : List (ι × μ)}
    (next : c.outbox k = (l, m) :: rest) :
    channel kind i j (c.send k l m rest) = channel kind i j c := by
  by_cases target : l = j
  · subst target
    by_cases sender : k = i
    · subst sender
      cases mine : kind m <;> simp [channel, Config.send, next, mine]
    · have foreign : kind m = false := owned k sender m (by rw [next]; simp)
      have apart : i ≠ k := fun same => sender same.symm
      simp [channel, Config.send, foreign, apart]
  · have here : j ≠ l := fun same => target same.symm
    by_cases sender : k = i
    · subst sender
      simp [channel, Config.send, next, here, sentTo_of_ne target]
    · have apart : i ≠ k := fun same => sender same.symm
      simp [channel, Config.send, here, apart]

theorem channel_take_receiver (kind : μ → Bool) (apart : i ≠ j) {m : μ} {rest : List μ}
    (first : c.mailbox j = m :: rest) (s : σ j) (out : List (ι × μ)) :
    channel kind i j c =
      (if kind m then [m] else []) ++ channel kind i j (c.take j rest s out) := by
  cases mine : kind m <;> simp [channel, Config.take, first, mine, apart]

theorem channel_take_sender (kind : μ → Bool) (apart : i ≠ j) (sent : c.outbox i = [])
    (rest : List μ) (s : σ i) (out : List (ι × μ)) :
    channel kind i j (c.take i rest s out) = channel kind i j c ++ (sentTo j out).filter kind := by
  simp [channel, Config.take, sent, apart.symm]

theorem channel_take_other {k : ι} (sender : k ≠ i) (receiver : k ≠ j) (rest : List μ) (s : σ k)
    (out : List (ι × μ)) : channel kind i j (c.take k rest s out) = channel kind i j c := by
  simp [channel, Config.take, sender.symm, receiver.symm]

theorem channel_outside {k : ι} {m : Option μ} (foreign : k = j → ∀ e ∈ m, kind e = false)
    (s : σ k) : channel kind i j (c.outside k s m) = channel kind i j c := by
  by_cases here : j = k
  · subst here
    cases m with
    | none => simp [channel, Config.outside]
    | some e =>
        have other : kind e = false := foreign rfl e rfl
        simp [channel, Config.outside, other]
  · simp [channel, Config.outside, here]

end Channel

/-- Every message, in a mailbox or still in an outbox, is one that may be there. -/
structure Addressed (fits : ι → μ → Prop) (sends : ι → ι × μ → Prop) (c : Config ι σ μ) :
    Prop where
  mailbox : ∀ i, ∀ m ∈ c.mailbox i, fits i m
  outbox : ∀ i, ∀ o ∈ c.outbox i, sends i o

section Addressed

variable {fits : ι → μ → Prop} {sends : ι → ι × μ → Prop} {c : Config ι σ μ}

theorem Addressed.take {i : ι} {m : μ} {rest : List μ} {s : σ i} {out : List (ι × μ)}
    (addressed : Addressed fits sends c) (first : c.mailbox i = m :: rest)
    (sent : ∀ o ∈ out, sends i o) : Addressed fits sends (c.take i rest s out) where
  mailbox := by
    apply (Function.forall_update_iff c.mailbox fun i mail => ∀ m ∈ mail, fits i m).mpr
    refine ⟨?_, fun k _ => addressed.mailbox k⟩
    intro e member
    apply addressed.mailbox i e
    rw [first]
    exact List.mem_cons_of_mem m member
  outbox := by
    apply (Function.forall_update_iff c.outbox fun i out => ∀ o ∈ out, sends i o).mpr
    exact ⟨sent, fun k _ => addressed.outbox k⟩

theorem Addressed.send {i j : ι} {m : μ} {rest : List (ι × μ)}
    (sound : ∀ i o, sends i o → fits o.1 o.2) (addressed : Addressed fits sends c)
    (next : c.outbox i = (j, m) :: rest) : Addressed fits sends (c.send i j m rest) where
  mailbox := by
    apply (Function.forall_update_iff c.mailbox fun i mail => ∀ m ∈ mail, fits i m).mpr
    refine ⟨?_, fun k _ => addressed.mailbox k⟩
    intro e member
    rcases List.mem_append.mp member with old | new
    · exact addressed.mailbox j e old
    · rw [List.mem_singleton.mp new]
      apply sound i (j, m)
      apply addressed.outbox i
      rw [next]
      exact List.mem_cons_self
  outbox := by
    apply (Function.forall_update_iff c.outbox fun i out => ∀ o ∈ out, sends i o).mpr
    refine ⟨?_, fun k _ => addressed.outbox k⟩
    intro o member
    apply addressed.outbox i
    rw [next]
    exact List.mem_cons_of_mem _ member

theorem Addressed.outside {i : ι} {s : σ i} {m : Option μ} (addressed : Addressed fits sends c)
    (fit : ∀ e ∈ m, fits i e) : Addressed fits sends (c.outside i s m) where
  mailbox := by
    apply (Function.forall_update_iff c.mailbox fun i mail => ∀ m ∈ mail, fits i m).mpr
    refine ⟨?_, fun k _ => addressed.mailbox k⟩
    intro e member
    rcases List.mem_append.mp member with old | new
    · exact addressed.mailbox i e old
    · exact fit e (Option.mem_toList.mp new)
  outbox := addressed.outbox

end Addressed

end Actors

end QpRs.Lib
