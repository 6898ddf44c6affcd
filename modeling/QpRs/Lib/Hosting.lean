import QpRs.Lib.Actors

/-! Actors that run on a kernel.

A kernel keeps the mailboxes and decides which handler runs. Its calls are made by the innermost
handler, which has its own list of messages still to post, or from outside. Whatever the kernel
decides, the actors run as the system of `Actors` does. -/

namespace QpRs.Lib

/-- What a kernel shows of its state: the mailboxes, and the actors whose handlers have not
returned, innermost first. -/
@[ext] structure View (ι μ : Type) where
  mailbox : ι → List μ
  running : List ι

/-- What the caller of a kernel wants from it. -/
inductive Work (ι μ : Type) where
  | post (j : ι) (m : μ)
  /-- The innermost handler returns. -/
  | ret
  | other
  deriving DecidableEq

namespace View

variable {ι μ : Type} [DecidableEq ι]

def after (v : View ι μ) : Work ι μ → View ι μ
  | .post j m => { v with mailbox := Function.update v.mailbox j (v.mailbox j ++ [m]) }
  | .ret => { v with running := v.running.tail }
  | .other => v

def begin (v : View ι μ) (i : ι) (rest : List μ) : View ι μ where
  mailbox := Function.update v.mailbox i rest
  running := i :: v.running

/-- A kernel starts the handler of at most one actor at a time, an idle one with a message. -/
inductive Serves (v : View ι μ) : View ι μ → Prop where
  | none : Serves v v
  | start {i : ι} {m : μ} {rest : List μ} (idle : i ∉ v.running)
      (first : v.mailbox i = m :: rest) : Serves v (v.begin i rest)

end View

/-- A kernel: `step` is one call or return, `does` says which of them the hosted code makes, and
what for. -/
structure Kernel (ι μ W L : Type) [DecidableEq ι] where
  step : W → L → Option W
  does : W → L → Option (Work ι μ)
  view : W → View ι μ
  Inv : W → Prop
  keeps : ∀ w l k w', Inv w → does w l = some k → step w l = some w' → Inv w'
  serves : ∀ w l k w', Inv w → does w l = some k → step w l = some w' →
    ((view w).after k).Serves (view w')

/-- A kernel with the actors' own states and, for a handler that has not returned, the messages it
has still to post. -/
structure Hosted (ι : Type) (σ : ι → Type) (μ W : Type) where
  world : W
  state : (i : ι) → σ i
  todo : ι → List (ι × μ)

inductive HostLabel (ι L χ ω : Type) where
  /-- The innermost handler posts its next message. -/
  | send (call : L) (answer : χ)
  /-- The innermost handler returns. -/
  | ret (call : L) (answer : χ)
  | other (call : L) (answer : χ)
  /-- Something happens to an actor from outside; `call` posts the message, if there is one. -/
  | outside (i : ι) (o : ω) (call : L) (answer : χ)

namespace Hosted

variable {ι : Type} {σ : ι → Type} {μ χ ω W L : Type} [DecidableEq ι]

section Steps

variable (A : Actors ι σ μ χ ω) (K : Kernel ι μ W L)

/-- The kernel has come from the view `v` to `w`; if it has started a handler, the handler runs. -/
def settle (h : Hosted ι σ μ W) (v : View ι μ) (answer : χ) (w : W) : Option (Hosted ι σ μ W) :=
  if (K.view w).running.length = v.running.length then some { h with world := w }
  else
    match (K.view w).running with
    | [] => none
    | i :: _ =>
        match v.mailbox i with
        | [] => none
        | m :: _ =>
            (A.handle i answer (h.state i) m).map fun done =>
              { world := w
                state := Function.update h.state i done.1
                todo := Function.update h.todo i done.2 }

def perform [DecidableEq μ] (h : Hosted ι σ μ W) (k : Work ι μ) (call : L) (answer : χ) :
    Option (Hosted ι σ μ W) :=
  if K.does h.world call = some k then
    (K.step h.world call).bind (settle A K h ((K.view h.world).after k) answer)
  else none

def step [DecidableEq μ] (h : Hosted ι σ μ W) : HostLabel ι L χ ω → Option (Hosted ι σ μ W)
  | .send call answer =>
      match (K.view h.world).running with
      | [] => none
      | i :: _ =>
          match h.todo i with
          | [] => none
          | (j, m) :: rest =>
              perform A K { h with todo := Function.update h.todo i rest } (.post j m) call answer
  | .ret call answer =>
      match (K.view h.world).running with
      | [] => none
      | i :: _ => if h.todo i = [] then perform A K h .ret call answer else none
  | .other call answer => perform A K h .other call answer
  | .outside i o call answer =>
      match A.outside i o (h.state i) with
      | none => none
      | some (s, none) => some { h with state := Function.update h.state i s }
      | some (s, some m) =>
          perform A K { h with state := Function.update h.state i s } (.post i m) call answer

def config (h : Hosted ι σ μ W) : Actors.Config ι σ μ :=
  ⟨h.state, (K.view h.world).mailbox, h.todo⟩

def Sound (h : Hosted ι σ μ W) : Prop :=
  K.Inv h.world ∧ ∀ i, h.todo i ≠ [] → i ∈ (K.view h.world).running

end Steps

section Simulation

variable {A : Actors ι σ μ χ ω} {K : Kernel ι μ W L} {h h' : Hosted ι σ μ W} {v : View ι μ}
  {w : W} {answer : χ} {good : Actors.Label ι χ ω → Prop}

theorem settle_cases (serves : v.Serves (K.view w)) (settled : settle A K h v answer w = some h') :
    (K.view w = v ∧ h' = { h with world := w }) ∨
      ∃ i m rest s out, i ∉ v.running ∧ v.mailbox i = m :: rest ∧ K.view w = v.begin i rest ∧
        A.handle i answer (h.state i) m = some (s, out) ∧
        h' = { world := w
               state := Function.update h.state i s
               todo := Function.update h.todo i out } := by
  unfold settle at settled
  generalize now : K.view w = v' at serves settled
  cases serves with
  | none =>
      rw [if_pos rfl] at settled
      exact .inl ⟨rfl, (Option.some.inj settled).symm⟩
  | start idle first =>
      rename_i i m rest
      have longer : (v.begin i rest).running.length ≠ v.running.length := by simp [View.begin]
      rw [if_neg longer] at settled
      simp only [View.begin, first] at settled
      obtain ⟨⟨s, out⟩, handled, same⟩ := Option.map_eq_some_iff.mp settled
      exact .inr ⟨i, m, rest, s, out, idle, first, rfl, handled, same.symm⟩

/-- `h'` is sound and the actors have come to it from `c` by steps that meet `good`. -/
def Reaches (A : Actors ι σ μ χ ω) (K : Kernel ι μ W L) (good : Actors.Label ι χ ω → Prop)
    (c : Actors.Config ι σ μ) (h' : Hosted ι σ μ W) : Prop :=
  Sound K h' ∧ ∃ labels, (∀ l ∈ labels, good l) ∧ run A.step c labels = some (config K h')

theorem reaches_settle (inv : K.Inv w) (serves : v.Serves (K.view w))
    (holding : ∀ i, h.todo i ≠ [] → i ∈ v.running)
    (settled : settle A K h v answer w = some h') (allowed : ∀ i, good (.take i answer)) :
    Reaches A K good ⟨h.state, v.mailbox, h.todo⟩ h' := by
  rcases settle_cases serves settled with ⟨same, rfl⟩ |
    ⟨i, m, rest, s, out, idle, first, begun, handled, rfl⟩
  · refine ⟨⟨inv, ?_⟩, [], by simp, ?_⟩
    · rw [same]
      exact holding
    · simp [run, config, same]
  · have sent : h.todo i = [] := by
      by_contra busy
      exact idle (holding i busy)
    refine ⟨⟨inv, ?_⟩, [.take i answer], ?_, ?_⟩
    · rw [begun]
      intro j busy
      by_cases here : j = i
      · rw [here]
        exact List.mem_cons_self
      · simp only [Function.update_of_ne here] at busy
        exact List.mem_cons_of_mem i (holding j busy)
    · intro l member
      rw [List.mem_singleton.mp member]
      exact allowed i
    · have taken : A.step ⟨h.state, v.mailbox, h.todo⟩ (.take i answer) = some _ :=
        Actors.step_take first sent handled
      rw [run, taken]
      simp [run, config, begun, Actors.Config.take, View.begin]

theorem reaches_perform [DecidableEq μ] {k : Work ι μ} {call : L} (inv : K.Inv h.world)
    (holding : ∀ i, h.todo i ≠ [] → i ∈ ((K.view h.world).after k).running)
    (performed : perform A K h k call answer = some h') (allowed : ∀ i, good (.take i answer)) :
    Reaches A K good ⟨h.state, ((K.view h.world).after k).mailbox, h.todo⟩ h' := by
  unfold perform at performed
  split at performed
  · rename_i does
    obtain ⟨w, stepped, settled⟩ := Option.bind_eq_some_iff.mp performed
    exact reaches_settle (K.keeps _ _ _ _ inv does stepped) (K.serves _ _ _ _ inv does stepped)
      holding settled allowed
  · cases performed

theorem Reaches.after {c d : Actors.Config ι σ μ} {l : Actors.Label ι χ ω}
    (reaches : Reaches A K good d h') (allowed : good l) (stepped : A.step c l = some d) :
    Reaches A K good c h' := by
  obtain ⟨sound, labels, met, ran⟩ := reaches
  refine ⟨sound, l :: labels, ?_, ?_⟩
  · intro a member
    rcases List.mem_cons.mp member with rfl | later
    · exact allowed
    · exact met a later
  · rw [run, stepped]
    exact ran

end Simulation

end Hosted

def HostLabel.Within {ι L χ ω : Type} (good : Actors.Label ι χ ω → Prop) :
    HostLabel ι L χ ω → Prop
  | .send _ answer => (∀ i, good (.send i)) ∧ ∀ i, good (.take i answer)
  | .ret _ answer => ∀ i, good (.take i answer)
  | .other _ answer => ∀ i, good (.take i answer)
  | .outside i o _ answer => good (.outside i o) ∧ ∀ i, good (.take i answer)

namespace Hosted

variable {ι : Type} {σ : ι → Type} {μ χ ω W L : Type} [DecidableEq ι] [DecidableEq μ]
  {A : Actors ι σ μ χ ω} {K : Kernel ι μ W L} {h h' : Hosted ι σ μ W}
  {good : Actors.Label ι χ ω → Prop}

theorem reaches_step {l : HostLabel ι L χ ω} (sound : Sound K h) (within : l.Within good)
    (stepped : step A K h l = some h') : Reaches A K good (config K h) h' := by
  obtain ⟨inv, holding⟩ := sound
  cases l with
  | send call answer =>
      cases running : (K.view h.world).running with
      | nil => simp [step, running] at stepped
      | cons i below =>
          cases todo : h.todo i with
          | nil => simp [step, running, todo] at stepped
          | cons o rest =>
              simp only [step, running, todo] at stepped
              have busy (k : ι) (left : Function.update h.todo i rest k ≠ []) :
                  k ∈ (K.view h.world).running := by
                by_cases here : k = i
                · rw [here, running]
                  exact List.mem_cons_self
                · rw [Function.update_of_ne here] at left
                  exact holding k left
              have performed : Reaches A K good
                  ((config K h).send i o.1 o.2 rest) h' :=
                reaches_perform (h := { h with todo := Function.update h.todo i rest })
                  (k := .post o.1 o.2) inv busy stepped within.2
              exact performed.after (within.1 i) (Actors.step_send todo)
  | ret call answer =>
      cases running : (K.view h.world).running with
      | nil => simp [step, running] at stepped
      | cons i below =>
          simp only [step, running] at stepped
          split at stepped
          · rename_i sent
            have busy (k : ι) (left : h.todo k ≠ []) :
                k ∈ ((K.view h.world).after .ret).running := by
              have member := holding k left
              rw [running] at member
              rcases List.mem_cons.mp member with rfl | later
              · exact absurd sent left
              · simpa [View.after, running] using later
            exact reaches_perform inv busy stepped within
          · cases stepped
  | other call answer =>
      exact reaches_perform (k := .other) inv holding stepped within
  | outside i o call answer =>
      cases happens : A.outside i o (h.state i) with
      | none => simp [step, happens] at stepped
      | some done =>
          obtain ⟨s, arrived⟩ := done
          have outside : A.step (config K h) (.outside i o) = some _ :=
            Actors.step_outside happens
          cases arrived with
          | none =>
              simp only [step, happens] at stepped
              obtain rfl := Option.some.inj stepped
              refine ⟨⟨inv, holding⟩, [.outside i o], ?_, ?_⟩
              · intro l member
                rw [List.mem_singleton.mp member]
                exact within.1
              · rw [run, outside]
                simp [run, config, Actors.Config.outside]
          | some m =>
              simp only [step, happens] at stepped
              have performed : Reaches A K good ((config K h).outside i s (some m)) h' :=
                reaches_perform (h := { h with state := Function.update h.state i s })
                  (k := .post i m) inv holding stepped within.2
              exact performed.after within.1 outside

/-- Every run on the kernel is a run of the actors. -/
theorem reaches_run {labels : List (HostLabel ι L χ ω)} (sound : Sound K h)
    (within : ∀ l ∈ labels, l.Within good) (ran : run (step A K) h labels = some h') :
    Reaches A K good (config K h) h' := by
  induction labels generalizing h with
  | nil =>
      cases ran
      exact ⟨sound, [], by simp, rfl⟩
  | cons l rest ih =>
      obtain ⟨u, stepped, ran⟩ := run_cons ran
      obtain ⟨sound', first, met, one⟩ :=
        reaches_step sound (within l List.mem_cons_self) stepped
      obtain ⟨sound'', second, met', two⟩ :=
        ih sound' (fun a member => within a (List.mem_cons_of_mem l member)) ran
      refine ⟨sound'', first ++ second, ?_, ?_⟩
      · intro a member
        rcases List.mem_append.mp member with early | late
        · exact met a early
        · exact met' a late
      · rw [run_append, one]
        exact two

end Hosted

end QpRs.Lib
