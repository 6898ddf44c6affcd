import Mathlib.Data.Finset.Basic
import QpRs.Pool.PoolArc

/-! What holds of pooled values under any interleaving, and that handles coming and going keep it:
every handle is counted. -/

namespace QpRs.Pool

open QpRs.Lib

variable {n : Nat} {ι κ V : Type}

/-- The block that a context has to itself, with the allocation whose last drop is under way. -/
def Pc.owns : Pc n κ V → Option (Nat × Option Nat)
  | .write _ ptr _ => some (ptr, none)
  | .last ptr b => some (ptr, some b)
  | .destroy _ ptr b => some (ptr, some b)
  | .free _ ptr b => some (ptr, some b)
  | _ => none

/-- A context that is in no call. -/
def Pc.Rests : Pc n κ V → Prop
  | .idle => True
  | .halted _ => True
  | _ => False

theorem Pc.Rests.owns {pc : Pc n κ V} (rests : pc.Rests) : pc.owns = none := by
  cases pc with
  | idle => rfl
  | halted why => rfl
  | _ => exact rests.elim

namespace Sharing

variable {s s' : Sharing n ι κ V} {t t' : ι} {h h' : κ} {ptr a b : Nat}

def count (s : Sharing n ι κ V) (ptr : Nat) : Nat :=
  (s.live.filter fun h => (s.handle h).repr = some ptr).card

def Lent (s : Sharing n ι κ V) (i : Fin n) (ptr : Nat) : Prop := (s.slots i).stock.Lent ptr

def Borrows (s : Sharing n ι κ V) (t : ι) (h : κ) (ptr : Nat) : Prop :=
  h ∈ s.live ∧ (s.handle h).repr = some ptr ∧ t ∈ (s.handle h).borrowers

def Drops (s : Sharing n ι κ V) (t : ι) (h : κ) (ptr : Nat) : Prop :=
  h ∈ s.live ∧ (s.handle h).repr = some ptr ∧ (s.handle h).dropper = some t

/-- A word that some count above zero was stored as. -/
def Counted (cur : UInt32) : Prop := ∃ v : UInt16, v ≠ 0 ∧ cur = DisAtomicU16.pack v

/-- The pool id that was written for an allocation. -/
def Home (s : Sharing n ι κ V) (poolId b : Nat) : Prop :=
  ∃ x, s.born[b]? = some x ∧ poolId = x.pool + 1

/-- What a context may rely on where it stands. -/
def Placed (s : Sharing n ι κ V) (t : ι) : Pc n κ V → Prop
  | .idle => True
  | .alloc .. => True
  | .write i ptr _ => s.use ptr = .filling t ∧ s.Lent i ptr
  | .increment h ptr cur => s.Borrows t h ptr ∧ Counted cur
  | .reading h ptr => s.Borrows t h ptr
  | .decrement h ptr cur => s.Drops t h ptr ∧ Counted cur
  | .last ptr b => s.use ptr = .ending t b ∧ b ∉ s.destroyed
  | .destroy poolId ptr b => s.use ptr = .ending t b ∧ b ∉ s.destroyed ∧ s.Home poolId b
  | .free poolId ptr b => s.use ptr = .ending t b ∧ b ∈ s.destroyed ∧ s.Home poolId b
  | .halted why => why ≠ .corrupted ∧ why ≠ .underflow

/-- The block at `ptr` belongs to allocation `b`. -/
def Owned (s : Sharing n ι κ V) (ptr b : Nat) : Prop :=
  b ∉ s.returned.map Prod.fst ∧ ∃ x, s.born[b]? = some x ∧ x.ptr = ptr ∧ s.Lent x.pool ptr ∧
    (s.heap ptr).poolId = Dis.new 255 (x.pool + 1)

def Consistent (s : Sharing n ι κ V) (ptr : Nat) : Prop :=
  match s.use ptr with
  | .free => ∀ i, ¬s.Lent i ptr
  | .filling t => (s.pc t).owns = some (ptr, none)
  | .shared b => s.Owned ptr b ∧ b ∉ s.destroyed ∧ 0 < s.count ptr ∧ s.count ptr ≤ 65535 ∧
      (s.heap ptr).refCount = DisAtomicU16.pack (UInt16.ofNat (s.count ptr)) ∧
      ∃ x, s.born[b]? = some x ∧ (s.heap ptr).value = some x.value
  | .ending t b => s.Owned ptr b ∧ (s.pc t).owns = some (ptr, some b) ∧
      DisAtomicU16.Complementary (s.heap ptr).refCount

/-- Where an allocation has got to. -/
def Accounted (s : Sharing n ι κ V) (b : Nat) (x : Birth n V) : Prop :=
  s.use x.ptr = .shared b ∨ (∃ t, s.use x.ptr = .ending t b) ∨
    (b ∈ s.destroyed ∧ (b, x.pool) ∈ s.returned)

structure Inv (s : Sharing n ι κ V) : Prop where
  apart : ∀ i j ptr, ptr ∈ (s.slots i).stock.all → ptr ∈ (s.slots j).stock.all → i = j
  placed : ∀ t, s.Placed t (s.pc t)
  alone : ∀ h t, (s.handle h).dropper = some t → (s.handle h).borrowers = ∅
  held : ∀ h ∈ s.live, ∀ ptr, (s.handle h).repr = some ptr → s.use ptr = .shared (s.handle h).birth
  consistent : ∀ ptr, s.Consistent ptr
  accounted : ∀ b x, s.born[b]? = some x → s.Accounted b x
  destroyed_once : s.destroyed.Nodup
  returned_once : (s.returned.map Prod.fst).Nodup
  destroyed_born : ∀ b ∈ s.destroyed, b < s.born.length
  returned_home : ∀ b i, (b, i) ∈ s.returned → b ∈ s.destroyed ∧
    ∃ x, s.born[b]? = some x ∧ x.pool = i

/-! ## Frames -/

/-- What a context relies on is kept by steps that leave the blocks and handles it works on
alone. -/
theorem Placed.frame {pc : Pc n κ V} (placed : s.Placed t pc)
    (filling : ∀ i ptr, s.use ptr = .filling t → s.Lent i ptr →
      s'.use ptr = .filling t ∧ s'.Lent i ptr)
    (ending : ∀ ptr b, s.use ptr = .ending t b → s'.use ptr = .ending t b ∧
      (b ∈ s'.destroyed ↔ b ∈ s.destroyed))
    (borrows : ∀ h ptr, s.Borrows t h ptr → s'.Borrows t h ptr)
    (drops : ∀ h ptr, s.Drops t h ptr → s'.Drops t h ptr)
    (home : ∀ poolId b, s.Home poolId b → s'.Home poolId b) : s'.Placed t pc := by
  cases pc with
  | idle => trivial
  | alloc => trivial
  | write i ptr value => exact filling i ptr placed.1 placed.2
  | increment h ptr cur => exact ⟨borrows h ptr placed.1, placed.2⟩
  | reading h ptr => exact borrows h ptr placed
  | decrement h ptr cur => exact ⟨drops h ptr placed.1, placed.2⟩
  | last ptr b =>
      obtain ⟨use, undestroyed⟩ := placed
      have kept := ending ptr b use
      exact ⟨kept.1, fun member => undestroyed (kept.2.mp member)⟩
  | destroy poolId ptr b =>
      obtain ⟨use, undestroyed, at_home⟩ := placed
      have kept := ending ptr b use
      exact ⟨kept.1, fun member => undestroyed (kept.2.mp member), home poolId b at_home⟩
  | free poolId ptr b =>
      obtain ⟨use, gone, at_home⟩ := placed
      have kept := ending ptr b use
      exact ⟨kept.1, kept.2.mpr gone, home poolId b at_home⟩
  | halted why => exact placed

theorem Consistent.frame (consistent : s.Consistent ptr) (use : s'.use ptr = s.use ptr)
    (lent : ∀ i, s'.Lent i ptr ↔ s.Lent i ptr) (heap : s'.heap ptr = s.heap ptr)
    (count : s'.count ptr = s.count ptr)
    (born : ∀ (b : Nat) (x : Birth n V), s.born[b]? = some x → s'.born[b]? = some x)
    (destroyed : ∀ b, s.Owned ptr b → b ∉ s.destroyed → b ∉ s'.destroyed)
    (returned : ∀ b, s.Owned ptr b → b ∉ s'.returned.map Prod.fst)
    (owns : ∀ t p, (s.pc t).owns = some (ptr, p) → (s'.pc t).owns = some (ptr, p)) :
    s'.Consistent ptr := by
  have owned (b : Nat) (before : s.Owned ptr b) : s'.Owned ptr b := by
    obtain ⟨_, x, found, here, out, poolId⟩ := id before
    exact ⟨returned b before, x, born b x found, here, (lent x.pool).mpr out,
      by rw [heap]; exact poolId⟩
  unfold Consistent at consistent ⊢
  rw [use, heap, count]
  cases used : s.use ptr with
  | free =>
      rw [used] at consistent
      exact fun i out => consistent i ((lent i).mp out)
  | filling t =>
      rw [used] at consistent
      exact owns t none consistent
  | shared b =>
      rw [used] at consistent
      obtain ⟨before, alive, some_held, few, word, x, found, value⟩ := consistent
      exact ⟨owned b before, destroyed b before alive, some_held, few, word, x, born b x found,
          value⟩
  | ending t b =>
      rw [used] at consistent
      exact ⟨owned b consistent.1, owns t (some b) consistent.2.1, consistent.2.2⟩

/-! ## Transitions -/

theorem Placed.of_rests {pc : Pc n κ V} (placed : s.Placed t pc) (rests : pc.Rests) :
    s'.Placed t pc := by
  cases pc with
  | idle => trivial
  | halted why => exact placed
  | _ => exact rests.elim

section Context

variable [DecidableEq ι] {pc : Pc n κ V}

@[simp] theorem goto_pc_self : (s.goto t pc).pc t = pc := Function.update_self ..

theorem goto_pc_ne (other : t' ≠ t) : (s.goto t pc).pc t' = s.pc t' :=
  Function.update_of_ne other _ _

theorem Inv.goto (inv : s.Inv) (placed : s.Placed t pc) (owns : pc.owns = (s.pc t).owns) :
    (s.goto t pc).Inv := by
  refine ⟨inv.apart, ?_, inv.alone, inv.held, ?_, inv.accounted, inv.destroyed_once,
    inv.returned_once, inv.destroyed_born, inv.returned_home⟩
  · intro t'
    by_cases same : t' = t
    · subst same
      rw [goto_pc_self]
      exact placed
    · rw [goto_pc_ne same]
      exact inv.placed t'
  · intro ptr
    refine (inv.consistent ptr).frame rfl (fun _ => Iff.rfl) rfl rfl (fun _ _ found => found)
      (fun _ _ alive => alive) (fun _ owned => owned.1) ?_
    intro t' p owned
    by_cases same : t' = t
    · subst same
      rw [goto_pc_self, owns]
      exact owned
    · rw [goto_pc_ne same]
      exact owned

end Context

section Handles

variable [DecidableEq κ] {x : Handle ι}

@[simp] theorem setHandle_self : (s.setHandle h x).handle h = x := Function.update_self ..

theorem setHandle_ne (other : h' ≠ h) : (s.setHandle h x).handle h' = s.handle h' :=
  Function.update_of_ne other _ _

theorem repr_setHandle (repr : x.repr = (s.handle h).repr) (h' : κ) :
    ((s.setHandle h x).handle h').repr = (s.handle h').repr := by
  by_cases same : h' = h
  · subst same
    rw [setHandle_self, repr]
  · rw [setHandle_ne same]

theorem count_setHandle (repr : x.repr = (s.handle h).repr) (ptr : Nat) :
    (s.setHandle h x).count ptr = s.count ptr := by
  have live : (s.setHandle h x).live = s.live := rfl
  simp only [count, live, repr_setHandle repr]

theorem Inv.setHandle (inv : s.Inv) (repr : x.repr = (s.handle h).repr)
    (birth : x.birth = (s.handle h).birth) (alone : ∀ t, x.dropper = some t → x.borrowers = ∅)
    (borrows : ∀ t ∈ (s.handle h).borrowers, t ∈ x.borrowers ∨ (s.pc t).Rests)
    (drops : ∀ t, (s.handle h).dropper = some t → x.dropper = some t) : (s.setHandle h x).Inv := by
  have reprs := repr_setHandle (s := s) repr
  have births (h' : κ) : ((s.setHandle h x).handle h').birth = (s.handle h').birth := by
    by_cases same : h' = h
    · subst same
      rw [setHandle_self, birth]
    · rw [setHandle_ne same]
  refine ⟨inv.apart, ?_, ?_, ?_, ?_, inv.accounted, inv.destroyed_once, inv.returned_once,
    inv.destroyed_born, inv.returned_home⟩
  · intro t
    by_cases rests : (s.pc t).Rests
    · exact (inv.placed t).of_rests rests
    · refine (inv.placed t).frame (fun _ _ use lent => ⟨use, lent⟩)
        (fun _ _ use => ⟨use, Iff.rfl⟩) ?_ ?_
        (fun _ _ found => found)
      · rintro h' ptr ⟨live, points, borrowed⟩
        refine ⟨live, (reprs h').trans points, ?_⟩
        by_cases same : h' = h
        · subst same
          rw [setHandle_self]
          exact (borrows t borrowed).resolve_right rests
        · rw [setHandle_ne same]
          exact borrowed
      · rintro h' ptr ⟨live, points, dropped⟩
        refine ⟨live, (reprs h').trans points, ?_⟩
        by_cases same : h' = h
        · subst same
          rw [setHandle_self]
          exact drops t dropped
        · rw [setHandle_ne same]
          exact dropped
  · intro h' t dropped
    by_cases same : h' = h
    · subst same
      rw [setHandle_self] at dropped ⊢
      exact alone t dropped
    · rw [setHandle_ne same] at dropped ⊢
      exact inv.alone h' t dropped
  · intro h' live ptr points
    rw [births]
    exact inv.held h' live ptr ((reprs h').symm.trans points)
  · intro ptr
    exact (inv.consistent ptr).frame rfl (fun _ => Iff.rfl) rfl
      (count_setHandle repr ptr) (fun _ _ found => found) (fun _ _ alive => alive)
      (fun _ owned => owned.1) (fun _ _ owned => owned)

variable [DecidableEq ι]

theorem Inv.borrow (inv : s.Inv) (free : (s.handle h).dropper = none) : (s.borrow t h).Inv := by
  refine inv.setHandle rfl rfl ?_ (fun t' member => Or.inl (Finset.mem_insert_of_mem member))
    (fun _ dropped => dropped)
  intro t' dropped
  rw [free] at dropped
  cases dropped

theorem Inv.unborrow (inv : s.Inv) (rests : (s.pc t).Rests) : (s.unborrow t h).Inv := by
  refine inv.setHandle rfl rfl ?_ ?_ (fun _ dropped => dropped)
  · intro t' dropped
    rw [inv.alone h t' dropped]
    exact Finset.erase_empty t
  · intro t' member
    by_cases same : t' = t
    · subst same
      exact Or.inr rests
    · exact Or.inl (Finset.mem_erase_of_ne_of_mem same member)

end Handles

/-! ## Steps at one block -/

/-- A step of context `t` that concerns the block at `ptr` and no other. -/
structure Local (t : ι) (ptr : Nat) (s s' : Sharing n ι κ V) : Prop where
  pc : ∀ t', t' ≠ t → s'.pc t' = s.pc t'
  use : ∀ a, a ≠ ptr → s'.use a = s.use a
  heap : ∀ a, a ≠ ptr → s'.heap a = s.heap a
  lent : ∀ a, a ≠ ptr → ∀ i, s'.Lent i a ↔ s.Lent i a
  count : ∀ a, a ≠ ptr → s'.count a = s.count a
  born : ∀ (b : Nat) (x : Birth n V), s.born[b]? = some x → s'.born[b]? = some x
  destroyed : ∀ b, ¬s.Owned ptr b → (b ∈ s'.destroyed ↔ b ∈ s.destroyed)
  returned : ∀ b i, ¬s.Owned ptr b → ((b, i) ∈ s'.returned ↔ (b, i) ∈ s.returned)
  borrows : ∀ t', t' ≠ t → ∀ h a, s.Borrows t' h a → s'.Borrows t' h a
  drops : ∀ t', t' ≠ t → ∀ h a, s.Drops t' h a → s'.Drops t' h a
  alone : ∀ t' p, (s.pc t').owns = some (ptr, p) → t' = t
  owns : ∀ a p, (s.pc t).owns = some (a, p) → a = ptr

theorem Owned.unique (here : s.Owned a b) (there : s.Owned ptr b) : a = ptr := by
  obtain ⟨_, x, found, rfl, _⟩ := here
  obtain ⟨_, y, found', rfl, _⟩ := there
  rw [found] at found'
  cases found'
  rfl

theorem Inv.filling (inv : s.Inv) (use : s.use a = .filling t) :
    (s.pc t).owns = some (a, none) := by
  have here := inv.consistent a
  rw [Consistent, use] at here
  exact here

theorem Inv.ending (inv : s.Inv) (use : s.use a = .ending t b) :
    s.Owned a b ∧ (s.pc t).owns = some (a, some b) ∧
      DisAtomicU16.Complementary (s.heap a).refCount := by
  have here := inv.consistent a
  rw [Consistent, use] at here
  exact here

theorem Inv.shared (inv : s.Inv) (use : s.use a = .shared b) :
    s.Owned a b ∧ b ∉ s.destroyed ∧ 0 < s.count a ∧ s.count a ≤ 65535 ∧
      (s.heap a).refCount = DisAtomicU16.pack (UInt16.ofNat (s.count a)) ∧
      ∃ x, s.born[b]? = some x ∧ (s.heap a).value = some x.value := by
  have here := inv.consistent a
  rw [Consistent, use] at here
  exact here

theorem Inv.owns_use (inv : s.Inv) {p : Option Nat} (owns : (s.pc t).owns = some (a, p)) :
    (p = none ∧ s.use a = .filling t) ∨ ∃ b, p = some b ∧ s.use a = .ending t b := by
  have placed := inv.placed t
  generalize s.pc t = pc at owns placed
  cases pc with
  | write i ptr value =>
      cases owns
      exact Or.inl ⟨rfl, placed.1⟩
  | last ptr b =>
      cases owns
      exact Or.inr ⟨b, rfl, placed.1⟩
  | destroy poolId ptr b =>
      cases owns
      exact Or.inr ⟨b, rfl, placed.1⟩
  | free poolId ptr b =>
      cases owns
      exact Or.inr ⟨b, rfl, placed.1⟩
  | _ => cases owns

theorem Inv.owned_use (inv : s.Inv) (owned : s.Owned a b) :
    s.use a = .shared b ∨ ∃ t, s.use a = .ending t b := by
  obtain ⟨fresh, x, found, rfl, _⟩ := owned
  rcases inv.accounted b x found with shared | ending | ⟨_, back⟩
  · exact Or.inl shared
  · exact Or.inr ending
  · exact absurd (List.mem_map_of_mem back) fresh

theorem Local.placed (loc : Local t ptr s s') (inv : s.Inv) (other : t' ≠ t) :
    s'.Placed t' (s'.pc t') := by
  rw [loc.pc t' other]
  refine (inv.placed t').frame ?_ ?_ (loc.borrows t' other) (loc.drops t' other) ?_
  · intro i a use lent
    have elsewhere : a ≠ ptr := by
      rintro rfl
      exact other (loc.alone t' _ (inv.filling use))
    exact ⟨(loc.use a elsewhere).trans use, (loc.lent a elsewhere i).mpr lent⟩
  · intro a b use
    obtain ⟨owned, owns, _⟩ := inv.ending use
    have elsewhere : a ≠ ptr := by
      rintro rfl
      exact other (loc.alone t' _ owns)
    exact ⟨(loc.use a elsewhere).trans use,
      loc.destroyed b fun there => elsewhere (owned.unique there)⟩
  · rintro poolId b ⟨x, found, same⟩
    exact ⟨x, loc.born b x found, same⟩

theorem Local.consistent (loc : Local t ptr s s') (inv : s.Inv) (elsewhere : a ≠ ptr) :
    s'.Consistent a := by
  have apart (b : Nat) (owned : s.Owned a b) : ¬s.Owned ptr b :=
    fun there => elsewhere (owned.unique there)
  refine (inv.consistent a).frame (loc.use a elsewhere) (loc.lent a elsewhere)
    (loc.heap a elsewhere) (loc.count a elsewhere) loc.born ?_ ?_ ?_
  · intro b owned alive gone
    exact alive ((loc.destroyed b (apart b owned)).mp gone)
  · intro b owned member
    obtain ⟨⟨b, i⟩, entry, rfl⟩ := List.mem_map.mp member
    exact owned.1 (List.mem_map_of_mem ((loc.returned b i (apart b owned)).mp entry))
  · intro t' p owns
    by_cases same : t' = t
    · subst same
      exact absurd (loc.owns a p owns) elsewhere
    · rw [loc.pc t' same]
      exact owns

theorem Local.accounted (loc : Local t ptr s s') (inv : s.Inv) {x : Birth n V}
    (found : s.born[b]? = some x) (other : ¬s.Owned ptr b) : s'.Accounted b x := by
  rcases inv.accounted b x found with shared | ⟨t', ending⟩ | ⟨gone, back⟩
  · have elsewhere : x.ptr ≠ ptr := by
      intro here
      rw [here] at shared
      exact other (inv.shared shared).1
    exact Or.inl ((loc.use x.ptr elsewhere).trans shared)
  · have elsewhere : x.ptr ≠ ptr := by
      intro here
      rw [here] at ending
      exact other (inv.ending ending).1
    exact Or.inr (Or.inl ⟨t', (loc.use x.ptr elsewhere).trans ending⟩)
  · exact Or.inr (Or.inr ⟨(loc.destroyed b other).mpr gone, (loc.returned b x.pool other).mpr back⟩)

theorem Inv.owned_ending (inv : s.Inv) (use : s.use a = .ending t b) (there : s.Owned a b') :
    b' = b := by
  rcases inv.owned_use there with shared | ⟨t', ending⟩
  · rw [use] at shared
    cases shared
  · rw [use] at ending
    cases ending
    rfl

theorem Inv.owner_ending (inv : s.Inv) (use : s.use a = .ending t b) {p : Option Nat}
    (owns : (s.pc t').owns = some (a, p)) : t' = t := by
  rcases inv.owns_use owns with ⟨_, filling⟩ | ⟨_, _, ending⟩
  · rw [use] at filling
    cases filling
  · rw [use] at ending
    cases ending
    rfl

theorem Inv.owner_filling (inv : s.Inv) (use : s.use a = .filling t) {p : Option Nat}
    (owns : (s.pc t').owns = some (a, p)) : t' = t := by
  rcases inv.owns_use owns with ⟨_, filling⟩ | ⟨_, _, ending⟩
  · rw [use] at filling
    cases filling
    rfl
  · rw [use] at ending
    cases ending

theorem Local.placed_all (loc : Local t ptr s s') (inv : s.Inv) (here : s'.Placed t (s'.pc t))
    (t' : ι) : s'.Placed t' (s'.pc t') := by
  by_cases same : t' = t
  · rw [same]
    exact here
  · exact loc.placed inv same

theorem Local.consistent_all (loc : Local t ptr s s') (inv : s.Inv) (here : s'.Consistent ptr)
    (a : Nat) : s'.Consistent a := by
  by_cases same : a = ptr
  · rw [same]
    exact here
  · exact loc.consistent inv same

theorem Local.held (loc : Local t ptr s s') (inv : s.Inv) (unshared : ∀ b, s.use ptr ≠ .shared b)
    (live : h ∈ s.live) (points : (s.handle h).repr = some a) :
    s'.use a = .shared (s.handle h).birth := by
  have use := inv.held h live a points
  have other : a ≠ ptr := by
    intro same
    rw [same] at use
    exact unshared _ use
  exact (loc.use a other).trans use

section Count

variable [DecidableEq κ]

@[simp] theorem addHandle_self {p : Option Nat} {k : Nat} :
    (s.addHandle h p k).handle h = ⟨p, ∅, none, k⟩ := Function.update_self ..

theorem addHandle_ne {p : Option Nat} {k : Nat} (other : h' ≠ h) :
    (s.addHandle h p k).handle h' = s.handle h' := Function.update_of_ne other _ _

theorem addHandle_live {p : Option Nat} {k : Nat} (fresh : h ∉ s.live) (live : h' ∈ s.live) :
    (s.addHandle h p k).handle h' = s.handle h' := by
  refine addHandle_ne ?_
  rintro rfl
  exact fresh live

theorem count_addHandle {p : Option Nat} {k : Nat} (fresh : h ∉ s.live) (ptr : Nat) :
    (s.addHandle h p k).count ptr = s.count ptr + if p = some ptr then 1 else 0 := by
  have same : (s.live.filter fun h' => ((s.addHandle h p k).handle h').repr = some ptr) =
      s.live.filter fun h' => (s.handle h').repr = some ptr := by
    refine Finset.filter_congr ?_
    intro h' member
    rw [addHandle_live fresh member]
  have live : (s.addHandle h p k).live = insert h s.live := rfl
  rw [count, live, Finset.filter_insert, same, addHandle_self]
  split
  · rw [Finset.card_insert_of_notMem fun member => fresh (Finset.mem_filter.mp member).1, count]
  · rfl

theorem count_removeHandle (live : h ∈ s.live) (ptr : Nat) :
    (s.removeHandle h).count ptr + (if (s.handle h).repr = some ptr then 1 else 0) =
      s.count ptr := by
  have rest : (s.removeHandle h).count ptr =
      ((s.live.filter fun h' => (s.handle h').repr = some ptr).erase h).card := by
    rw [← Finset.filter_erase]
    rfl
  rw [rest]
  split
  · rename_i points
    exact Finset.card_erase_add_one (Finset.mem_filter.mpr ⟨live, points⟩)
  · rename_i other
    have absent : h ∉ s.live.filter fun h' => (s.handle h').repr = some ptr :=
      fun member => other (Finset.mem_filter.mp member).2
    rw [Finset.erase_eq_of_notMem absent]
    rfl

end Count

/-! ## Handles that come and go -/

section Handling

variable {v : UInt16}

theorem Inv.recounted (inv : s.Inv) (use : s.use ptr = .shared b) (use' : s'.use = s.use)
    (slots : s'.slots = s.slots) (born : s'.born = s.born) (destroyed : s'.destroyed = s.destroyed)
    (returned : s'.returned = s.returned)
    (heap : s'.heap ptr = { s.heap ptr with refCount := DisAtomicU16.pack v })
    (positive : 0 < s'.count ptr) (few : s'.count ptr ≤ 65535)
    (next : v = UInt16.ofNat (s'.count ptr)) : s'.Consistent ptr := by
  obtain ⟨⟨fresh, x, found, here, lent, poolId⟩, alive, _, _, _, y, found', value⟩ := inv.shared use
  rw [Consistent, use', use]
  refine ⟨⟨?_, x, ?_, here, ?_, ?_⟩, ?_, positive, few, ?_, y, ?_, ?_⟩
  · rw [returned]
    exact fresh
  · rw [born]
    exact found
  · rw [Lent, slots]
    exact lent
  · rw [heap]
    exact poolId
  · rw [destroyed]
    exact alive
  · rw [heap, next]
  · rw [born]
    exact found'
  · rw [heap]
    exact value

@[simp] theorem setCount_self :
    (s.setCount ptr v).heap ptr = { s.heap ptr with refCount := DisAtomicU16.pack v } :=
  Function.update_self ..

theorem setCount_ne (other : a ≠ ptr) : (s.setCount ptr v).heap a = s.heap a :=
  Function.update_of_ne other _ _

variable [DecidableEq κ]

theorem Inv.addEmpty (inv : s.Inv) (fresh : h ∉ s.live) : (s.addHandle h none 0).Inv := by
  have counts (ptr : Nat) : (s.addHandle h none 0).count ptr = s.count ptr :=
    count_addHandle fresh ptr
  refine ⟨inv.apart, ?_, ?_, ?_, ?_, inv.accounted, inv.destroyed_once, inv.returned_once,
    inv.destroyed_born, inv.returned_home⟩
  · intro t
    refine (inv.placed t).frame (fun _ _ use lent => ⟨use, lent⟩)
      (fun _ _ use => ⟨use, Iff.rfl⟩) ?_ ?_
      (fun _ _ found => found)
    · rintro h' ptr ⟨live, points, borrowed⟩
      rw [← addHandle_live fresh live] at points borrowed
      exact ⟨Finset.mem_insert_of_mem live, points, borrowed⟩
    · rintro h' ptr ⟨live, points, dropped⟩
      rw [← addHandle_live fresh live] at points dropped
      exact ⟨Finset.mem_insert_of_mem live, points, dropped⟩
  · intro h' t dropped
    by_cases same : h' = h
    · subst same
      rw [addHandle_self]
    · rw [addHandle_ne same] at dropped ⊢
      exact inv.alone h' t dropped
  · intro h' live ptr points
    by_cases same : h' = h
    · subst same
      rw [addHandle_self] at points
      cases points
    · rw [addHandle_ne same] at points ⊢
      exact inv.held h' (Finset.mem_of_mem_insert_of_ne live same) ptr points
  · intro ptr
    exact (inv.consistent ptr).frame rfl (fun _ => Iff.rfl) rfl (counts ptr)
      (fun _ _ found => found) (fun _ _ alive => alive) (fun _ owned => owned.1)
      (fun _ _ owned => owned)

theorem Inv.acquire (inv : s.Inv) (fresh : h ∉ s.live) (use : s.use ptr = .shared b)
    (few : s.count ptr < 65535) (next : v = UInt16.ofNat (s.count ptr + 1)) :
    ((s.setCount ptr v).addHandle h (some ptr) b).Inv := by
  have counts (a : Nat) : ((s.setCount ptr v).addHandle h (some ptr) b).count a =
      s.count a + if some ptr = some a then 1 else 0 :=
    count_addHandle (s := s.setCount ptr v) fresh a
  have count_here := counts ptr
  rw [if_pos rfl] at count_here
  refine ⟨inv.apart, ?_, ?_, ?_, ?_, inv.accounted, inv.destroyed_once, inv.returned_once,
    inv.destroyed_born, inv.returned_home⟩
  · intro t
    refine (inv.placed t).frame (fun _ _ use lent => ⟨use, lent⟩)
      (fun _ _ use => ⟨use, Iff.rfl⟩) ?_ ?_
      (fun _ _ found => found)
    · rintro h' a ⟨live, points, borrowed⟩
      have same := addHandle_live (s := s.setCount ptr v) (p := some ptr) (k := b) fresh live
      refine ⟨Finset.mem_insert_of_mem live, ?_, ?_⟩
      · rw [same]
        exact points
      · rw [same]
        exact borrowed
    · rintro h' a ⟨live, points, dropped⟩
      have same := addHandle_live (s := s.setCount ptr v) (p := some ptr) (k := b) fresh live
      refine ⟨Finset.mem_insert_of_mem live, ?_, ?_⟩
      · rw [same]
        exact points
      · rw [same]
        exact dropped
  · intro h' t dropped
    by_cases same : h' = h
    · subst same
      rw [addHandle_self]
    · rw [addHandle_ne same] at dropped ⊢
      exact inv.alone h' t dropped
  · intro h' live a points
    by_cases same : h' = h
    · subst same
      rw [addHandle_self] at points ⊢
      cases points
      exact use
    · rw [addHandle_ne same] at points ⊢
      exact inv.held h' (Finset.mem_of_mem_insert_of_ne live same) a points
  · intro a
    by_cases same : a = ptr
    · subst same
      refine inv.recounted use rfl rfl rfl rfl rfl setCount_self ?_ ?_ ?_
      · omega
      · omega
      · rw [count_here]
        exact next
    · have count : ((s.setCount ptr v).addHandle h (some ptr) b).count a = s.count a := by
        rw [counts, if_neg fun points => same (Option.some.inj points).symm]
        rfl
      exact (inv.consistent a).frame rfl (fun _ => Iff.rfl) (setCount_ne same) count
        (fun _ _ found => found) (fun _ _ alive => alive) (fun _ owned => owned.1)
        (fun _ _ owned => owned)

theorem released_borrows (alone : (s.handle h).borrowers = ∅) (borrows : s.Borrows t h' a) :
    h' ∈ s.live.erase h := by
  refine Finset.mem_erase_of_ne_of_mem ?_ borrows.1
  rintro rfl
  have none_left := borrows.2.2
  rw [alone] at none_left
  exact Finset.notMem_empty t none_left

theorem released_drops (owner : (s.handle h).dropper = some t') (other : t ≠ t')
    (drops : s.Drops t h' a) : h' ∈ s.live.erase h := by
  refine Finset.mem_erase_of_ne_of_mem ?_ drops.1
  rintro rfl
  have same := drops.2.2
  rw [owner] at same
  exact other (Option.some.inj same).symm

theorem Inv.release (inv : s.Inv) (live : h ∈ s.live) (points : (s.handle h).repr = some ptr)
    (owner : (s.handle h).dropper = some t) (rests : (s.pc t).Rests) (more : 1 < s.count ptr)
    (next : v = UInt16.ofNat (s.count ptr - 1)) :
    ((s.setCount ptr v).removeHandle h).Inv := by
  have use := inv.held h live ptr points
  have alone := inv.alone h t owner
  obtain ⟨_, _, _, few, _⟩ := inv.shared use
  have counts (a : Nat) : ((s.setCount ptr v).removeHandle h).count a +
      (if (s.handle h).repr = some a then 1 else 0) = s.count a :=
    count_removeHandle (s := s.setCount ptr v) live a
  have count_here := counts ptr
  rw [if_pos points] at count_here
  have next_count : ((s.setCount ptr v).removeHandle h).count ptr = s.count ptr - 1 := by omega
  refine ⟨inv.apart, ?_, inv.alone, ?_, ?_, inv.accounted, inv.destroyed_once, inv.returned_once,
    inv.destroyed_born, inv.returned_home⟩
  · intro t'
    by_cases same : t' = t
    · subst same
      exact (inv.placed t').of_rests rests
    · exact (inv.placed t').frame (fun _ _ use lent => ⟨use, lent⟩) (fun _ _ use => ⟨use, Iff.rfl⟩)
        (fun h' a borrows => ⟨released_borrows alone borrows, borrows.2⟩)
        (fun h' a drops => ⟨released_drops owner same drops, drops.2⟩) (fun _ _ found => found)
  · intro h' live' a points'
    exact inv.held h' (Finset.mem_of_mem_erase live') a points'
  · intro a
    by_cases same : a = ptr
    · subst same
      refine inv.recounted use rfl rfl rfl rfl rfl setCount_self ?_ ?_ ?_
      · omega
      · omega
      · rw [next_count]
        exact next
    · have count_there := counts a
      rw [points, if_neg fun here => same (Option.some.inj here).symm] at count_there
      exact (inv.consistent a).frame rfl (fun _ => Iff.rfl) (setCount_ne same) count_there
        (fun _ _ found => found) (fun _ _ alive => alive) (fun _ owned => owned.1)
        (fun _ _ owned => owned)

theorem Inv.releaseLast [DecidableEq ι] (inv : s.Inv) (live : h ∈ s.live)
    (points : (s.handle h).repr = some ptr) (owner : (s.handle h).dropper = some t)
    (unowned : (s.pc t).owns = none) (last : s.count ptr = 1) :
    ((((s.setCount ptr v).removeHandle h).setUse ptr (.ending t (s.handle h).birth)).goto t
      (.last ptr (s.handle h).birth)).Inv := by
  have use := inv.held h live ptr points
  have alone := inv.alone h t owner
  obtain ⟨owned, alive, _⟩ := inv.shared use
  have counts (a : Nat) : ((s.setCount ptr v).removeHandle h).count a +
      (if (s.handle h).repr = some a then 1 else 0) = s.count a :=
    count_removeHandle (s := s.setCount ptr v) live a
  have none_left := counts ptr
  rw [if_pos points, last] at none_left
  have loc : Local t ptr s ((((s.setCount ptr v).removeHandle h).setUse ptr
      (.ending t (s.handle h).birth)).goto t (.last ptr (s.handle h).birth)) := by
    refine ⟨fun t' other => goto_pc_ne other, fun a other => Function.update_of_ne other _ _,
      fun a other => setCount_ne other, fun _ _ _ => Iff.rfl, ?_, fun _ _ found => found,
      fun _ _ => Iff.rfl, fun _ _ _ => Iff.rfl, ?_, ?_, ?_, ?_⟩
    · intro a other
      have count_there := counts a
      rwa [points, if_neg fun here => other (Option.some.inj here).symm] at count_there
    · exact fun t' _ h' a borrows => ⟨released_borrows alone borrows, borrows.2⟩
    · exact fun t' other h' a drops => ⟨released_drops owner other drops, drops.2⟩
    · intro t' p owns
      rcases inv.owns_use owns with ⟨_, filling⟩ | ⟨_, _, ending⟩
      · rw [use] at filling
        cases filling
      · rw [use] at ending
        cases ending
    · intro a p owns
      rw [unowned] at owns
      cases owns
  have moved : ((((s.setCount ptr v).removeHandle h).setUse ptr
      (.ending t (s.handle h).birth)).goto t (.last ptr (s.handle h).birth)).use ptr =
        .ending t (s.handle h).birth := Function.update_self ..
  refine ⟨inv.apart, ?_, inv.alone, ?_, ?_, ?_, inv.destroyed_once, inv.returned_once,
    inv.destroyed_born, inv.returned_home⟩
  · refine loc.placed_all inv ?_
    rw [goto_pc_self]
    exact ⟨moved, alive⟩
  · intro h' live' a points'
    have other : a ≠ ptr := by
      rintro rfl
      have still : 0 < ((s.setCount a v).removeHandle h).count a :=
        Finset.card_pos.mpr ⟨h', Finset.mem_filter.mpr ⟨live', points'⟩⟩
      omega
    exact (loc.use a other).trans (inv.held h' (Finset.mem_of_mem_erase live') a points')
  · refine loc.consistent_all inv ?_
    obtain ⟨fresh, x, found, here, lent, poolId⟩ := owned
    rw [Consistent, moved]
    refine ⟨⟨fresh, x, found, here, lent, ?_⟩, ?_, ?_⟩
    · show ((s.setCount ptr v).heap ptr).poolId = _
      rw [setCount_self]
      exact poolId
    · rw [goto_pc_self]
      rfl
    · show DisAtomicU16.Complementary ((s.setCount ptr v).heap ptr).refCount
      rw [setCount_self]
      exact DisAtomicU16.pack_complementary v
  · intro b x logged
    have found : s.born[b]? = some x := logged
    by_cases same : s.Owned ptr b
    · obtain ⟨_, y, found', here, _⟩ := id same
      rw [found] at found'
      cases found'
      refine Or.inr (Or.inl ⟨t, ?_⟩)
      rw [here, moved]
      rcases inv.owned_use same with shared | ⟨_, ending⟩
      · rw [use] at shared
        cases shared
        rfl
      · rw [use] at ending
        cases ending
    · exact loc.accounted inv found same

theorem Inv.dropEmpty (inv : s.Inv) (live : h ∈ s.live) (empty : (s.handle h).repr = none) :
    (s.removeHandle h).Inv := by
  have counts (a : Nat) : (s.removeHandle h).count a = s.count a := by
    have removed := count_removeHandle live a
    rwa [empty, if_neg (Option.some_ne_none a).symm] at removed
  have pooled {h' : κ} {a : Nat} (live : h' ∈ s.live) (points : (s.handle h').repr = some a) :
      h' ∈ s.live.erase h := by
    refine Finset.mem_erase_of_ne_of_mem ?_ live
    rintro rfl
    rw [empty] at points
    cases points
  refine ⟨inv.apart, ?_, inv.alone, ?_, ?_, inv.accounted, inv.destroyed_once, inv.returned_once,
    inv.destroyed_born, inv.returned_home⟩
  · intro t
    exact (inv.placed t).frame (fun _ _ use lent => ⟨use, lent⟩) (fun _ _ use => ⟨use, Iff.rfl⟩)
      (fun h' a borrows => ⟨pooled borrows.1 borrows.2.1, borrows.2⟩)
      (fun h' a drops => ⟨pooled drops.1 drops.2.1, drops.2⟩) (fun _ _ found => found)
  · intro h' live' a points
    exact inv.held h' (Finset.mem_of_mem_erase live') a points
  · intro a
    exact (inv.consistent a).frame rfl (fun _ => Iff.rfl) rfl (counts a)
      (fun _ _ found => found) (fun _ _ alive => alive) (fun _ owned => owned.1)
      (fun _ _ owned => owned)

end Handling

end Sharing

end QpRs.Pool
