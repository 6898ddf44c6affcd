import QpRs.Lib.Run
import QpRs.Pool.Lifecycle
import QpRs.Pool.QMPool

/-! Blocks taken, written and given back under any interleaving: the drop of the last handle runs
the destructor and returns the block, once. -/

namespace QpRs.Pool

open QpRs.Lib

variable {n : Nat} {ι κ V : Type}

namespace Sharing

variable {s s' : Sharing n ι κ V} {t t' : ι} {h h' : κ} {ptr a b : Nat}

theorem Inv.lent_of_used (inv : s.Inv) (used : s.use a ≠ .free) : ∃ i, s.Lent i a := by
  cases use : s.use a with
  | free => exact absurd use used
  | filling t =>
      have placed := inv.placed t
      have owns := inv.filling use
      generalize s.pc t = pc at owns placed
      cases pc with
      | write i ptr value =>
          cases owns
          exact ⟨i, placed.2⟩
      | _ => cases owns
  | shared b =>
      obtain ⟨⟨_, x, _, _, lent, _⟩, _⟩ := inv.shared use
      exact ⟨x.pool, lent⟩
  | ending t b =>
      obtain ⟨⟨_, x, _, _, lent, _⟩, _⟩ := inv.ending use
      exact ⟨x.pool, lent⟩

theorem Inv.lent_once (inv : s.Inv) {i j : Fin n} (here : a ∈ (s.slots i).stock.all)
    (lent : s.Lent j a) : j = i :=
  inv.apart j i a lent.1 here

theorem Inv.not_owned (inv : s.Inv) (shared : ∀ b, s.use a ≠ .shared b)
    (ending : ∀ t b, s.use a ≠ .ending t b) (b : Nat) : ¬s.Owned a b := by
  intro owned
  rcases inv.owned_use owned with use | ⟨t, use⟩
  · exact shared b use
  · exact ending t b use

theorem Inv.count_zero (inv : s.Inv) (unshared : ∀ b, s.use a ≠ .shared b) : s.count a = 0 := by
  refine Finset.card_eq_zero.mpr (Finset.filter_eq_empty_iff.mpr ?_)
  intro h live points
  exact unshared _ (inv.held h live a points)

theorem pool_le (few : n ≤ MAX_POOLS) (i : Fin n) : (i + 1 : Nat) ≤ 255 := by
  have bound := i.isLt
  simp only [MAX_POOLS] at few
  omega

section Blocks

variable {i : Fin n} {stock : Stock Nat} {value : V}

@[simp] theorem setSlot_self : ((s.setSlot i stock).slots i).stock = stock := by
  have slot : (s.setSlot i stock).slots i = { s.slots i with stock := stock } :=
    Function.update_self ..
  rw [slot]

theorem setSlot_ne {j : Fin n} (other : j ≠ i) : (s.setSlot i stock).slots j = s.slots j :=
  Function.update_of_ne other _ _

theorem Inv.apart_setSlot (inv : s.Inv) (all : stock.all = (s.slots i).stock.all) (j k : Fin n)
    (ptr : Nat) (left : ptr ∈ ((s.setSlot i stock).slots j).stock.all)
    (right : ptr ∈ ((s.setSlot i stock).slots k).stock.all) : j = k := by
  have same (j : Fin n) : ((s.setSlot i stock).slots j).stock.all = (s.slots j).stock.all := by
    by_cases here : j = i
    · subst here
      rw [setSlot_self, all]
    · rw [setSlot_ne here]
  rw [same] at left right
  exact inv.apart j k ptr left right

variable [DecidableEq ι]

theorem Inv.takeBlock (inv : s.Inv) {ptr : Nat} (owns : (s.pc t).owns = none)
    (granted : (s.slots i).stock.get 0 = (some ptr, stock)) :
    (((s.setSlot i stock).setUse ptr (.filling t)).goto t (.write i ptr value)).Inv := by
  have granted_fst : ((s.slots i).stock.get 0).1 = some ptr := by rw [granted]
  obtain ⟨shape, all, _⟩ := Stock.get_some granted_fst
  obtain ⟨unlent, lent⟩ := Stock.get_lent granted_fst
  rw [granted] at all lent
  have owned_all : ptr ∈ (s.slots i).stock.all := by
    refine (s.slots i).stock.owned ptr ?_
    rw [shape]
    exact List.mem_cons_self
  have unused : s.use ptr = .free := by
    by_contra used
    obtain ⟨j, lent_there⟩ := inv.lent_of_used used
    have same := inv.lent_once owned_all lent_there
    subst same
    exact unlent lent_there
  have unshared (b : Nat) : s.use ptr ≠ .shared b := by
    rw [unused]
    nofun
  have no_end (t : ι) (b : Nat) : s.use ptr ≠ .ending t b := by
    rw [unused]
    nofun
  have loc : Local t ptr s
      (((s.setSlot i stock).setUse ptr (.filling t)).goto t (.write i ptr value)) := by
    refine ⟨fun t' other => goto_pc_ne other, fun a other => Function.update_of_ne other _ _,
      fun _ _ => rfl, ?_, fun _ _ => rfl, fun _ _ found => found, fun _ _ => Iff.rfl,
      fun _ _ _ => Iff.rfl, fun _ _ _ _ borrows => borrows, fun _ _ _ _ drops => drops, ?_, ?_⟩
    · intro a other j
      show ((s.setSlot i stock).slots j).stock.Lent a ↔ _
      by_cases here : j = i
      · subst here
        rw [setSlot_self, lent]
        exact or_iff_right other
      · rw [setSlot_ne here]
        rfl
    · intro t' p owns'
      rcases inv.owns_use owns' with ⟨_, filling⟩ | ⟨_, _, ending⟩
      · rw [unused] at filling
        cases filling
      · rw [unused] at ending
        cases ending
    · intro a p owns'
      rw [owns] at owns'
      cases owns'
  refine ⟨inv.apart_setSlot all, ?_, inv.alone, ?_, ?_, ?_, inv.destroyed_once,
    inv.returned_once, inv.destroyed_born, inv.returned_home⟩
  · refine loc.placed_all inv ?_
    rw [goto_pc_self]
    refine ⟨Function.update_self .., ?_⟩
    show ((s.setSlot i stock).slots i).stock.Lent ptr
    rw [setSlot_self, lent]
    exact Or.inl rfl
  · intro h live a points
    exact loc.held inv unshared live points
  · refine loc.consistent_all inv ?_
    have moved : (((s.setSlot i stock).setUse ptr (.filling t)).goto t (.write i ptr value)).use
        ptr = .filling t := Function.update_self ..
    rw [Consistent, moved]
    dsimp only
    rw [goto_pc_self]
    rfl
  · intro b x found
    exact loc.accounted inv found (inv.not_owned unshared no_end b)

theorem Inv.destroyed (inv : s.Inv) {poolId ptr b : Nat} (pc : s.pc t = .destroy poolId ptr b) :
    (s.destroyValue ptr b |>.goto t (.free poolId ptr b)).Inv := by
  have placed := inv.placed t
  rw [pc] at placed
  obtain ⟨use, alive, home⟩ := placed
  obtain ⟨owned, _, word⟩ := inv.ending use
  have loc : Local t ptr s (s.destroyValue ptr b |>.goto t (.free poolId ptr b)) := by
    refine ⟨fun t' other => goto_pc_ne other, fun _ _ => rfl,
      fun a other => Function.update_of_ne other _ _, fun _ _ _ => Iff.rfl, fun _ _ => rfl,
      fun _ _ found => found, ?_, fun _ _ _ => Iff.rfl, fun _ _ _ _ borrows => borrows,
      fun _ _ _ _ drops => drops, ?_, ?_⟩
    · intro b' other
      refine List.mem_append.trans (or_iff_left ?_)
      intro same
      rw [List.mem_singleton.mp same] at other
      exact other owned
    · intro t' p owns
      exact inv.owner_ending use owns
    · intro a p owns
      rw [pc] at owns
      cases owns
      rfl
  refine ⟨inv.apart, ?_, inv.alone, inv.held, ?_, ?_, ?_, inv.returned_once, ?_, ?_⟩
  · refine loc.placed_all inv ?_
    rw [goto_pc_self]
    exact ⟨use, List.mem_append_right _ List.mem_cons_self, home⟩
  · refine loc.consistent_all inv ?_
    have kept : (s.destroyValue ptr b |>.goto t (.free poolId ptr b)).use ptr = .ending t b := use
    obtain ⟨fresh, x, found, here, lent, poolId'⟩ := owned
    have block : (s.destroyValue ptr b |>.goto t (.free poolId ptr b)).heap ptr =
        { s.heap ptr with value := none } := Function.update_self ..
    rw [Consistent, kept]
    refine ⟨⟨fresh, x, found, here, lent, ?_⟩, ?_, ?_⟩
    · rw [block]
      exact poolId'
    · rw [goto_pc_self]
      rfl
    · rw [block]
      exact word
  · intro b' x logged
    have found : s.born[b']? = some x := logged
    by_cases same : s.Owned ptr b'
    · have numbered := inv.owned_ending use same
      subst numbered
      obtain ⟨_, y, found', here, _⟩ := same
      rw [found] at found'
      cases found'
      refine Or.inr (Or.inl ⟨t, ?_⟩)
      rw [here]
      exact use
    · exact loc.accounted inv found same
  · exact List.nodup_append.mpr ⟨inv.destroyed_once, List.nodup_singleton b, by
      intro a member c single
      rw [List.mem_singleton.mp single]
      rintro rfl
      exact alive member⟩
  · intro b' member
    rcases List.mem_append.mp member with before | now
    · exact inv.destroyed_born b' before
    · obtain ⟨_, x, found, _⟩ := owned
      rw [List.mem_singleton.mp now]
      exact (List.getElem?_eq_some_iff.mp found).1
  · intro b' j member
    have back := inv.returned_home b' j member
    exact ⟨List.mem_append_left _ back.1, back.2⟩

theorem Inv.freed (inv : s.Inv) {poolId ptr b : Nat} {junk : Block V}
    (pc : s.pc t = .free poolId ptr b) : ((s.freeBlock poolId ptr b junk).goto t .idle).Inv := by
  have placed := inv.placed t
  rw [pc] at placed
  obtain ⟨use, gone, y, found, rfl⟩ := placed
  obtain ⟨owned, _⟩ := inv.ending use
  obtain ⟨fresh, x, found', here, lent, _⟩ := id owned
  rw [found] at found'
  cases found'
  obtain ⟨_, all, _, lent'⟩ := Stock.put_lent lent
  have inside : (y.pool : Nat) + 1 - 1 < n := by
    rw [Nat.add_sub_cancel]
    exact y.pool.isLt
  have pool : (⟨(y.pool : Nat) + 1 - 1, inside⟩ : Fin n) = y.pool := Fin.ext (Nat.add_sub_cancel ..)
  rw [freeBlock, dif_pos inside, pool]
  have slot (j : Fin n) (a : Nat) : ((s.putBack y.pool ptr b junk).goto t .idle).Lent j a ↔
      (j ≠ y.pool ∨ a ≠ ptr) ∧ s.Lent j a := by
    show ((s.setSlot y.pool ((s.slots y.pool).stock.put ptr)).slots j).stock.Lent a ↔ _
    by_cases same : j = y.pool
    · subst same
      rw [setSlot_self, lent']
      simp [Lent]
    · rw [setSlot_ne same]
      simp [same, Lent]
  have freed : ((s.putBack y.pool ptr b junk).goto t .idle).use ptr = .free :=
    Function.update_self ..
  have loc : Local t ptr s ((s.putBack y.pool ptr b junk).goto t .idle) := by
    refine ⟨fun t' other => goto_pc_ne other, fun a other => Function.update_of_ne other _ _,
      fun a other => Function.update_of_ne other _ _, ?_, fun _ _ => rfl, fun _ _ found => found,
      fun _ _ => Iff.rfl, ?_, fun _ _ _ _ borrows => borrows, fun _ _ _ _ drops => drops, ?_, ?_⟩
    · intro a other j
      rw [slot]
      exact and_iff_right (Or.inr other)
    · intro b' j other
      refine List.mem_append.trans (or_iff_left ?_)
      intro same
      cases List.mem_singleton.mp same
      exact other owned
    · intro t' p owns
      exact inv.owner_ending use owns
    · intro a p owns
      rw [pc] at owns
      cases owns
      rfl
  refine ⟨inv.apart_setSlot all, ?_, inv.alone, ?_, ?_, ?_, inv.destroyed_once, ?_,
    inv.destroyed_born, ?_⟩
  · refine loc.placed_all inv ?_
    rw [goto_pc_self]
    trivial
  · intro h live a points
    refine loc.held inv ?_ live points
    rw [use]
    simp
  · refine loc.consistent_all inv ?_
    rw [Consistent, freed]
    intro j out
    obtain ⟨elsewhere, lent_there⟩ := (slot j ptr).mp out
    rcases elsewhere with other | other
    · exact other (inv.lent_once lent.1 lent_there)
    · exact other rfl
  · intro b' x logged
    have found'' : s.born[b']? = some x := logged
    by_cases same : s.Owned ptr b'
    · have numbered := inv.owned_ending use same
      rw [numbered, found] at found''
      cases found''
      rw [numbered]
      exact Or.inr (Or.inr ⟨gone, List.mem_append_right _ List.mem_cons_self⟩)
    · exact loc.accounted inv found'' same
  · show ((s.returned ++ [(b, y.pool)]).map Prod.fst).Nodup
    rw [List.map_append]
    refine List.nodup_append.mpr ⟨inv.returned_once, List.nodup_singleton b, ?_⟩
    intro a member c single
    rw [List.mem_singleton.mp single]
    rintro rfl
    exact fresh member
  · intro b' j member
    rcases List.mem_append.mp member with before | now
    · exact inv.returned_home b' j before
    · cases List.mem_singleton.mp now
      exact ⟨gone, y, found, rfl⟩

theorem Inv.written [DecidableEq κ] (inv : s.Inv) (few : n ≤ MAX_POOLS) {ptr : Nat}
    (pc : s.pc t = .write i ptr value) (fresh : h ∉ s.live) :
    (((s.writeBlock i ptr value).addHandle h (some ptr) s.born.length).goto t .idle).Inv := by
  have placed := inv.placed t
  rw [pc] at placed
  obtain ⟨use, lent⟩ := placed
  have unshared (b : Nat) : s.use ptr ≠ .shared b := by
    rw [use]
    nofun
  have no_end (t' : ι) (b : Nat) : s.use ptr ≠ .ending t' b := by
    rw [use]
    nofun
  have counts (a : Nat) :
      (((s.writeBlock i ptr value).addHandle h (some ptr) s.born.length).goto t .idle).count a =
        s.count a + if some ptr = some a then 1 else 0 :=
    count_addHandle (s := s.writeBlock i ptr value) fresh a
  have same_handle {h' : κ} (live : h' ∈ s.live) :
      (((s.writeBlock i ptr value).addHandle h (some ptr) s.born.length).goto t .idle).handle h' =
        s.handle h' :=
    addHandle_live (s := s.writeBlock i ptr value) fresh live
  have moved : (((s.writeBlock i ptr value).addHandle h (some ptr) s.born.length).goto t .idle).use
      ptr = .shared s.born.length := Function.update_self ..
  have loc : Local t ptr s
      (((s.writeBlock i ptr value).addHandle h (some ptr) s.born.length).goto t .idle) := by
    refine ⟨fun t' other => goto_pc_ne other, fun a other => Function.update_of_ne other _ _,
      fun a other => Function.update_of_ne other _ _, fun _ _ _ => Iff.rfl, ?_, ?_,
      fun _ _ => Iff.rfl, fun _ _ _ => Iff.rfl, ?_, ?_, ?_, ?_⟩
    · intro a other
      rw [counts, if_neg fun same => other (Option.some.inj same).symm]
      rfl
    · intro b x found
      exact List.getElem?_append_left (List.getElem?_eq_some_iff.mp found).1 |>.trans found
    · rintro t' _ h' a ⟨live, points, borrowed⟩
      rw [← same_handle live] at points borrowed
      exact ⟨Finset.mem_insert_of_mem live, points, borrowed⟩
    · rintro t' _ h' a ⟨live, points, dropped⟩
      rw [← same_handle live] at points dropped
      exact ⟨Finset.mem_insert_of_mem live, points, dropped⟩
    · intro t' p owns
      exact inv.owner_filling use owns
    · intro a p owns
      rw [pc] at owns
      cases owns
      rfl
  have last : (s.born ++ [⟨value, ptr, i⟩])[s.born.length]? = some ⟨value, ptr, i⟩ :=
    List.getElem?_concat_length
  have known (b : Nat) (j : Fin n) (back : (b, j) ∈ s.returned) : b < s.born.length := by
    obtain ⟨_, x, found, _⟩ := inv.returned_home b j back
    exact (List.getElem?_eq_some_iff.mp found).1
  refine ⟨inv.apart, ?_, ?_, ?_, ?_, ?_, inv.destroyed_once, inv.returned_once, ?_, ?_⟩
  · refine loc.placed_all inv ?_
    rw [goto_pc_self]
    trivial
  · intro h' t' dropped
    by_cases same : h' = h
    · subst same
      exact congrArg Handle.borrowers (addHandle_self (s := s.writeBlock i ptr value))
    · have kept : (((s.writeBlock i ptr value).addHandle h (some ptr) s.born.length).goto t
          .idle).handle h' = s.handle h' := addHandle_ne (s := s.writeBlock i ptr value) same
      rw [kept] at dropped ⊢
      exact inv.alone h' t' dropped
  · intro h' live a points
    by_cases same : h' = h
    · subst same
      have new : (((s.writeBlock i ptr value).addHandle h' (some ptr) s.born.length).goto t
          .idle).handle h' = ⟨some ptr, ∅, none, s.born.length⟩ :=
        addHandle_self (s := s.writeBlock i ptr value)
      rw [new] at points ⊢
      cases points
      exact moved
    · have old : h' ∈ s.live := Finset.mem_of_mem_insert_of_ne live same
      rw [same_handle old] at points ⊢
      exact loc.held inv unshared old points
  · refine loc.consistent_all inv ?_
    have block : (((s.writeBlock i ptr value).addHandle h (some ptr) s.born.length).goto t
        .idle).heap ptr = ⟨DisAtomicU16.pack 1, Dis.new 255 ((i + 1) % 256), some value⟩ :=
      Function.update_self ..
    have one := counts ptr
    rw [inv.count_zero unshared, if_pos rfl, Nat.zero_add] at one
    have small : (i + 1 : Nat) % 256 = i + 1 := Nat.mod_eq_of_lt (Nat.lt_succ_of_le (pool_le few i))
    rw [Consistent, moved]
    dsimp only
    rw [one, block]
    refine ⟨⟨?_, _, last, rfl, lent, ?_⟩, ?_, Nat.one_pos, by omega, rfl, _, last, rfl⟩
    · intro member
      obtain ⟨⟨b, j⟩, back, number⟩ := List.mem_map.mp member
      have below := known b j back
      simp only at number
      omega
    · rw [block, small]
    · intro member
      exact absurd (inv.destroyed_born _ member) (Nat.lt_irrefl _)
  · intro b x logged
    have found : (s.born ++ [⟨value, ptr, i⟩])[b]? = some x := logged
    by_cases old : b < s.born.length
    · rw [List.getElem?_append_left old] at found
      exact loc.accounted inv found (inv.not_owned unshared no_end b)
    · have new : b = s.born.length := by
        have bound := (List.getElem?_eq_some_iff.mp found).1
        rw [List.length_append, List.length_singleton] at bound
        omega
      rw [new, last] at found
      cases found
      rw [new]
      exact Or.inl moved
  · intro b member
    have before := inv.destroyed_born b member
    show b < (s.born ++ _).length
    rw [List.length_append]
    omega
  · intro b j back
    obtain ⟨gone, x, found, same⟩ := inv.returned_home b j back
    exact ⟨gone, x, loc.born b x found, same⟩

end Blocks

/-! ## Steps -/

theorem pack_injective {v w : UInt16} (same : DisAtomicU16.pack v = DisAtomicU16.pack w) :
    v = w := by
  rw [← DisAtomicU16.pack_low v, same, DisAtomicU16.pack_low]

theorem Inv.counted (inv : s.Inv) (live : h ∈ s.live) (points : (s.handle h).repr = some ptr) :
    Counted (s.heap ptr).refCount := by
  obtain ⟨_, _, positive, few, word, _⟩ := inv.shared (inv.held h live ptr points)
  refine ⟨_, ?_, word⟩
  intro zero
  have back := congrArg UInt16.toNat zero
  rw [UInt16.toNat_ofNat', Nat.mod_eq_of_lt (by omega)] at back
  simp only [UInt16.toNat_zero] at back
  omega

/-- The word that a compare-exchange found holds the number of handles. -/
theorem Inv.count_eq (inv : s.Inv) {v : UInt16} (live : h ∈ s.live)
    (points : (s.handle h).repr = some ptr)
    (word : (s.heap ptr).refCount = DisAtomicU16.pack v) : s.count ptr = v.toNat := by
  obtain ⟨_, _, _, few, stored, _⟩ := inv.shared (inv.held h live ptr points)
  rw [stored] at word
  rw [← pack_injective word, UInt16.toNat_ofNat', Nat.mod_eq_of_lt (by omega)]

section Steps

variable [DecidableEq ι] [DecidableEq κ]

theorem Inv.increment (inv : s.Inv) {fresh : κ} {spurious : Bool} {cur : UInt32}
    (pc : s.pc t = .increment h ptr cur)
    (stepped : s.increment t fresh spurious h ptr cur = some s') : s'.Inv := by
  have placed := inv.placed t
  rw [pc] at placed
  obtain ⟨⟨live, points, borrowed⟩, v, positive, rfl⟩ := placed
  have unowned (next : Pc n κ V) (free : next.owns = none) : next.owns = (s.pc t).owns := by
    rw [pc]
    exact free
  rw [Sharing.increment, DisAtomicU16.verify_pack] at stepped
  dsimp only at stepped
  split at stepped
  · rename_i below
    split at stepped
    · rename_i found
      split at stepped
      · cases stepped
      · rename_i absent
        cases stepped
        have rested : ((s.goto t .idle).unborrow t h).Inv := by
          have idle : (s.goto t .idle).Inv := inv.goto trivial (unowned _ rfl)
          refine idle.unborrow ?_
          rw [goto_pc_self]
          trivial
        have count := inv.count_eq live points found.1
        have kept : ((s.goto t .idle).unborrow t h).count ptr = s.count ptr := by
          rw [Sharing.unborrow, count_setHandle]
          · rfl
          · rfl
        refine rested.acquire (h := fresh) absent (inv.held h live ptr points) ?_ ?_
        · omega
        · rw [kept, count, ← UInt16.toNat_inj, UInt16.toNat_add, UInt16.toNat_ofNat']
          rfl
    · cases stepped
      refine inv.goto ⟨⟨live, points, borrowed⟩, inv.counted live points⟩ (unowned _ rfl)
  · cases stepped
    have stopped : (s.goto t (.halted .overflow)).Inv :=
      inv.goto ⟨nofun, nofun⟩ (unowned _ rfl)
    refine stopped.unborrow ?_
    rw [goto_pc_self]
    trivial

theorem Inv.decrement (inv : s.Inv) {spurious : Bool} {cur : UInt32}
    (pc : s.pc t = .decrement h ptr cur) : (s.decrement t spurious h ptr cur).Inv := by
  have placed := inv.placed t
  rw [pc] at placed
  obtain ⟨⟨live, points, owner⟩, v, positive, rfl⟩ := placed
  have unowned (next : Pc n κ V) (free : next.owns = none) : next.owns = (s.pc t).owns := by
    rw [pc]
    exact free
  have above : 1 ≤ v.toNat := by
    refine Nat.one_le_iff_ne_zero.mpr fun zero => positive ?_
    exact UInt16.toNat_inj.mp zero
  rw [Sharing.decrement, DisAtomicU16.verify_pack]
  dsimp only
  rw [if_pos above]
  split
  · rename_i found
    have count := inv.count_eq live points found.1
    split
    · rename_i more
      have rested : (s.goto t .idle).Inv := inv.goto trivial (unowned _ rfl)
      refine rested.release live points owner ?_ ?_ ?_
      · rw [goto_pc_self]
        trivial
      · show 1 < s.count ptr
        have other : v.toNat ≠ 1 := fun one => more (UInt16.toNat_inj.mp one)
        omega
      · show v - 1 = UInt16.ofNat (s.count ptr - 1)
        have below := v.toNat_lt
        rw [count, ← UInt16.toNat_inj, UInt16.toNat_sub_of_le v 1 above, UInt16.toNat_ofNat',
          Nat.mod_eq_of_lt (by omega)]
        rfl
    · rename_i last
      refine inv.releaseLast live points owner ?_ ?_
      · rw [pc]
        rfl
      · rw [count, of_not_not last]
        rfl
  · exact inv.goto ⟨⟨live, points, owner⟩, inv.counted live points⟩ (unowned _ rfl)

omit [DecidableEq κ] in
theorem Inv.tryPool (inv : s.Inv) {i size : Nat} {value : V} {required : Bool}
    (pc : s.pc t = .alloc i value size required) : (s.tryPool t i value size required).Inv := by
  have unowned (next : Pc n κ V) (free : next.owns = none) : next.owns = (s.pc t).owns := by
    rw [pc]
    exact free
  rw [Sharing.tryPool]
  split
  · rename_i inside
    split
    · split
      · rename_i granted
        exact inv.takeBlock (by rw [pc]; rfl) granted
      · rename_i stock refused
        have same : stock = (s.slots ⟨i, inside⟩).stock := by
          have kept := Stock.get_none (congrArg Prod.fst refused)
          rwa [refused] at kept
        have unmoved : s.setSlot ⟨i, inside⟩ stock = s := by
          rw [same, setSlot, Function.update_eq_self]
        rw [unmoved]
        exact inv.goto trivial (unowned _ rfl)
    · exact inv.goto trivial (unowned _ rfl)
  · split
    · exact inv.goto ⟨nofun, nofun⟩ (unowned _ rfl)
    · exact inv.goto trivial (unowned _ rfl)

theorem borrows_borrow (live : h ∈ s.live) (points : (s.handle h).repr = some ptr) :
    (s.borrow t h).Borrows t h ptr := by
  have here : (s.borrow t h).handle h =
      { s.handle h with borrowers := insert t (s.handle h).borrowers } := setHandle_self
  refine ⟨live, ?_, ?_⟩
  · rw [here]
    exact points
  · rw [here]
    exact Finset.mem_insert_self t _

theorem inv_step (few : n ≤ MAX_POOLS) (inv : s.Inv) {a : ArcStep κ V}
    (stepped : s.step (t, a) = some s') : s'.Inv := by
  unfold step at stepped
  dsimp only at stepped
  have placed := inv.placed t
  have unowned {pc : Pc n κ V} (now : s.pc t = pc) (free : pc.owns = none) (next : Pc n κ V)
      (free' : next.owns = none) : next.owns = (s.pc t).owns := by
    rw [now, free, free']
  split at stepped
  case h_1 h now =>
    split at stepped
    · cases stepped
    · rename_i fresh
      cases stepped
      exact inv.addEmpty fresh
  case h_2 value size overaligned required now =>
    split at stepped
    · cases stepped
      exact inv.goto ⟨nofun, nofun⟩ (unowned now rfl _ rfl)
    · cases stepped
      exact inv.goto trivial (unowned now rfl _ rfl)
  case h_3 now =>
    cases stepped
    exact inv.tryPool now
  case h_4 h now =>
    split at stepped
    · cases stepped
    · rename_i fresh
      cases stepped
      exact inv.written few now fresh
  case h_5 h fresh now =>
    split at stepped
    · rename_i allowed
      cases stepped
      exact inv.addEmpty allowed.2.2
    · cases stepped
  case h_6 h now =>
    split at stepped
    · rename_i borrowable
      obtain ⟨ptr, points, rfl⟩ := Option.map_eq_some_iff.mp stepped
      refine (inv.borrow borrowable.2).goto ?_ (unowned now rfl _ rfl)
      exact ⟨borrows_borrow borrowable.1 points, inv.counted borrowable.1 points⟩
    · cases stepped
  case h_7 fresh spurious now => exact inv.increment now stepped
  case h_8 h now =>
    split at stepped
    · rename_i borrowable
      obtain ⟨ptr, points, rfl⟩ := Option.map_eq_some_iff.mp stepped
      exact (inv.borrow borrowable.2).goto (borrows_borrow borrowable.1 points)
        (unowned now rfl _ rfl)
    · cases stepped
  case h_9 now =>
    cases stepped
    have idle : (s.goto _ .idle).Inv := inv.goto trivial (unowned now rfl _ rfl)
    refine idle.unborrow ?_
    rw [goto_pc_self]
    trivial
  case h_10 h now =>
    split at stepped
    · rename_i droppable
      obtain ⟨live, alone, undropped⟩ := droppable
      split at stepped
      · rename_i empty
        cases stepped
        exact inv.dropEmpty live empty
      · rename_i ptr points
        cases stepped
        have owned : (s.setHandle h { s.handle h with dropper := some t }).Inv := by
          refine inv.setHandle rfl rfl (fun _ _ => alone) (fun _ member => Or.inl member) ?_
          intro t' dropped
          rw [undropped] at dropped
          cases dropped
        refine owned.goto ⟨⟨live, ?_, ?_⟩, inv.counted live points⟩ (unowned now rfl _ rfl)
        · rw [setHandle_self]
          exact points
        · rw [setHandle_self]
    · cases stepped
  case h_11 spurious now =>
    cases stepped
    exact inv.decrement now
  case h_12 now =>
    rw [now] at placed
    obtain ⟨use, alive⟩ := placed
    obtain ⟨⟨_, x, found, _, _, poolId⟩, _⟩ := inv.ending use
    rw [poolId, Dis.get_new (pool_le few x.pool)] at stepped
    cases stepped
    refine inv.goto ⟨use, alive, x, found, rfl⟩ ?_
    rw [now]
    rfl
  case h_13 now =>
    cases stepped
    exact inv.destroyed now
  case h_14 junk now =>
    cases stepped
    exact inv.freed now
  case h_15 => cases stepped

omit [DecidableEq ι] [DecidableEq κ] in
theorem inv_start {slots : Fin n → PoolSlot} {heap : Nat → Block V}
    (apart : ∀ i j ptr, ptr ∈ (slots i).stock.all → ptr ∈ (slots j).stock.all → i = j)
    (unlent : ∀ i, (slots i).stock.free = (slots i).stock.all) :
    Inv (start slots heap : Sharing n ι κ V) := by
  refine ⟨apart, fun _ => trivial, nofun, nofun, ?_, nofun, List.nodup_nil, List.nodup_nil, nofun,
    nofun⟩
  intro ptr i out
  have lent : ptr ∉ (slots i).stock.free := out.2
  rw [unlent i] at lent
  exact lent out.1

end Steps

/-- No handle changes what it points to, and the log of allocations only grows. -/
def Keeps (s s' : Sharing n ι κ V) : Prop :=
  s.born <+: s'.born ∧ ∀ h ∈ s.live,
    (s'.handle h).repr = (s.handle h).repr ∧ (s'.handle h).birth = (s.handle h).birth

theorem keeps_same (born : s'.born = s.born) (handle : s'.handle = s.handle) : s.Keeps s' := by
  refine ⟨by rw [born], fun h _ => ?_⟩
  rw [handle]
  exact ⟨rfl, rfl⟩

section Keeping

variable [DecidableEq κ]

theorem keeps_setHandle {x : Handle ι} (born : s'.born = s.born)
    (handle : s'.handle = (s.setHandle h x).handle) (repr : x.repr = (s.handle h).repr)
    (birth : x.birth = (s.handle h).birth) : s.Keeps s' := by
  refine ⟨by rw [born], ?_⟩
  intro h' _
  rw [handle]
  by_cases same : h' = h
  · subst same
    rw [setHandle_self]
    exact ⟨repr, birth⟩
  · rw [setHandle_ne same]
    exact ⟨rfl, rfl⟩

theorem Keeps.addHandle {p : Option Nat} {k : Nat} (keeps : s.Keeps s') (live : s'.live = s.live)
    (fresh : h ∉ s.live) : s.Keeps (s'.addHandle h p k) := by
  refine ⟨keeps.1, ?_⟩
  intro h' old
  rw [addHandle_live (by rwa [live]) (by rwa [live])]
  exact keeps.2 h' old

variable [DecidableEq ι]

theorem step_keeps {a : ArcStep κ V} (stepped : s.step (t, a) = some s') : s.Keeps s' := by
  unfold step at stepped
  dsimp only at stepped
  split at stepped
  case h_1 h now =>
    split at stepped
    · cases stepped
    · rename_i fresh
      cases stepped
      exact (keeps_same rfl rfl).addHandle rfl fresh
  case h_2 =>
    split at stepped <;> cases stepped <;> exact keeps_same rfl rfl
  case h_3 =>
    cases stepped
    unfold tryPool
    split
    · split
      · split <;> exact keeps_same rfl rfl
      · exact keeps_same rfl rfl
    · split <;> exact keeps_same rfl rfl
  case h_4 h now =>
    split at stepped
    · cases stepped
    · rename_i fresh
      cases stepped
      have written (i : Fin n) (ptr : Nat) (value : V) : s.Keeps (s.writeBlock i ptr value) :=
        ⟨List.prefix_append _ _, fun _ _ => ⟨rfl, rfl⟩⟩
      exact (written _ _ _).addHandle rfl fresh
  case h_5 h fresh now =>
    split at stepped
    · rename_i allowed
      cases stepped
      exact (keeps_same rfl rfl).addHandle rfl allowed.2.2
    · cases stepped
  case h_6 =>
    split at stepped
    · obtain ⟨ptr, _, rfl⟩ := Option.map_eq_some_iff.mp stepped
      exact keeps_setHandle rfl rfl rfl rfl
    · cases stepped
  case h_7 fresh spurious now =>
    unfold Sharing.increment at stepped
    split at stepped
    · cases stepped
      exact keeps_setHandle rfl rfl rfl rfl
    · split at stepped
      · split at stepped
        · split at stepped
          · cases stepped
          · rename_i absent
            cases stepped
            have loosed (v : UInt16) (h : κ) (ptr : Nat) :
                s.Keeps ((s.setCount ptr v).unborrow t h) := keeps_setHandle rfl rfl rfl rfl
            exact (loosed _ _ _).addHandle rfl absent
        · cases stepped
          exact keeps_same rfl rfl
      · cases stepped
        exact keeps_setHandle rfl rfl rfl rfl
  case h_8 =>
    split at stepped
    · obtain ⟨ptr, _, rfl⟩ := Option.map_eq_some_iff.mp stepped
      exact keeps_setHandle rfl rfl rfl rfl
    · cases stepped
  case h_9 =>
    cases stepped
    exact keeps_setHandle rfl rfl rfl rfl
  case h_10 =>
    split at stepped
    · split at stepped
      · cases stepped
        exact keeps_same rfl rfl
      · cases stepped
        exact keeps_setHandle rfl rfl rfl rfl
    · cases stepped
  case h_11 =>
    cases stepped
    unfold Sharing.decrement
    split
    · exact keeps_same rfl rfl
    · split
      · split
        · dsimp only
          split <;> exact keeps_same rfl rfl
        · exact keeps_same rfl rfl
      · exact keeps_same rfl rfl
  case h_12 =>
    split at stepped <;> cases stepped <;> exact keeps_same rfl rfl
  case h_13 =>
    cases stepped
    exact keeps_same rfl rfl
  case h_14 =>
    cases stepped
    unfold freeBlock
    split <;> exact keeps_same rfl rfl
  case h_15 => cases stepped

end Keeping

/-! ## Soundness -/

/-- A context that drops the last handle of allocation `b` and has not come to the end of it. -/
def DropsLast (s : Sharing n ι κ V) (t : ι) (b : Nat) : Prop :=
  ∃ ptr, (s.pc t).owns = some (ptr, some b)

/-- What holds of pooled values whatever the contexts have done so far. -/
structure Sound [DecidableEq ι] [DecidableEq κ] (s : Sharing n ι κ V) : Prop where
  counted : ∀ h ∈ s.live, ∀ ptr, (s.handle h).repr = some ptr → s.count ptr ≤ 65535 ∧
    (s.heap ptr).refCount = DisAtomicU16.pack (UInt16.ofNat (s.count ptr))
  complementary : ∀ b x, s.born[b]? = some x → b ∉ s.returned.map Prod.fst →
    DisAtomicU16.Complementary (s.heap x.ptr).refCount
  readable : ∀ h ∈ s.live, ∀ ptr, (s.handle h).repr = some ptr →
    (∀ i, ptr ∉ (s.slots i).stock.free) ∧
      ∃ x, s.born[(s.handle h).birth]? = some x ∧ x.ptr = ptr ∧ (s.heap ptr).value = some x.value
  steady : ∀ label s', s.step label = some s' → ∀ h ∈ s.live, h ∈ s'.live →
    (s'.handle h).repr = (s.handle h).repr ∧
      ∀ ptr, (s.handle h).repr = some ptr → (s'.heap ptr).value = (s.heap ptr).value
  not_early : ∀ h ∈ s.live, (s.handle h).repr ≠ none →
    (s.handle h).birth ∉ s.destroyed ∧ (s.handle h).birth ∉ s.returned.map Prod.fst
  destroyed_once : s.destroyed.Nodup
  returned_once : (s.returned.map Prod.fst).Nodup
  returned_home : ∀ b i, (b, i) ∈ s.returned → ∃ x, s.born[b]? = some x ∧ x.pool = i
  ended : ∀ b x, s.born[b]? = some x →
    (∀ h ∈ s.live, (s.handle h).repr ≠ none → (s.handle h).birth ≠ b) →
    (b ∈ s.destroyed ∧ (b, x.pool) ∈ s.returned) ∨ ∃ t, s.DropsLast t b
  finishes : ∀ t b, s.DropsLast t b → ∃ (actions : List (ArcStep κ V)) (s' : Sharing n ι κ V),
    run step s (actions.map fun a => (t, a)) = some s' ∧ s'.pc t = .idle ∧
      b ∈ s'.destroyed ∧ b ∈ s'.returned.map Prod.fst
  overflow : ∀ t h ptr cur fresh spurious, s.pc t = .increment h ptr cur → s.count ptr = 65535 →
    ∃ s', s.step (t, .increment fresh spurious) = some s' ∧ s'.live = s.live ∧
      ((s.heap ptr).refCount = cur → s'.pc t = .halted .overflow)
  halts : ∀ t why, s.pc t = .halted why → why ≠ .corrupted ∧ why ≠ .underflow

section Results

variable [DecidableEq ι] [DecidableEq κ]

theorem Inv.finishes_free (inv : s.Inv) {poolId ptr b : Nat} (pc : s.pc t = .free poolId ptr b)
    (junk : Block V) : ∃ s', s.step (t, .free junk) = some s' ∧ s'.pc t = .idle ∧
      b ∈ s'.destroyed ∧ b ∈ s'.returned.map Prod.fst := by
  have placed := inv.placed t
  rw [pc] at placed
  obtain ⟨_, gone, y, _, rfl⟩ := placed
  have inside : (y.pool : Nat) + 1 - 1 < n := by
    rw [Nat.add_sub_cancel]
    exact y.pool.isLt
  refine ⟨(s.freeBlock (y.pool + 1) ptr b junk).goto t .idle, ?_, goto_pc_self, ?_, ?_⟩
  · simp only [step, pc]
  · rw [freeBlock, dif_pos inside]
    exact gone
  · rw [freeBlock, dif_pos inside]
    show b ∈ (s.returned ++ [_]).map Prod.fst
    simp

theorem Inv.finishes_destroy (few : n ≤ MAX_POOLS) (inv : s.Inv) {poolId ptr b : Nat}
    (pc : s.pc t = .destroy poolId ptr b) : ∃ (actions : List (ArcStep κ V)) (s' : Sharing n ι κ V),
      run step s (actions.map fun a => (t, a)) = some s' ∧ s'.pc t = .idle ∧
        b ∈ s'.destroyed ∧ b ∈ s'.returned.map Prod.fst := by
  have stepped : s.step (t, .destroy) =
      some ((s.destroyValue ptr b).goto t (.free poolId ptr b)) := by simp only [step, pc]
  have next := inv_step few inv stepped
  obtain ⟨s', freed, ended⟩ := next.finishes_free goto_pc_self (s.heap ptr)
  refine ⟨[.destroy, .free (s.heap ptr)], s', ?_, ended⟩
  simp only [List.map_cons, List.map_nil, run, stepped, Option.bind_some, freed]

theorem Inv.finishes (few : n ≤ MAX_POOLS) (inv : s.Inv) (drops : s.DropsLast t b) :
    ∃ (actions : List (ArcStep κ V)) (s' : Sharing n ι κ V),
      run step s (actions.map fun a => (t, a)) = some s' ∧ s'.pc t = .idle ∧ b ∈ s'.destroyed ∧
        b ∈ s'.returned.map Prod.fst := by
  obtain ⟨ptr, owns⟩ := drops
  cases pc : s.pc t with
  | last ptr b' =>
      rw [pc] at owns
      cases owns
      have placed := inv.placed t
      rw [pc] at placed
      obtain ⟨⟨_, x, _, _, _, poolId⟩, _⟩ := inv.ending placed.1
      have stepped : s.step (t, .verifyPool) = some (s.goto t (.destroy (x.pool + 1) ptr b)) := by
        simp only [step, pc]
        rw [poolId, Dis.get_new (pool_le few x.pool)]
      have next := inv_step few inv stepped
      obtain ⟨actions, s', ran, ended⟩ := next.finishes_destroy few goto_pc_self
      refine ⟨.verifyPool :: actions, s', ?_, ended⟩
      simp only [List.map_cons, run, stepped, Option.bind_some, ran]
  | destroy poolId ptr b' =>
      rw [pc] at owns
      cases owns
      exact inv.finishes_destroy few pc
  | free poolId ptr b' =>
      rw [pc] at owns
      cases owns
      obtain ⟨s', freed, ended⟩ := inv.finishes_free pc (s.heap ptr)
      refine ⟨[.free (s.heap ptr)], s', ?_, ended⟩
      simp only [List.map_cons, List.map_nil, run, freed, Option.bind_some]
  | _ =>
      rw [pc] at owns
      cases owns

/-- A clone of a block that has all the handles it can have makes no handle. -/
theorem Inv.overflow (inv : s.Inv) {ptr : Nat} {cur : UInt32} (fresh : κ) (spurious : Bool)
    (pc : s.pc t = .increment h ptr cur) (full : s.count ptr = 65535) :
    ∃ s', s.step (t, .increment fresh spurious) = some s' ∧ s'.live = s.live ∧
      ((s.heap ptr).refCount = cur → s'.pc t = .halted .overflow) := by
  have placed := inv.placed t
  rw [pc] at placed
  obtain ⟨⟨live, points, _⟩, v, _, rfl⟩ := placed
  have stepped : s.step (t, .increment fresh spurious) =
      s.increment t fresh spurious h ptr (DisAtomicU16.pack v) := by simp only [step, pc]
  rw [stepped, Sharing.increment, DisAtomicU16.verify_pack]
  dsimp only
  have at_top (same : (s.heap ptr).refCount = DisAtomicU16.pack v) : ¬v.toNat + 1 < 65536 := by
    have count := inv.count_eq live points same
    omega
  split
  · rename_i below
    have changed : ¬((s.heap ptr).refCount = DisAtomicU16.pack v ∧ spurious = false) :=
      fun found => at_top found.1 below
    rw [if_neg changed]
    exact ⟨_, rfl, rfl, fun same => absurd below (at_top same)⟩
  · exact ⟨_, rfl, rfl, fun _ => goto_pc_self⟩

omit [DecidableEq ι] [DecidableEq κ] in
theorem Inv.payload (inv : s.Inv) {ptr : Nat} (live : h ∈ s.live)
    (points : (s.handle h).repr = some ptr) :
    (s.heap ptr).value = s.born[(s.handle h).birth]?.map Birth.value := by
  obtain ⟨_, _, _, _, _, x, found, value⟩ := inv.shared (inv.held h live ptr points)
  rw [found, value]
  rfl

theorem Inv.steady (few : n ≤ MAX_POOLS) (inv : s.Inv) {label : ι × ArcStep κ V}
    (stepped : s.step label = some s') (live : h ∈ s.live) (live' : h ∈ s'.live) :
    (s'.handle h).repr = (s.handle h).repr ∧
      ∀ ptr, (s.handle h).repr = some ptr → (s'.heap ptr).value = (s.heap ptr).value := by
  obtain ⟨⟨newer, grows⟩, same⟩ := step_keeps stepped
  obtain ⟨repr, birth⟩ := same h live
  refine ⟨repr, ?_⟩
  intro ptr points
  obtain ⟨_, _, _, _, _, x, found, _⟩ := inv.shared (inv.held h live ptr points)
  rw [(inv_step few inv stepped).payload live' (repr.trans points), inv.payload live points, birth,
    found, ← grows, List.getElem?_append_left (List.getElem?_eq_some_iff.mp found).1, found]

theorem Inv.sound (few : n ≤ MAX_POOLS) (inv : s.Inv) : s.Sound := by
  constructor
  · intro h live ptr points
    obtain ⟨_, _, _, bound, word, _⟩ := inv.shared (inv.held h live ptr points)
    exact ⟨bound, word⟩
  · intro b x found out
    rcases inv.accounted b x found with shared | ⟨t, ending⟩ | ⟨_, back⟩
    · obtain ⟨_, _, _, _, word, _⟩ := inv.shared shared
      rw [word]
      exact DisAtomicU16.pack_complementary _
    · exact (inv.ending ending).2.2
    · exact absurd (List.mem_map_of_mem back) out
  · intro h live ptr points
    obtain ⟨⟨_, x, found, here, lent, _⟩, _, _, _, _, y, found', value⟩ :=
      inv.shared (inv.held h live ptr points)
    rw [found] at found'
    cases found'
    refine ⟨?_, x, found, here, value⟩
    intro i in_pool
    have same := inv.apart i x.pool ptr ((s.slots i).stock.owned ptr in_pool) lent.1
    subst same
    exact lent.2 in_pool
  · exact fun label s' stepped h live live' => inv.steady few stepped live live'
  · intro h live pooled
    obtain ⟨ptr, points⟩ := Option.ne_none_iff_exists'.mp pooled
    obtain ⟨owned, alive, _⟩ := inv.shared (inv.held h live ptr points)
    exact ⟨alive, owned.1⟩
  · exact inv.destroyed_once
  · exact inv.returned_once
  · exact fun b i back => (inv.returned_home b i back).2
  · intro b x found unheld
    rcases inv.accounted b x found with shared | ⟨t, ending⟩ | gone
    · obtain ⟨_, _, positive, _⟩ := inv.shared shared
      obtain ⟨h, member⟩ := Finset.card_pos.mp positive
      obtain ⟨live, points⟩ := Finset.mem_filter.mp member
      have use := inv.held h live x.ptr points
      rw [shared] at use
      cases use
      refine absurd rfl (unheld h live ?_)
      rw [points]
      exact Option.some_ne_none x.ptr
    · exact Or.inr ⟨t, x.ptr, (inv.ending ending).2.1⟩
    · exact Or.inl gone
  · exact fun t b drops => inv.finishes few drops
  · exact fun t h ptr cur fresh spurious pc full => inv.overflow fresh spurious pc full
  · intro t why pc
    have placed := inv.placed t
    rw [pc] at placed
    exact placed

/-- Any interleaving over pools with storages of their own keeps pooled values sound. -/
theorem run_sound (few : n ≤ MAX_POOLS) (slots : Fin n → PoolSlot) (heap : Nat → Block V)
    (apart : ∀ i j ptr, ptr ∈ (slots i).stock.all → ptr ∈ (slots j).stock.all → i = j)
    (unlent : ∀ i, (slots i).stock.free = (slots i).stock.all)
    (labels : List (ι × ArcStep κ V)) (s : Sharing n ι κ V)
    (ran : run step (start slots heap) labels = some s) : s.Sound := by
  have kept (s : Sharing n ι κ V) (label : ι × ArcStep κ V) (s' : Sharing n ι κ V) (inv : s.Inv)
      (stepped : s.step label = some s') : s'.Inv := inv_step few inv stepped
  exact (run_preserves kept (inv_start apart unlent) ran).sound few

end Results

theorem registered_apart {build : Build} {region region' : Region build} {p p' : QMPool}
    {mem mem' : Memory} {stock stock' : Stock Nat} (here : p.Represents build region mem stock)
    (there : p'.Represents build region' mem' stock')
    (apart : Apart region.raw region.len region'.raw region'.len) (ptr : Nat)
    (left : ptr ∈ stock.all) : ptr ∉ stock'.all := by
  intro right
  rw [here.all] at left
  rw [there.all] at right
  obtain ⟨i, inside, same⟩ := List.mem_map.mp left
  obtain ⟨j, inside', same'⟩ := List.mem_map.mp right
  have first := here.shaped.block_inside (List.mem_range.mp inside)
  have second := there.shaped.block_inside (List.mem_range.mp inside')
  have above := here.shaped.above
  have above' := there.shaped.above
  have size := here.shaped.size_pos
  have size' := there.shaped.size_pos
  simp only [QMPool.block] at same same' first second
  rcases apart with before | after
  · omega
  · omega

/-! One pool of two blocks. Context 1 clones the handle of context 0 while that one drops it, so the
compare-exchange of context 0 fails once and the last drop is that of context 1. -/

def twoBlocks : Fin 1 → PoolSlot := fun _ => ⟨32, Stock.full [64, 96] (by decide)⟩

def handover : List (Nat × ArcStep Nat Nat) :=
  [(0, .fromValue 7 16 false true), (0, .tryPool), (0, .write 0), (1, .clone 0),
    (1, .increment 1 true), (1, .increment 1 false), (0, .drop 0), (1, .clone 1),
    (1, .increment 2 false), (0, .decrement false), (0, .decrement false), (1, .drop 1),
    (1, .decrement false), (0, .drop 2), (0, .decrement false), (0, .verifyPool), (0, .destroy),
    (0, .free ⟨0, Dis.new 255 0, none⟩)]

theorem handover_sound : ∃ s : Sharing 1 Nat Nat Nat,
    run step (start twoBlocks fun _ => ⟨0, Dis.new 255 0, none⟩) handover = some s ∧ s.Sound := by
  have runs : (run step (start twoBlocks fun _ => ⟨0, Dis.new 255 0, none⟩) handover).isSome := by
    decide +kernel
  obtain ⟨s, ran⟩ := Option.isSome_iff_exists.mp runs
  refine ⟨s, ran, run_sound (by decide) twoBlocks _ ?_ ?_ handover s ran⟩
  · intro i j _ _ _
    exact Subsingleton.elim i j
  · intro i
    rfl

end Sharing

end QpRs.Pool
