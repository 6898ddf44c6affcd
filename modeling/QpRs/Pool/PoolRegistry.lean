import QpRs.Lib.Run
import QpRs.Lib.Shelves
import QpRs.Pool.QMPool

/-! The registry of event pools and the application that uses it: blocks are taken from whichever
pool serves the request, overwritten and given back in any order. -/

namespace QpRs.Pool

open QpRs.Lib

abbrev MAX_POOLS : Nat := 15

namespace QMPool

def getFree (b : Build) (p : QMPool) : Except Fault Nat := p.freeCnt.get b.max

def getUse (b : Build) (p : QMPool) : Except Fault Nat := do
  let free ← p.getFree b
  b.sub p.numBlocks free

def canServe (p : QMPool) (size : Nat) : Bool := size ≤ p.blockSize

end QMPool

/-- The slots that are in use; `count` is their number. -/
structure PoolRegistry where
  slots : List QMPool
  deriving DecidableEq, Repr

namespace PoolRegistry

def new : PoolRegistry := ⟨[]⟩

def initPool (b : Build) (reg : PoolRegistry) (region : Region b) (blockSize : Nat)
    (mem : Memory) : Except Fault (Nat × PoolRegistry × Memory) :=
  if MAX_POOLS ≤ reg.slots.length then .error .assertion
  else do
    let (_, pool, mem) ← QMPool.init b region blockSize mem
    pure (reg.slots.length + 1, ⟨reg.slots ++ [pool]⟩, mem)

/-- The loop of `alloc` over the slots from number `i` on. -/
def allocFrom (b : Build) (mem : Memory) (size margin : Nat) :
    Nat → List QMPool → Except Fault (Option (Nat × Nat) × List QMPool)
  | _, [] => .ok (none, [])
  | i, pool :: rest =>
    if !pool.canServe size then do
      let (answer, rest) ← allocFrom b mem size margin (i + 1) rest
      pure (answer, pool :: rest)
    else do
      match ← pool.get b mem margin with
      | (some ptr, pool) =>
        let _ ← pool.getFree b
        pure (some (i + 1, ptr), pool :: rest)
      | (none, pool) =>
        let _ ← pool.getFree b
        let (answer, rest) ← allocFrom b mem size margin (i + 1) rest
        pure (answer, pool :: rest)

def alloc (b : Build) (reg : PoolRegistry) (mem : Memory) (size margin : Nat) :
    Except Fault (Option (Nat × Nat) × PoolRegistry) := do
  let (answer, slots) ← allocFrom b mem size margin 0 reg.slots
  pure (answer, ⟨slots⟩)

/-- The slot of a pool id; the number 0 is taken for the first one. -/
def slot? (reg : PoolRegistry) (poolId : Nat) : Option QMPool := reg.slots[poolId - 1]?

def free (b : Build) (reg : PoolRegistry) (mem : Memory) (poolId block : Nat) :
    Except Fault (PoolRegistry × Memory) :=
  match reg.slot? poolId with
  | none => .ok (reg, mem)
  | some pool => do
    let (pool, mem) ← pool.put b mem block
    let _ ← pool.getFree b
    pure (⟨reg.slots.set (poolId - 1) pool⟩, mem)

def getFree (b : Build) (reg : PoolRegistry) (poolId : Nat) : Except Fault (Option Nat) :=
  match reg.slot? poolId with
  | none => .ok none
  | some pool => (pool.getFree b).map some

def getUse (b : Build) (reg : PoolRegistry) (poolId : Nat) : Except Fault (Option Nat) :=
  match reg.slot? poolId with
  | none => .ok none
  | some pool => (pool.getUse b).map some

/-- Pools registered one after the other, each over a storage of its own. -/
def register (b : Build) : List (Region b × Nat) → PoolRegistry → Memory →
    Except Fault (PoolRegistry × Memory)
  | [], reg, mem => .ok (reg, mem)
  | (region, blockSize) :: rest, reg, mem => do
    let (_, reg, mem) ← initPool b reg region blockSize mem
    register b rest reg mem

end PoolRegistry

/-- `allocated` holds the pool ids and the blocks handed out and not freed. -/
structure RegistryWorld where
  registry : PoolRegistry
  mem : Memory
  allocated : List (Nat × Nat)

inductive RegistryOp where
  | alloc (size margin : Nat)
  | free (poolId block : Nat)
  | write (addr : Nat) (byte : UInt8)
  deriving DecidableEq, Repr

namespace RegistryWorld

def start (registry : PoolRegistry) (mem : Memory) : RegistryWorld := ⟨registry, mem, []⟩

/-- Blocks are freed with the id they came with, and written to, while they are allocated. -/
def Valid (w : RegistryWorld) : RegistryOp → Prop
  | .alloc _ _ => True
  | .free poolId block => (poolId, block) ∈ w.allocated
  | .write addr _ => ∃ out ∈ w.allocated,
      out.2 ≤ addr ∧ addr < out.2 + ((w.registry.slot? out.1).map QMPool.blockSize).getD 0

instance (w : RegistryWorld) : DecidablePred w.Valid
  | .alloc _ _ => inferInstanceAs (Decidable True)
  | .free poolId block => inferInstanceAs (Decidable ((poolId, block) ∈ w.allocated))
  | .write _ _ => inferInstanceAs (Decidable (∃ out ∈ w.allocated, _))

def alloc (b : Build) (w : RegistryWorld) (size margin : Nat) :
    Except Fault (Option (Nat × Nat) × RegistryWorld) := do
  let (answer, registry) ← w.registry.alloc b w.mem size margin
  pure (answer, { w with registry := registry, allocated := answer.toList ++ w.allocated })

def free (b : Build) (w : RegistryWorld) (poolId block : Nat) : Except Fault RegistryWorld := do
  let (registry, mem) ← w.registry.free b w.mem poolId block
  pure ⟨registry, mem, w.allocated.erase (poolId, block)⟩

def perform (b : Build) (w : RegistryWorld) : RegistryOp → Except Fault RegistryWorld
  | .alloc size margin => (w.alloc b size margin).map Prod.snd
  | .free poolId block => w.free b poolId block
  | .write addr byte => .ok { w with mem := w.mem.write addr [byte] }

def step (b : Build) (w : RegistryWorld) (op : RegistryOp) : Option RegistryWorld :=
  if w.Valid op then (w.perform b op).toOption else none

end RegistryWorld

/-! ## What the registry promises -/

/-- The blocks hold `size` bytes, and `margin` of them stay free when one is taken. -/
def QMPool.Serves (b : Build) (p : QMPool) (size margin : Nat) : Prop :=
  size ≤ p.blockSize ∧ ∃ free, p.getFree b = .ok free ∧ margin + 1 ≤ free

/-- The free count of the pool goes from `n` to `n'`, those of the others stay. -/
def PoolRegistry.Moves (b : Build) (reg reg' : PoolRegistry) (poolId n n' : Nat) : Prop :=
  reg.getFree b poolId = .ok (some n) ∧ reg'.getFree b poolId = .ok (some n') ∧
    ∀ other, 0 < other → other ≠ poolId → reg'.getFree b other = reg.getFree b other

namespace RegistryWorld

/-- The answer to a request, and what it leaves. -/
def Selects (b : Build) (w : RegistryWorld) (size margin : Nat) (w' : RegistryWorld) :
    Option (Nat × Nat) → Prop
  | none => (∀ p ∈ w.registry.slots, ¬p.Serves b size margin) ∧
      ∀ poolId, w'.registry.getFree b poolId = w.registry.getFree b poolId
  | some (poolId, ptr) => ∃ p, 0 < poolId ∧ w.registry.slot? poolId = some p ∧
      p.Serves b size margin ∧
      (∀ q ∈ w.registry.slots, q.Serves b size margin → p.blockSize ≤ q.blockSize) ∧
      (∃ k < p.numBlocks, ptr = p.block k) ∧ (poolId, ptr) ∉ w.allocated ∧
      ∃ n, w.registry.Moves b w'.registry poolId (n + 1) n

/-- Every request is answered by the smallest pool that serves it, a block that comes back raises
the count of its pool, and the blocks of a pool are free or in use. -/
structure Selective (b : Build) (w : RegistryWorld) : Prop where
  alloc : ∀ size margin, ∃ answer w', w.alloc b size margin = .ok (answer, w') ∧
    w.Selects b size margin w' answer
  free : ∀ poolId ptr, (poolId, ptr) ∈ w.allocated → ∃ w', w.free b poolId ptr = .ok w' ∧
    ∃ n, w.registry.Moves b w'.registry poolId n (n + 1)
  conserved : ∀ poolId p, 0 < poolId → w.registry.slot? poolId = some p →
    ∃ free use, w.registry.getFree b poolId = .ok (some free) ∧
      w.registry.getUse b poolId = .ok (some use) ∧ free + use = p.numBlocks ∧
      use = w.allocated.countP fun out => out.1 == poolId

end RegistryWorld

/-! ## The shelves behind the registry -/

variable {b : Build}

/-- A pool keeps the stock of its shelf in the storage that the shelf is labelled with. -/
structure Keeps (b : Build) (mem : Memory) (p : QMPool) (s : Shelf (Region b) Nat) : Prop where
  represents : p.Represents b s.label mem s.stock
  size : s.size = p.blockSize

theorem Keeps.getFree {mem : Memory} {p : QMPool} {s : Shelf (Region b) Nat}
    (keeps : Keeps b mem p s) : p.getFree b = .ok s.stock.free.length := by
  rw [QMPool.getFree, keeps.represents.counted]
  exact Dis.get_new (s.stock.length_free_le.trans keeps.represents.few)

theorem Keeps.canServe {mem : Memory} {p : QMPool} {s : Shelf (Region b) Nat}
    (keeps : Keeps b mem p s) (size : Nat) : p.canServe size = decide (size ≤ s.size) := by
  rw [QMPool.canServe, keeps.size]

theorem blockSize_of_block {p p' : QMPool} (same : p'.block = p.block) :
    p'.blockSize = p.blockSize := by
  have zero := congrFun same 0
  have one := congrFun same 1
  simp only [QMPool.block] at zero one
  omega

theorem Keeps.get {mem : Memory} {p : QMPool} {s : Shelf (Region b) Nat} (keeps : Keeps b mem p s)
    (margin : Nat) : ∃ p', p.get b mem margin = .ok ((s.stock.get margin).1, p') ∧
      Keeps b mem p' (s.taken margin) := by
  obtain ⟨p', ran, represents, same⟩ := keeps.represents.get margin
  exact ⟨p', ran, represents, keeps.size.trans (blockSize_of_block same).symm⟩

theorem Keeps.serves_iff {mem : Memory} {p : QMPool} {s : Shelf (Region b) Nat}
    (keeps : Keeps b mem p s) (size margin : Nat) :
    p.Serves b size margin ↔ s.Serves size margin := by
  rw [QMPool.Serves, Shelf.Serves, keeps.size, keeps.getFree]
  constructor
  · rintro ⟨fits, free, same, enough⟩
    cases same
    exact ⟨fits, enough⟩
  · rintro ⟨fits, enough⟩
    exact ⟨fits, _, rfl, enough⟩

theorem Keeps.block_inside {mem : Memory} {p : QMPool} {s : Shelf (Region b) Nat} {ptr : Nat}
    (keeps : Keeps b mem p s) (lent : s.stock.Lent ptr) :
    s.label.raw ≤ ptr ∧ ptr + p.blockSize ≤ s.label.raw + s.label.len := by
  obtain ⟨k, low, rfl⟩ := keeps.represents.lent_block lent
  have shaped := keeps.represents.shaped
  exact ⟨shaped.above.trans (Nat.le_add_right _ _), shaped.block_inside low⟩

namespace PoolRegistry

/-- The scan of the slots takes what is taken from the shelves. -/
theorem allocFrom_eq {mem : Memory} (size margin : Nat) {slots : List QMPool}
    {shelves : List (Shelf (Region b) Nat)} (keeps : List.Forall₂ (Keeps b mem) slots shelves)
    (i : Nat) : ∃ slots', allocFrom b mem size margin i slots =
        .ok ((Shelves.take size margin shelves).1.map fun found => (i + found.1 + 1, found.2),
          slots') ∧
      List.Forall₂ (Keeps b mem) slots' (Shelves.take size margin shelves).2 := by
  induction keeps generalizing i with
  | nil => exact ⟨[], rfl, .nil⟩
  | @cons p s slots shelves here rest ih =>
      obtain ⟨slots', later, kept⟩ := ih (i + 1)
      have shifted : ((Shelves.take size margin shelves).1.map fun found =>
            (i + 1 + found.1 + 1, found.2)) =
          ((Shelves.take size margin shelves).1.map fun found => (found.1 + 1, found.2)).map
            fun found => (i + found.1 + 1, found.2) := by
        rw [Option.map_map]
        congr 1
        funext found
        simp only [Function.comp_apply, Prod.mk.injEq, and_true]
        omega
      rw [shifted] at later
      rw [allocFrom, here.canServe]
      by_cases fits : size ≤ s.size
      · rw [decide_eq_true fits]
        obtain ⟨p', ran, after⟩ := here.get margin
        have counted := after.getFree
        by_cases enough : margin + 1 ≤ s.stock.free.length
        · obtain ⟨x, granted⟩ := Option.isSome_iff_exists.mp (Stock.get_isSome.mpr enough)
          rw [Shelves.take_here ⟨fits, enough⟩]
          refine ⟨p' :: slots, ?_, .cons after rest⟩
          rw [granted] at ran
          simp only [Bool.not_true, Bool.false_eq_true, if_false, ran, ok_bind, counted, granted]
          rfl
        · have refused : (s.stock.get margin).1 = none := by
            rw [← Option.not_isSome_iff_eq_none, Stock.get_isSome]
            exact enough
          have unchanged : s.taken margin = s := by
            rw [Shelf.taken, Stock.get_none refused]
          rw [unchanged] at after
          rw [Shelves.take_later fun serves => enough serves.2]
          refine ⟨p' :: slots', ?_, .cons after kept⟩
          rw [refused] at ran
          simp only [Bool.not_true, Bool.false_eq_true, if_false, ran, ok_bind, counted, later,
            unchanged]
          rfl
      · rw [decide_eq_false fits, Shelves.take_later fun serves => fits serves.1]
        refine ⟨p :: slots', ?_, .cons here kept⟩
        simp only [Bool.not_false, if_true, later, ok_bind]
        rfl

end PoolRegistry

def Out (shelves : List (Shelf (Region b) Nat)) (poolId ptr : Nat) : Prop :=
  0 < poolId ∧ ∃ s, shelves[poolId - 1]? = some s ∧ s.stock.Lent ptr

theorem out_iff {shelves : List (Shelf (Region b) Nat)} {poolId ptr : Nat}
    {s : Shelf (Region b) Nat} (positive : 0 < poolId) (here : shelves[poolId - 1]? = some s) :
    Out shelves poolId ptr ↔ s.stock.Lent ptr := by
  simp [Out, here, positive]

theorem out_set {shelves : List (Shelf (Region b) Nat)} {i poolId ptr : Nat}
    {s t : Shelf (Region b) Nat} (here : shelves[i]? = some s) :
    Out (shelves.set i t) poolId ptr ↔
      poolId = i + 1 ∧ t.stock.Lent ptr ∨ poolId ≠ i + 1 ∧ Out shelves poolId ptr := by
  have inside : i < shelves.length := (List.getElem?_eq_some_iff.mp here).1
  by_cases mine : poolId = i + 1
  · subst mine
    simp [Out, List.getElem?_set_self inside]
  · have other (positive : 0 < poolId) : i ≠ poolId - 1 := by omega
    constructor
    · rintro ⟨positive, u, found, lent⟩
      rw [List.getElem?_set_ne (other positive)] at found
      exact .inr ⟨mine, positive, u, found, lent⟩
    · rintro (⟨same, _⟩ | ⟨_, positive, u, found, lent⟩)
      · exact absurd same mine
      · refine ⟨positive, u, ?_, lent⟩
        rw [List.getElem?_set_ne (other positive)]
        exact found

/-- What stays as it is while blocks are lent: the size of the blocks and where they lie. -/
def layout (s : Shelf (Region b) Nat) : Nat × List Nat := (s.size, s.stock.all)

namespace RegistryWorld

/-- The shelves behind a world. -/
structure Tracks (b : Build) (w : RegistryWorld) (shelves : List (Shelf (Region b) Nat)) :
    Prop where
  keeps : List.Forall₂ (Keeps b w.mem) w.registry.slots shelves
  apart : (shelves.map Shelf.label).Pairwise fun r r' => Apart r.raw r.len r'.raw r'.len
  once : w.allocated.Nodup
  known : ∀ poolId ptr, (poolId, ptr) ∈ w.allocated ↔ Out shelves poolId ptr

variable {w w' : RegistryWorld} {shelves : List (Shelf (Region b) Nat)}

theorem Tracks.alloc (tracks : w.Tracks b shelves) (size margin : Nat) :
    ∃ w', w.alloc b size margin =
        .ok ((Shelves.take size margin shelves).1.map fun found => (found.1 + 1, found.2), w') ∧
      w'.Tracks b (Shelves.take size margin shelves).2 := by
  obtain ⟨slots, ran, keeps⟩ := PoolRegistry.allocFrom_eq size margin tracks.keeps 0
  have answer : ((Shelves.take size margin shelves).1.map fun found =>
      (0 + found.1 + 1, found.2)) =
      (Shelves.take size margin shelves).1.map fun found => (found.1 + 1, found.2) := by
    congr 1
    funext found
    rw [Nat.zero_add]
  rw [answer] at ran
  refine ⟨{ w with registry := ⟨slots⟩, allocated := ((Shelves.take size margin shelves).1.map
    fun found => (found.1 + 1, found.2)).toList ++ w.allocated }, ?_, ?_⟩
  · rw [RegistryWorld.alloc, PoolRegistry.alloc, ran]
    rfl
  · cases found : (Shelves.take size margin shelves).1 with
    | none =>
        rw [Shelves.take_kept found] at keeps ⊢
        exact ⟨keeps, tracks.apart, tracks.once, tracks.known⟩
    | some out =>
        obtain ⟨i, x⟩ := out
        obtain ⟨s, here, _, granted, left, _⟩ := Shelves.take_some found
        obtain ⟨fresh, lent⟩ := Stock.get_lent granted
        rw [left] at keeps ⊢
        have unseen : (i + 1, x) ∉ w.allocated := by
          rw [tracks.known]
          rintro ⟨_, s', same, lent'⟩
          rw [Nat.add_sub_cancel, here] at same
          cases same
          exact fresh lent'
        refine ⟨keeps, ?_, List.nodup_cons.mpr ⟨unseen, tracks.once⟩, ?_⟩
        · rw [map_set_same Shelf.label (y := s.taken margin) here rfl]
          exact tracks.apart
        · intro poolId ptr
          have before := tracks.known poolId ptr
          rw [out_set (t := s.taken margin) here]
          change (poolId, ptr) ∈ (i + 1, x) :: w.allocated ↔ _
          rw [List.mem_cons, before, Shelf.taken, lent, Prod.mk.injEq]
          by_cases mine : poolId = i + 1
          · subst mine
            simp [out_iff (Nat.succ_pos i) here]
          · simp [mine]

theorem Tracks.others {mem' : Memory} {i : Nat} {s : Shelf (Region b) Nat}
    (tracks : w.Tracks b shelves) (here : shelves[i]? = some s)
    (inside : ∀ x, x < s.label.raw ∨ s.label.raw + s.label.len ≤ x → mem' x = w.mem x) (j : Nat)
    (p : QMPool) (t : Shelf (Region b) Nat) (other : j ≠ i)
    (there : shelves[j]? = some t) (keeps : Keeps b w.mem p t) : Keeps b mem' p t := by
  refine ⟨keeps.represents.frame ?_, keeps.size⟩
  intro x first last
  apply inside
  have apart : Apart t.label.raw t.label.len s.label.raw s.label.len :=
    rel_of_ne (fun _ _ => Apart.symm) tracks.apart (getElem?_map_of there)
      (getElem?_map_of here) other
  rcases apart with below | above
  · exact .inl (by omega)
  · exact .inr (by omega)

theorem Tracks.free (tracks : w.Tracks b shelves) {poolId ptr : Nat}
    (out : (poolId, ptr) ∈ w.allocated) :
    ∃ w' s, shelves[poolId - 1]? = some s ∧ s.stock.Lent ptr ∧ w.free b poolId ptr = .ok w' ∧
      w'.Tracks b (shelves.set (poolId - 1) (s.returned ptr)) := by
  obtain ⟨positive, s, here, lent⟩ := (tracks.known poolId ptr).mp out
  obtain ⟨p, slot, keeps⟩ := forall₂_right tracks.keeps here
  obtain ⟨p', mem', ran, represents, same⟩ := keeps.represents.put lent
  have kept : Keeps b mem' p' (s.returned ptr) :=
    ⟨represents, keeps.size.trans (blockSize_of_block same).symm⟩
  obtain ⟨above, below⟩ := keeps.block_inside lent
  have roomy := keeps.represents.shaped.roomy
  have inside (x : Nat) (outside : x < s.label.raw ∨ s.label.raw + s.label.len ≤ x) :
      mem' x = w.mem x := QMPool.put_outside ran (by omega)
  refine ⟨⟨⟨w.registry.slots.set (poolId - 1) p'⟩, mem', w.allocated.erase (poolId, ptr)⟩, s, here,
    lent, ?_, ⟨?_, ?_, tracks.once.erase _, ?_⟩⟩
  · have found : w.registry.slot? poolId = some p := slot
    rw [RegistryWorld.free, PoolRegistry.free, found]
    dsimp only
    rw [ran, ok_bind]
    dsimp only
    rw [kept.getFree]
    rfl
  · refine forall₂_set tracks.keeps kept ?_
    intro j q t other _ there holds
    exact tracks.others here inside j q t other there holds
  · rw [map_set_same Shelf.label (y := s.returned ptr) here rfl]
    exact tracks.apart
  · intro poolId' ptr'
    obtain ⟨_, _, _, lent'⟩ := Stock.put_lent lent
    have number : poolId - 1 + 1 = poolId := Nat.sub_add_cancel positive
    rw [out_set (t := s.returned ptr) here, number, tracks.once.mem_erase_iff, tracks.known,
      Shelf.returned, lent', ne_eq, Prod.mk.injEq]
    by_cases mine : poolId' = poolId
    · subst mine
      simp [out_iff positive here]
    · simp [mine]

theorem Tracks.store (tracks : w.Tracks b shelves) {poolId ptr addr : Nat} {p : QMPool}
    {bytes : List UInt8} (out : (poolId, ptr) ∈ w.allocated)
    (found : w.registry.slot? poolId = some p) (first : ptr ≤ addr)
    (last : addr + bytes.length ≤ ptr + p.blockSize) :
    Tracks b { w with mem := w.mem.write addr bytes } shelves := by
  obtain ⟨positive, s, here, lent⟩ := (tracks.known poolId ptr).mp out
  obtain ⟨q, slot, keeps⟩ := forall₂_right tracks.keeps here
  have same : p = q := Option.some.inj (found.symm.trans slot)
  subst same
  obtain ⟨above, below⟩ := keeps.block_inside lent
  have kept : Keeps b (w.mem.write addr bytes) p s :=
    ⟨keeps.represents.write lent first last, keeps.size⟩
  have inside (x : Nat) (outside : x < s.label.raw ∨ s.label.raw + s.label.len ≤ x) :
      w.mem.write addr bytes x = w.mem x := Memory.write_outside x (by omega)
  refine ⟨?_, tracks.apart, tracks.once, tracks.known⟩
  apply forall₂_at tracks.keeps slot here kept
  intro j q t other _ there holds
  exact tracks.others here inside j q t other there holds

theorem Tracks.write (tracks : w.Tracks b shelves) {addr : Nat} (byte : UInt8)
    (valid : w.Valid (.write addr byte)) :
    Tracks b { w with mem := w.mem.write addr [byte] } shelves := by
  obtain ⟨⟨poolId, ptr⟩, out, first, last⟩ := valid
  obtain ⟨positive, s, here, lent⟩ := (tracks.known poolId ptr).mp out
  obtain ⟨p, slot, keeps⟩ := forall₂_right tracks.keeps here
  have found : w.registry.slot? poolId = some p := slot
  rw [found] at last
  exact tracks.store out found first last

theorem take_layout (size margin : Nat) (shelves : List (Shelf (Region b) Nat)) :
    (Shelves.take size margin shelves).2.map layout = shelves.map layout := by
  cases found : (Shelves.take size margin shelves).1 with
  | none => rw [Shelves.take_kept found]
  | some out =>
      obtain ⟨i, x⟩ := out
      obtain ⟨s, here, _, granted, left, _⟩ := Shelves.take_some found
      obtain ⟨_, all, _⟩ := Stock.get_some granted
      rw [left]
      apply map_set_same layout here
      exact congrArg (Prod.mk s.size) all

theorem Tracks.slot_of_lent (tracks : w.Tracks b shelves) {poolId ptr : Nat}
    {s : Shelf (Region b) Nat} (here : shelves[poolId - 1]? = some s) (lent : s.stock.Lent ptr) :
    ∃ p, w.registry.slot? poolId = some p ∧ p.blockSize = s.size ∧
      ptr + p.blockSize ≤ b.max := by
  obtain ⟨p, slot, keeps⟩ := forall₂_right tracks.keeps here
  obtain ⟨_, below⟩ := keeps.block_inside lent
  exact ⟨p, slot, keeps.size.symm, below.trans s.label.fits⟩

theorem Tracks.alloc_some (tracks : w.Tracks b shelves) {size margin poolId ptr : Nat}
    (ran : w.alloc b size margin = .ok (some (poolId, ptr), w')) :
    ∃ shelves' p s, w'.Tracks b shelves' ∧ (poolId, ptr) ∈ w'.allocated ∧
      w'.registry.slot? poolId = some p ∧ size ≤ p.blockSize ∧ ptr + p.blockSize ≤ b.max ∧
      shelves'.length = shelves.length ∧ shelves'[poolId - 1]? = some s ∧
      (shelves'.set (poolId - 1) (s.returned ptr)).map Shelf.offer =
        shelves.map Shelf.offer := by
  obtain ⟨w₁, ran', next⟩ := tracks.alloc size margin
  rw [ran] at ran'
  cases found : (Shelves.take size margin shelves).1 with
  | none =>
      rw [found] at ran'
      cases ran'
  | some out =>
      obtain ⟨i, x⟩ := out
      rw [found] at ran'
      cases ran'
      obtain ⟨s, here, ⟨fits, _⟩, granted, left, _⟩ := Shelves.take_some found
      obtain ⟨out, offer⟩ := Shelf.offer_returned granted
      have inside : i < shelves.length := (List.getElem?_eq_some_iff.mp here).1
      rw [left] at next
      have there : (shelves.set i (s.taken margin))[i + 1 - 1]? = some (s.taken margin) := by
        rw [Nat.add_sub_cancel]
        exact List.getElem?_set_self inside
      obtain ⟨p, slot, size_eq, reach⟩ := next.slot_of_lent there out
      refine ⟨_, p, _, next, (next.known _ _).mpr ⟨Nat.succ_pos i, _, there, out⟩, slot,
        fits.trans_eq size_eq.symm, reach, List.length_set, there, ?_⟩
      rw [Nat.add_sub_cancel, List.set_set]
      exact map_set_same Shelf.offer here offer

theorem Tracks.serves_iff (tracks : w.Tracks b shelves) {size margin : Nat} :
    (∃ p ∈ w.registry.slots, p.Serves b size margin) ↔ ∃ s ∈ shelves, s.Serves size margin := by
  constructor
  · rintro ⟨p, member, serves⟩
    obtain ⟨i, slot⟩ := List.getElem?_of_mem member
    obtain ⟨s, here, keeps⟩ := forall₂_left tracks.keeps slot
    exact ⟨s, List.mem_of_getElem? here, (keeps.serves_iff size margin).mp serves⟩
  · rintro ⟨s, member, serves⟩
    obtain ⟨i, here⟩ := List.getElem?_of_mem member
    obtain ⟨p, slot, keeps⟩ := forall₂_right tracks.keeps here
    exact ⟨p, List.mem_of_getElem? slot, (keeps.serves_iff size margin).mpr serves⟩

theorem Tracks.perform (tracks : w.Tracks b shelves) {op : RegistryOp} (valid : w.Valid op) :
    ∃ w' shelves', w.perform b op = .ok w' ∧ w'.Tracks b shelves' ∧
      shelves'.map layout = shelves.map layout := by
  cases op with
  | alloc size margin =>
      obtain ⟨w', ran, next⟩ := tracks.alloc size margin
      refine ⟨w', _, ?_, next, take_layout size margin shelves⟩
      rw [RegistryWorld.perform, ran]
      rfl
  | free poolId ptr =>
      obtain ⟨w', s, here, lent, ran, next⟩ := tracks.free valid
      refine ⟨w', _, ran, next, ?_⟩
      apply map_set_same layout here
      exact congrArg (Prod.mk s.size) (Stock.put_lent lent).2.1
  | write addr byte => exact ⟨_, shelves, rfl, tracks.write byte valid, rfl⟩

end RegistryWorld

/-! ## Registration -/

theorem keeps_frame {mem mem' : Memory} {slots : List QMPool}
    {shelves : List (Shelf (Region b) Nat)}
    (keeps : List.Forall₂ (Keeps b mem) slots shelves)
    (same : ∀ r ∈ shelves.map Shelf.label, ∀ x, r.raw ≤ x → x < r.raw + r.len →
      mem' x = mem x) : List.Forall₂ (Keeps b mem') slots shelves := by
  induction keeps with
  | nil => exact .nil
  | cons here rest ih =>
      rw [List.map_cons, List.forall_mem_cons] at same
      exact .cons ⟨here.represents.frame same.1, here.size⟩ (ih same.2)

theorem register_keeps {pools : List (Region b × Nat)} {reg reg' : PoolRegistry}
    {mem mem' : Memory} {shelves : List (Shelf (Region b) Nat)}
    (ran : PoolRegistry.register b pools reg mem = .ok (reg', mem'))
    (apart : (shelves.map Shelf.label ++ pools.map Prod.fst).Pairwise fun r r' =>
      Apart r.raw r.len r'.raw r'.len)
    (keeps : List.Forall₂ (Keeps b mem) reg.slots shelves)
    (unused : ∀ s ∈ shelves, ∀ ptr, ¬s.stock.Lent ptr) :
    ∃ shelves', List.Forall₂ (Keeps b mem') reg'.slots shelves' ∧
      shelves'.map Shelf.label = shelves.map Shelf.label ++ pools.map Prod.fst ∧
      ∀ s ∈ shelves', ∀ ptr, ¬s.stock.Lent ptr := by
  induction pools generalizing reg mem shelves with
  | nil =>
      cases ran
      exact ⟨shelves, keeps, (List.append_nil _).symm, unused⟩
  | cons first rest ih =>
      obtain ⟨region, blockSize⟩ := first
      obtain ⟨⟨id, reg₁, mem₁⟩, registered, ran⟩ := bind_ok ran
      rw [PoolRegistry.initPool] at registered
      split at registered
      · cases registered
      · obtain ⟨⟨n, pool, linked⟩, made, registered⟩ := bind_ok registered
        cases registered
        obtain ⟨distinct, represents⟩ := QMPool.init_represents made
        let added : Shelf (Region b) Nat := ⟨region, pool.blockSize, .full _ distinct⟩
        have joined : (shelves ++ [added]).map Shelf.label ++ rest.map Prod.fst =
            shelves.map Shelf.label ++ ((region, blockSize) :: rest).map Prod.fst := by
          simp [added]
        have kept : List.Forall₂ (Keeps b mem₁) reg.slots shelves := by
          apply keeps_frame keeps
          intro r member x from_r to_r
          apply QMPool.init_outside made
          have apart_r := (List.pairwise_append.mp apart).2.2 r member region List.mem_cons_self
          rcases apart_r with below | above
          · exact .inl (by omega)
          · exact .inr (by omega)
        have all_kept : List.Forall₂ (Keeps b mem₁) (reg.slots ++ [pool]) (shelves ++ [added]) :=
          List.rel_append kept (.cons ⟨represents, rfl⟩ .nil)
        have all_unused : ∀ s ∈ shelves ++ [added], ∀ ptr, ¬s.stock.Lent ptr := by
          intro s member ptr lent
          rcases List.mem_append.mp member with old | new
          · exact unused s old ptr lent
          · cases List.mem_singleton.mp new
            exact lent.2 lent.1
        rw [← joined] at apart ⊢
        exact ih ran apart all_kept all_unused

/-- The size of the blocks that `init` makes for a requested size. -/
def roundedSize (b : Build) (blockSize : Nat) : Nat :=
  max (divCeil blockSize b.align * b.align) (2 * b.align)

theorem divCeil_mul (x y : Nat) (positive : 0 < y) :
    x ≤ divCeil x y * y ∧ divCeil x y * y < x + y := by
  have parts := Nat.div_add_mod x y
  have partly := Nat.mod_lt x positive
  rw [Nat.mul_comm] at parts
  rw [divCeil]
  split
  · rw [Nat.succ_mul]
    omega
  · omega

theorem roundedSize_mono {x y : Nat} (le : x ≤ y) : roundedSize b x ≤ roundedSize b y := by
  have ceil : divCeil x b.align * b.align ≤ divCeil y b.align * b.align := by
    apply Nat.mul_le_mul_right
    obtain ⟨_, below⟩ := divCeil_mul x b.align b.align_pos
    obtain ⟨above, _⟩ := divCeil_mul y b.align b.align_pos
    by_contra more
    have next : (divCeil y b.align + 1) * b.align ≤ divCeil x b.align * b.align :=
      Nat.mul_le_mul_right _ (Nat.lt_of_not_le more)
    rw [Nat.succ_mul] at next
    omega
  exact max_le_max ceil (Nat.le_refl _)

theorem init_blockSize {region : Region b} {blockSize n : Nat} {mem mem' : Memory} {p : QMPool}
    (small : blockSize + b.align ≤ b.max)
    (made : QMPool.init b region blockSize mem = .ok (n, p, mem')) :
    p.blockSize = roundedSize b blockSize := by
  rw [QMPool.init] at made
  split at made
  · cases made
  · obtain ⟨blk, rounded, made⟩ := bind_ok made
    obtain ⟨_, below⟩ := divCeil_mul blockSize b.align b.align_pos
    rw [Build.mul_ok (by omega)] at rounded
    cases rounded
    obtain ⟨sum, _, made⟩ := bind_ok made
    obtain ⟨top, _, made⟩ := bind_ok made
    obtain ⟨offset, _, made⟩ := bind_ok made
    dsimp only at made
    split at made
    · cases made
    · cases made
      rfl

theorem register_blockSizes {pools : List (Region b × Nat)} {reg reg' : PoolRegistry}
    {mem mem' : Memory} (small : ∀ pool ∈ pools, pool.2 + b.align ≤ b.max)
    (ran : PoolRegistry.register b pools reg mem = .ok (reg', mem')) :
    reg'.slots.map QMPool.blockSize =
      reg.slots.map QMPool.blockSize ++ pools.map fun pool => roundedSize b pool.2 := by
  induction pools generalizing reg mem with
  | nil =>
      cases ran
      exact (List.append_nil _).symm
  | cons first rest ih =>
      obtain ⟨region, blockSize⟩ := first
      obtain ⟨⟨id, reg₁, mem₁⟩, registered, ran⟩ := bind_ok ran
      rw [PoolRegistry.initPool] at registered
      split at registered
      · cases registered
      · obtain ⟨⟨n, pool, linked⟩, made, registered⟩ := bind_ok registered
        cases registered
        have size := init_blockSize (small _ List.mem_cons_self) made
        rw [ih (fun pool member => small pool (List.mem_cons_of_mem _ member)) ran]
        simp [size]

/-- Pools requested in order of block size have blocks in order of size, unless the rounding of a
size wraps. -/
theorem register_sorted {pools : List (Region b × Nat)} {reg : PoolRegistry} {mem mem' : Memory}
    (small : ∀ pool ∈ pools, pool.2 + b.align ≤ b.max)
    (increasing : (pools.map Prod.snd).Pairwise (· ≤ ·))
    (made : PoolRegistry.register b pools .new mem = .ok (reg, mem')) :
    (reg.slots.map QMPool.blockSize).Pairwise (· ≤ ·) := by
  have sizes : reg.slots.map QMPool.blockSize = (pools.map Prod.snd).map (roundedSize b) := by
    rw [register_blockSizes small made, List.map_map]
    rfl
  rw [sizes]
  exact increasing.map (roundedSize b) fun _ _ => roundedSize_mono

theorem register_few {pools : List (Region b × Nat)} {reg reg' : PoolRegistry} {mem mem' : Memory}
    (few : reg.slots.length ≤ MAX_POOLS)
    (ran : PoolRegistry.register b pools reg mem = .ok (reg', mem')) :
    reg'.slots.length ≤ MAX_POOLS := by
  induction pools generalizing reg mem with
  | nil =>
      cases ran
      exact few
  | cons first rest ih =>
      obtain ⟨⟨id, reg₁, mem₁⟩, registered, ran⟩ := bind_ok ran
      rw [PoolRegistry.initPool] at registered
      split at registered
      · cases registered
      · rename_i room
        obtain ⟨⟨n, pool, linked⟩, made, registered⟩ := bind_ok registered
        cases registered
        apply ih _ ran
        rw [List.length_append]
        exact Nat.lt_of_not_le room

namespace RegistryWorld

variable {w : RegistryWorld} {shelves : List (Shelf (Region b) Nat)}

theorem start_tracks {pools : List (Region b × Nat)} {reg : PoolRegistry} {mem mem' : Memory}
    (made : PoolRegistry.register b pools .new mem = .ok (reg, mem'))
    (apart : (pools.map Prod.fst).Pairwise fun r r' => Apart r.raw r.len r'.raw r'.len) :
    ∃ shelves, (start reg mem').Tracks b shelves := by
  let none_yet : List (Shelf (Region b) Nat) := []
  obtain ⟨shelves, keeps, labels, unused⟩ := @register_keeps b pools .new reg mem mem' none_yet made
    apart .nil fun s member => absurd member List.not_mem_nil
  refine ⟨shelves, keeps, ?_, List.nodup_nil, ?_⟩
  · rw [labels]
    exact apart
  · intro poolId ptr
    constructor
    · intro member
      exact absurd member List.not_mem_nil
    · rintro ⟨_, s, here, lent⟩
      exact absurd lent (unused s (List.mem_of_getElem? here) ptr)

theorem Tracks.getFree (tracks : w.Tracks b shelves) (poolId : Nat) :
    w.registry.getFree b poolId =
      .ok (shelves[poolId - 1]?.map fun s => s.stock.free.length) := by
  cases here : shelves[poolId - 1]? with
  | none =>
      have beyond : w.registry.slot? poolId = none := by
        rw [List.getElem?_eq_none_iff, ← tracks.keeps.length_eq] at here
        exact List.getElem?_eq_none here
      rw [PoolRegistry.getFree, beyond]
      rfl
  | some s =>
      obtain ⟨p, slot, keeps⟩ := forall₂_right tracks.keeps here
      have found : w.registry.slot? poolId = some p := slot
      rw [PoolRegistry.getFree, found]
      dsimp only
      rw [keeps.getFree]
      rfl

theorem Tracks.moves {w' : RegistryWorld} {i : Nat} {s t : Shelf (Region b) Nat}
    (tracks : w.Tracks b shelves) (here : shelves[i]? = some s)
    (tracks' : w'.Tracks b (shelves.set i t)) :
    w.registry.Moves b w'.registry (i + 1) s.stock.free.length t.stock.free.length := by
  have inside : i < shelves.length := (List.getElem?_eq_some_iff.mp here).1
  refine ⟨?_, ?_, ?_⟩
  · rw [tracks.getFree, Nat.add_sub_cancel, here]
    rfl
  · rw [tracks'.getFree, Nat.add_sub_cancel, List.getElem?_set_self inside]
    rfl
  · intro other positive differs
    rw [tracks'.getFree, tracks.getFree, List.getElem?_set_ne (by omega)]

theorem Tracks.selects (tracks : w.Tracks b shelves)
    (sorted : (shelves.map Shelf.size).Pairwise (· ≤ ·)) (size margin : Nat) :
    ∃ answer w', w.alloc b size margin = .ok (answer, w') ∧
      w.Selects b size margin w' answer := by
  obtain ⟨w', ran, next⟩ := tracks.alloc size margin
  refine ⟨_, w', ran, ?_⟩
  cases found : (Shelves.take size margin shelves).1 with
  | none =>
      constructor
      · intro p member serves
        obtain ⟨i, slot⟩ := List.getElem?_of_mem member
        obtain ⟨s, here, keeps⟩ := forall₂_left tracks.keeps slot
        exact Shelves.take_none.mp found s (List.mem_of_getElem? here)
          ((keeps.serves_iff size margin).mp serves)
      · intro poolId
        rw [Shelves.take_kept found] at next
        rw [next.getFree, tracks.getFree]
  | some out =>
      obtain ⟨i, ptr⟩ := out
      obtain ⟨s, here, serves, granted, left, _⟩ := Shelves.take_some found
      obtain ⟨p, slot, keeps⟩ := forall₂_right tracks.keeps here
      obtain ⟨fresh, lent⟩ := Stock.get_lent granted
      have shape := (Stock.get_some granted).1
      rw [left] at next
      have moves := tracks.moves here next
      rw [shape, List.length_cons] at moves
      refine ⟨p, Nat.succ_pos i, slot, (keeps.serves_iff size margin).mpr serves, ?_, ?_, ?_, _,
        moves⟩
      · intro q member q_serves
        obtain ⟨j, slot'⟩ := List.getElem?_of_mem member
        obtain ⟨t, there, keeps'⟩ := forall₂_left tracks.keeps slot'
        rw [← keeps.size, ← keeps'.size]
        exact Shelves.take_smallest sorted found here there
          ((keeps'.serves_iff size margin).mp q_serves)
      · have owned : ptr ∈ s.stock.all := by
          apply s.stock.owned
          rw [shape]
          exact List.mem_cons_self
        rw [keeps.represents.all] at owned
        obtain ⟨k, member, block⟩ := List.mem_map.mp owned
        exact ⟨k, List.mem_range.mp member, block.symm⟩
      · intro member
        obtain ⟨_, s', same, lent'⟩ := (tracks.known (i + 1) ptr).mp member
        rw [Nat.add_sub_cancel, here] at same
        cases same
        exact fresh lent'

theorem Tracks.restores (tracks : w.Tracks b shelves) {poolId ptr : Nat}
    (out : (poolId, ptr) ∈ w.allocated) : ∃ w', w.free b poolId ptr = .ok w' ∧
      ∃ n, w.registry.Moves b w'.registry poolId n (n + 1) := by
  obtain ⟨positive, _⟩ := (tracks.known poolId ptr).mp out
  obtain ⟨w', s, here, lent, ran, next⟩ := tracks.free out
  have moves := tracks.moves here next
  rw [Shelf.returned, (Stock.put_lent lent).1, List.length_cons,
    Nat.sub_add_cancel positive] at moves
  exact ⟨w', ran, _, moves⟩

theorem Tracks.counted (tracks : w.Tracks b shelves) {poolId : Nat} {s : Shelf (Region b) Nat}
    (positive : 0 < poolId) (here : shelves[poolId - 1]? = some s) :
    s.stock.free.length + w.allocated.countP (fun out => out.1 == poolId) =
      s.stock.all.length := by
  let lent := (w.allocated.filter fun out => out.1 == poolId).map Prod.snd
  have once : lent.Nodup := by
    refine List.Nodup.map_on ?_ (tracks.once.filter _)
    intro out member out' member' same
    have mine := (List.mem_filter.mp member).2
    have mine' := (List.mem_filter.mp member').2
    rw [beq_iff_eq] at mine mine'
    exact Prod.ext (mine.trans mine'.symm) same
  have known (ptr : Nat) : ptr ∈ lent ↔ s.stock.Lent ptr := by
    rw [← out_iff positive here, ← tracks.known]
    simp [lent]
  have total := Stock.length_lent once known
  rwa [List.length_map, ← List.countP_eq_length_filter] at total

theorem Tracks.conserved (tracks : w.Tracks b shelves) {poolId : Nat} {p : QMPool}
    (positive : 0 < poolId) (slot : w.registry.slot? poolId = some p) :
    ∃ free use, w.registry.getFree b poolId = .ok (some free) ∧
      w.registry.getUse b poolId = .ok (some use) ∧ free + use = p.numBlocks ∧
      use = w.allocated.countP fun out => out.1 == poolId := by
  obtain ⟨s, here, keeps⟩ := forall₂_left tracks.keeps slot
  have total := tracks.counted positive here
  have blocks : s.stock.all.length = p.numBlocks := by
    rw [keeps.represents.all, List.length_map, List.length_range]
  rw [blocks] at total
  refine ⟨_, _, ?_, ?_, total, rfl⟩
  · rw [tracks.getFree, here]
    rfl
  · have rest : p.numBlocks - s.stock.free.length =
        w.allocated.countP fun out => out.1 == poolId := by omega
    rw [PoolRegistry.getUse, slot]
    dsimp only
    rw [QMPool.getUse, keeps.getFree, ok_bind, Build.sub_ok (by omega), rest]
    rfl

theorem Tracks.selective (tracks : w.Tracks b shelves)
    (sorted : (shelves.map Shelf.size).Pairwise (· ≤ ·)) : w.Selective b where
  alloc := tracks.selects sorted
  free := fun _ _ out => tracks.restores out
  conserved := fun _ _ positive slot => tracks.conserved positive slot

theorem keeps_layout {mem : Memory} {slots : List QMPool}
    (keeps : List.Forall₂ (Keeps b mem) slots shelves) :
    slots.map QMPool.blockSize = (shelves.map layout).map Prod.fst ∧
      slots.map QMPool.numBlocks = (shelves.map layout).map (·.2.length) := by
  induction keeps with
  | nil => exact ⟨rfl, rfl⟩
  | @cons p s slots shelves here rest ih =>
      have blocks : p.numBlocks = s.stock.all.length := by
        rw [here.represents.all, List.length_map, List.length_range]
      exact ⟨congrArg₂ List.cons here.size.symm ih.1, congrArg₂ List.cons blocks ih.2⟩

/-- The invariant of a run. -/
theorem run_tracks {ops : List RegistryOp} {last : RegistryWorld} (begun : w.Tracks b shelves)
    (ran : run (step b) w ops = some last) :
    ∃ shelves', last.Tracks b shelves' ∧ shelves'.map layout = shelves.map layout := by
  have preserved (w₁ : RegistryWorld) (op : RegistryOp) (w₂ : RegistryWorld)
      (kept : ∃ shelves', w₁.Tracks b shelves' ∧ shelves'.map layout = shelves.map layout)
      (stepped : step b w₁ op = some w₂) :
      ∃ shelves', w₂.Tracks b shelves' ∧ shelves'.map layout = shelves.map layout := by
    obtain ⟨shelves₁, tracks, same⟩ := kept
    rw [step] at stepped
    split at stepped
    · rename_i valid
      obtain ⟨after, shelves₂, performed, next, same'⟩ := tracks.perform valid
      rw [performed] at stepped
      cases stepped
      exact ⟨shelves₂, next, same'.trans same⟩
    · cases stepped
  exact run_preserves preserved ⟨shelves, begun, rfl⟩ ran

/-- In every run over a registry whose pools came in order of their block size, requests are
served by the smallest pool that can, and no block of a pool gets lost. -/
theorem run_selective (b : Build) (pools : List (Region b × Nat)) (reg : PoolRegistry)
    (mem linked : Memory) (made : PoolRegistry.register b pools .new mem = .ok (reg, linked))
    (apart : (pools.map Prod.fst).Pairwise fun r r' => Apart r.raw r.len r'.raw r'.len)
    (sorted : (reg.slots.map QMPool.blockSize).Pairwise (· ≤ ·))
    (ops : List RegistryOp) (last : RegistryWorld)
    (ran : run (step b) (start reg linked) ops = some last) :
    last.Selective b ∧
      last.registry.slots.map QMPool.blockSize = reg.slots.map QMPool.blockSize ∧
      last.registry.slots.map QMPool.numBlocks = reg.slots.map QMPool.numBlocks := by
  obtain ⟨shelves, begun⟩ := start_tracks made apart
  obtain ⟨shelves', tracks, same⟩ := run_tracks begun ran
  obtain ⟨first_sizes, first_counts⟩ := keeps_layout begun.keeps
  obtain ⟨sizes, counts⟩ := keeps_layout tracks.keeps
  rw [same] at sizes counts
  have equal : last.registry.slots.map QMPool.blockSize = reg.slots.map QMPool.blockSize :=
    sizes.trans first_sizes.symm
  refine ⟨tracks.selective ?_, equal, counts.trans first_counts.symm⟩
  have by_size : shelves'.map Shelf.size = reg.slots.map QMPool.blockSize := by
    calc shelves'.map Shelf.size = (shelves'.map layout).map Prod.fst := by
          rw [List.map_map]
          rfl
      _ = (shelves.map layout).map Prod.fst := by rw [same]
      _ = reg.slots.map QMPool.blockSize := first_sizes.symm
  rw [by_size]
  exact sorted

/-! Two pools, of four blocks of 16 bytes and of three of 32. -/

def target64 : Build := ⟨3, true, true⟩

def two : List (Region target64 × Nat) :=
  [(⟨4099, 70, by decide⟩, 10), (⟨8192, 96, by decide⟩, 30)]

theorem run_selective_two : ∃ reg linked last,
    PoolRegistry.register target64 two .new (fun _ => 170) = .ok (reg, linked) ∧
      run (step target64) (start reg linked)
        [.alloc 10 0, .alloc 10 3, .alloc 20 0, .write 4104 9, .free 1 4104, .alloc 12 1] =
          some last ∧
      last.Selective target64 := by
  have runs : ((PoolRegistry.register target64 two .new (fun _ => 170)).toOption.bind fun made =>
      if (made.1.slots.map QMPool.blockSize).Pairwise (· ≤ ·) then
        run (step target64) (start made.1 made.2)
          [.alloc 10 0, .alloc 10 3, .alloc 20 0, .write 4104 9, .free 1 4104, .alloc 12 1]
      else none).isSome := by
    decide +kernel
  obtain ⟨last, ran⟩ := Option.isSome_iff_exists.mp runs
  cases made : PoolRegistry.register target64 two .new (fun _ => 170) with
  | error fault =>
      rw [made] at ran
      cases ran
  | ok result =>
      obtain ⟨reg, linked⟩ := result
      rw [made] at ran
      change (if _ then _ else none) = some last at ran
      split at ran
      · rename_i sorted
        exact ⟨reg, linked, last, rfl, ran, (run_selective target64 two reg _ linked made
          (List.pairwise_pair.mpr (.inl (by decide))) sorted _ last ran).1⟩
      · cases ran

end RegistryWorld

end QpRs.Pool
