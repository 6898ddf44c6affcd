import Mathlib.Order.Bounds.Defs
import QpRs.Lib.Run
import QpRs.Pool.QMPool

/-! A pool and the application that uses it: blocks are taken, overwritten and put back in any
order. -/

namespace QpRs.Pool

open QpRs.Lib

/-- `allocated` holds the blocks handed out and not put back, `counts` the free counts so far. -/
structure PoolWorld where
  pool : QMPool
  mem : Memory
  allocated : List Nat
  counts : List Nat

inductive PoolOp where
  | get (margin : Nat)
  | put (block : Nat)
  | write (addr : Nat) (byte : UInt8)
  deriving DecidableEq, Repr

namespace PoolWorld

def start (pool : QMPool) (mem : Memory) : PoolWorld := ⟨pool, mem, [], [pool.freeCnt.value]⟩

/-- Blocks are put back, and written to, while they are allocated. -/
def Valid (w : PoolWorld) : PoolOp → Prop
  | .get _ => True
  | .put block => block ∈ w.allocated
  | .write addr _ => ∃ block ∈ w.allocated, block ≤ addr ∧ addr < block + w.pool.blockSize

instance (w : PoolWorld) : DecidablePred w.Valid
  | .get _ => inferInstanceAs (Decidable True)
  | .put block => inferInstanceAs (Decidable (block ∈ w.allocated))
  | .write _ _ => inferInstanceAs (Decidable (∃ block ∈ w.allocated, _))

def perform (b : Build) (w : PoolWorld) : PoolOp → Except Fault PoolWorld
  | .get margin => do
    let (answer, pool) ← w.pool.get b w.mem margin
    pure { w with
      pool := pool
      allocated := answer.toList ++ w.allocated
      counts := pool.freeCnt.value :: w.counts }
  | .put block => do
    let (pool, mem) ← w.pool.put b w.mem block
    pure { w with
      pool := pool
      mem := mem
      allocated := w.allocated.erase block
      counts := pool.freeCnt.value :: w.counts }
  | .write addr byte => .ok { w with mem := w.mem.write addr [byte] }

def step (b : Build) (w : PoolWorld) (op : PoolOp) : Option PoolWorld :=
  if w.Valid op then (w.perform b op).toOption else none

/-- The free list from `free_head` on is `chain`. -/
def FreeList (b : Build) (w : PoolWorld) (chain : List Nat) : Prop :=
  w.pool.Linked b w.mem w.pool.freeHead.value chain

/-- What holds of a pool between any two calls. -/
structure Sound (b : Build) (region : Region b) (w : PoolWorld) : Prop where
  list : ∃ chain, w.FreeList b chain ∧ chain.Nodup ∧ chain.length = w.pool.freeCnt.value ∧
    (∀ i ∈ chain, i < w.pool.numBlocks) ∧
    ∀ i, i < w.pool.numBlocks → (w.pool.block i ∈ w.allocated ↔ i ∉ chain)
  allocated : w.allocated.Nodup ∧
    ∀ ptr ∈ w.allocated, ∃ i, i < w.pool.numBlocks ∧ w.pool.block i = ptr
  aligned : ∀ i, i < w.pool.numBlocks → b.align ∣ w.pool.block i
  inside : ∀ i, i < w.pool.numBlocks → region.raw ≤ w.pool.block i ∧
    w.pool.block i + w.pool.blockSize ≤ region.raw + region.len
  disjoint : ∀ i j, i ≠ j →
    Apart (w.pool.block i) w.pool.blockSize (w.pool.block j) w.pool.blockSize
  get : ∀ margin, ∃ answer after, w.pool.get b w.mem margin = .ok (answer, after) ∧
    (answer.isSome ↔ margin + 1 ≤ w.pool.freeCnt.value) ∧
    ∀ ptr, answer = some ptr →
      ptr ∉ w.allocated ∧ ∃ i, i < w.pool.numBlocks ∧ w.pool.block i = ptr
  mark : IsLeast { count | count ∈ w.counts } w.pool.freeMin.value

/-- The stock of blocks behind a world. -/
structure Tracks (b : Build) (region : Region b) (w : PoolWorld) (s : Stock Nat) : Prop where
  represents : w.pool.Represents b region w.mem s
  allocated : w.allocated.Nodup ∧ ∀ ptr, ptr ∈ w.allocated ↔ s.Lent ptr
  mark : IsLeast { count | count ∈ w.counts } s.least

variable {b : Build} {region : Region b} {w w' : PoolWorld} {s : Stock Nat}

theorem Tracks.sound (tracks : w.Tracks b region s) : w.Sound b region := by
  obtain ⟨represents, ⟨once, lent⟩, mark⟩ := tracks
  obtain ⟨shaped, all, ⟨head, chain, headed, linked, low, free⟩, counted, lowest⟩ := id represents
  have injective := shaped.block_injective
  have owned (i : Nat) (inside : i < w.pool.numBlocks) : w.pool.block i ∈ s.all := by
    rw [all]
    exact List.mem_map_of_mem (List.mem_range.mpr inside)
  have in_free (i : Nat) : w.pool.block i ∈ s.free ↔ i ∈ chain := by
    rw [free]
    exact List.mem_map_of_injective injective
  constructor
  · refine ⟨chain, ?_, ?_, ?_, low, ?_⟩
    · rw [FreeList, headed]
      exact linked
    · have free_once := s.once
      rw [free] at free_once
      exact free_once.of_map
    · rw [counted, free, List.length_map]
      rfl
    · intro i inside
      rw [lent, Stock.Lent, in_free]
      exact and_iff_right (owned i inside)
  · exact ⟨once, fun ptr member => represents.lent_block ((lent ptr).mp member)⟩
  · exact fun i _ => shaped.block_aligned i
  · exact fun i inside =>
      ⟨shaped.above.trans (Nat.le_add_right _ _), shaped.block_inside inside⟩
  · exact fun i j other => QMPool.blocks_apart other
  · intro margin
    obtain ⟨after, ran, _⟩ := represents.get margin
    refine ⟨_, after, ran, ?_, ?_⟩
    · rw [counted]
      exact Stock.get_isSome
    · intro ptr granted
      have fresh := (Stock.get_lent granted).1
      refine ⟨fun member => fresh ((lent ptr).mp member), ?_⟩
      have on_top : ptr ∈ s.free := by
        rw [(Stock.get_some granted).1]
        exact List.mem_cons_self
      rw [free] at on_top
      obtain ⟨i, member, here⟩ := List.mem_map.mp on_top
      exact ⟨i, low i member, here⟩
  · rw [lowest]
    exact mark

theorem start_tracks {n blockSize : Nat} {pool : QMPool} {mem mem' : Memory}
    (ran : QMPool.init b region blockSize mem = .ok (n, pool, mem')) :
    ∃ s, (start pool mem').Tracks b region s := by
  obtain ⟨distinct, represents⟩ := QMPool.init_represents ran
  refine ⟨_, represents, ⟨List.nodup_nil, ?_⟩, ?_⟩
  · intro ptr
    simp [start, Stock.Lent, Stock.full]
  · have count := represents.counted
    refine ⟨?_, ?_⟩
    · simp [start, count, Stock.full, Dis.new]
    · intro other member
      simp [start, count, Stock.full, Dis.new] at member ⊢
      omega

theorem isLeast_cons {counts : List Nat} {least : Nat} (count : Nat)
    (mark : IsLeast { n | n ∈ counts } least) :
    IsLeast { n | n ∈ count :: counts } (min least count) := by
  obtain ⟨reached, lower⟩ := mark
  constructor
  · rcases Nat.le_total least count with below | above
    · rw [Nat.min_eq_left below]
      exact List.mem_cons_of_mem count reached
    · rw [Nat.min_eq_right above]
      exact List.mem_cons_self
  · intro other member
    rcases List.mem_cons.mp member with rfl | member
    · exact Nat.min_le_right _ _
    · exact (Nat.min_le_left _ _).trans (lower member)

theorem isLeast_cons_of_le {counts : List Nat} {least count : Nat}
    (mark : IsLeast { n | n ∈ counts } least) (above : least ≤ count) :
    IsLeast { n | n ∈ count :: counts } least := by
  have next := isLeast_cons count mark
  rwa [Nat.min_eq_left above] at next

theorem Tracks.get (tracks : w.Tracks b region s) (margin : Nat) :
    ∃ after, w.perform b (.get margin) = .ok after ∧ after.Tracks b region (s.get margin).2 := by
  obtain ⟨represents, ⟨once, lent⟩, mark⟩ := tracks
  obtain ⟨after, ran, represents', _⟩ := represents.get margin
  refine ⟨_, by rw [PoolWorld.perform, ran]; rfl, represents', ?_, ?_⟩
  · cases granted : (s.get margin).1 with
    | none =>
        rw [Stock.get_none granted]
        exact ⟨once, lent⟩
    | some x =>
        obtain ⟨fresh, lent'⟩ := Stock.get_lent granted
        refine ⟨List.nodup_cons.mpr ⟨fun member => fresh ((lent x).mp member), once⟩, ?_⟩
        intro ptr
        rw [lent', ← lent]
        exact List.mem_cons
  · rw [represents'.counted]
    cases granted : (s.get margin).1 with
    | none =>
        rw [Stock.get_none granted]
        exact isLeast_cons_of_le mark s.low
    | some x =>
        rw [(Stock.get_some granted).2.2]
        exact isLeast_cons _ mark

theorem Tracks.put (tracks : w.Tracks b region s) {ptr : Nat} (out : ptr ∈ w.allocated) :
    ∃ after, w.perform b (.put ptr) = .ok after ∧ after.Tracks b region (s.put ptr) := by
  obtain ⟨represents, ⟨once, lent⟩, mark⟩ := tracks
  obtain ⟨pushed, _, same_mark, lent'⟩ := Stock.put_lent ((lent ptr).mp out)
  obtain ⟨after, mem', ran, represents', _⟩ := represents.put ((lent ptr).mp out)
  refine ⟨_, by rw [PoolWorld.perform, ran]; rfl, represents', ⟨once.erase ptr, ?_⟩, ?_⟩
  · intro other
    rw [lent', ← lent, once.mem_erase_iff]
  · rw [represents'.counted, pushed, same_mark]
    exact isLeast_cons_of_le mark (s.low.trans (Nat.le_succ _))

theorem Tracks.write (tracks : w.Tracks b region s) {addr : Nat} {byte : UInt8}
    (valid : w.Valid (.write addr byte)) :
    ∃ after, w.perform b (.write addr byte) = .ok after ∧ after.Tracks b region s := by
  obtain ⟨represents, ⟨once, lent⟩, mark⟩ := tracks
  obtain ⟨block, member, first, last⟩ := valid
  exact ⟨_, rfl, represents.write ((lent block).mp member) first last, ⟨once, lent⟩, mark⟩

theorem Tracks.perform (tracks : w.Tracks b region s) {op : PoolOp} (valid : w.Valid op) :
    ∃ after s', w.perform b op = .ok after ∧ after.Tracks b region s' := by
  cases op with
  | get margin =>
      obtain ⟨after, ran, next⟩ := tracks.get margin
      exact ⟨after, _, ran, next⟩
  | put ptr =>
      obtain ⟨after, ran, next⟩ := tracks.put valid
      exact ⟨after, _, ran, next⟩
  | write addr byte =>
      obtain ⟨after, ran, next⟩ := tracks.write valid
      exact ⟨after, s, ran, next⟩

/-- In every run over a pool that `init` made, the free list and the counts stay sound and no call
stops the node. -/
theorem init_run_sound (b : Build) (region : Region b) (blockSize n : Nat) (mem linked : Memory)
    (pool : QMPool) (made : QMPool.init b region blockSize mem = .ok (n, pool, linked))
    (ops : List PoolOp) (last : PoolWorld)
    (ran : run (step b) (start pool linked) ops = some last) :
    last.Sound b region ∧ ∀ op, last.Valid op → Returns (last.perform b op) := by
  have preserved : ∀ w op w', (∃ s, w.Tracks b region s) → step b w op = some w' →
      ∃ s, w'.Tracks b region s := by
    rintro w op w' ⟨s, tracks⟩ stepped
    rw [step] at stepped
    split at stepped
    · rename_i valid
      obtain ⟨after, s', ran, next⟩ := tracks.perform valid
      rw [ran] at stepped
      cases stepped
      exact ⟨s', next⟩
    · cases stepped
  obtain ⟨s, tracks⟩ := run_preserves preserved (start_tracks made) ran
  refine ⟨tracks.sound, ?_⟩
  intro op valid
  obtain ⟨after, _, ran, _⟩ := tracks.perform valid
  exact ⟨after, ran⟩

/-! A pool of three blocks on a target of 64 bits, over storage that is not aligned. -/

def target : Build := ⟨3, true, true⟩

def shelf : Region target := ⟨4099, 60, by decide⟩

theorem shelf_run_sound : ∃ n pool linked last,
    QMPool.init target shelf 1 (fun _ => 170) = .ok (n, pool, linked) ∧
      run (step target) (start pool linked)
        [.get 0, .get 0, .write 4104 9, .put 4104, .get 2, .get 1] = some last ∧
      last.Sound target shelf := by
  have runs : ((QMPool.init target shelf 1 (fun _ => 170)).toOption.bind fun made =>
      run (step target) (start made.2.1 made.2.2)
        [.get 0, .get 0, .write 4104 9, .put 4104, .get 2, .get 1]).isSome := by decide +kernel
  obtain ⟨last, ran⟩ := Option.isSome_iff_exists.mp runs
  cases made : QMPool.init target shelf 1 (fun _ => 170) with
  | error fault =>
      rw [made] at ran
      cases ran
  | ok result =>
      obtain ⟨n, pool, linked⟩ := result
      rw [made] at ran
      exact ⟨n, pool, linked, last, rfl, ran,
        (init_run_sound target shelf 1 n _ linked pool made _ last ran).1⟩

end PoolWorld

end QpRs.Pool
