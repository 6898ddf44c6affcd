import Mathlib.Data.List.Nodup
import QpRs.Lib.Memory
import QpRs.Lib.Stock
import QpRs.Pool.Dis

/-! The pool of blocks of one size. The free blocks are threaded through their own first word, with
a copy of the link in the second. -/

namespace QpRs.Pool

open QpRs.Lib

/-- The storage handed to `init`: an allocation never reaches the end of the address space. -/
structure Region (b : Build) where
  raw : Nat
  len : Nat
  fits : raw + len ≤ b.max

def SENTINEL (b : Build) : Nat := b.max

structure QMPool where
  storage : Nat
  storageLen : Nat
  blockSize : Nat
  numBlocks : Nat
  freeHead : Dis
  freeCnt : Dis
  freeMin : Dis
  deriving DecidableEq, Repr

def divCeil (x y : Nat) : Nat := if x % y > 0 then x / y + 1 else x / y

/-- `ptr.offset_from(origin) as usize` -/
def offsetFrom (b : Build) (ptr origin : Nat) : Nat := (ptr + (b.max + 1) - origin) % (b.max + 1)

/-- The link of a free block, written in both words. -/
def writeLink (b : Build) (mem : Memory) (ptr next : Nat) : Memory :=
  (mem.writeWord b.align ptr next).writeWord b.align (ptr + b.align) next

namespace QMPool

def block (p : QMPool) (i : Nat) : Nat := p.storage + i * p.blockSize

def init (b : Build) (region : Region b) (blockSize : Nat) (mem : Memory) :
    Except Fault (Nat × QMPool × Memory) :=
  if blockSize = 0 then .error .assertion
  else do
    let align := b.align
    let blk ← b.mul (divCeil blockSize align) align
    let blk := max blk (2 * align)
    let raw := region.raw
    let sum ← b.add raw align
    let sum ← b.sub sum 1
    let alignedStart := sum &&& b.not (align - 1)
    let offset ← b.sub alignedStart raw
    let total := region.len - offset
    let n := total / blk
    if n = 0 then .error .assertion
    else
      let pool : QMPool :=
        { storage := raw + offset
          storageLen := total
          blockSize := blk
          numBlocks := n
          freeHead := Dis.new b.max 0
          freeCnt := Dis.new b.max n
          freeMin := Dis.new b.max n }
      let linked := (List.range n).foldl
        (fun mem i => writeLink b mem (pool.block i) (if i + 1 < n then i + 1 else SENTINEL b)) mem
      pure (n, pool, linked)

def get (b : Build) (p : QMPool) (mem : Memory) (margin : Nat) :
    Except Fault (Option Nat × QMPool) := do
  let freeCnt ← p.freeCnt.get b.max
  if freeCnt = 0 ∨ freeCnt - 1 < margin then pure (none, p)
  else
    let head ← p.freeHead.get b.max
    if head = SENTINEL b then pure (none, p)
    else
      let offset ← b.mul head p.blockSize
      let ptr := p.storage + offset
      let next := mem.readWord b.align ptr
      if next ≠ mem.readWord b.align (ptr + b.align) then .error .onError
      else
        let p := { p with freeHead := Dis.new b.max next }
        let newFree ← b.sub freeCnt 1
        let p := { p with freeCnt := Dis.new b.max newFree }
        let freeMin ← p.freeMin.get b.max
        if newFree < freeMin then pure (some ptr, { p with freeMin := Dis.new b.max newFree })
        else pure (some ptr, p)

def put (b : Build) (p : QMPool) (mem : Memory) (block : Nat) :
    Except Fault (QMPool × Memory) := do
  let offset := offsetFrom b block p.storage
  let idx := offset / p.blockSize
  b.debugAssert (idx < p.numBlocks)
  b.debugAssert (offset % p.blockSize = 0)
  let oldHead ← p.freeHead.get b.max
  let mem := writeLink b mem block oldHead
  let freeCnt ← p.freeCnt.get b.max
  let newCnt ← b.add freeCnt 1
  pure ({ p with freeHead := Dis.new b.max idx, freeCnt := Dis.new b.max newCnt }, mem)

/-- The blocks of a pool lie in its storage, aligned, with room for both words of a link. -/
structure Shaped (b : Build) (region : Region b) (p : QMPool) : Prop where
  aligned : b.align ∣ p.storage
  wide : b.align ∣ p.blockSize
  roomy : 2 * b.align ≤ p.blockSize
  above : region.raw ≤ p.storage
  inside : p.storage + p.numBlocks * p.blockSize ≤ region.raw + region.len

/-- The list from `head` on, with both words of every link alike. -/
structure Linked (b : Build) (p : QMPool) (mem : Memory) (head : Nat) (chain : List Nat) :
    Prop where
  threads : Threads (fun i => mem.readWord b.align (p.block i)) (SENTINEL b) head chain
  doubled : ∀ i ∈ chain,
    mem.readWord b.align (p.block i + b.align) = mem.readWord b.align (p.block i)

/-- The pool keeps this stock of block addresses. -/
structure Represents (b : Build) (region : Region b) (p : QMPool) (mem : Memory)
    (s : Stock Nat) : Prop where
  shaped : p.Shaped b region
  all : s.all = (List.range p.numBlocks).map p.block
  chain : ∃ head chain, p.freeHead = Dis.new b.max head ∧ p.Linked b mem head chain ∧
    (∀ i ∈ chain, i < p.numBlocks) ∧ s.free = chain.map p.block
  counted : p.freeCnt = Dis.new b.max s.free.length
  least : p.freeMin = Dis.new b.max s.least

end QMPool

variable {b : Build} {region : Region b} {p : QMPool} {mem : Memory} {s : Stock Nat}
  {ptr next : Nat}

/-! ## Links -/

theorem pow_align : 256 ^ b.align = b.max + 1 := by
  rw [Build.max_succ, pow_mul]
  rfl

theorem writeLink_first (fits : next ≤ b.max) :
    (writeLink b mem ptr next).readWord b.align ptr = next := by
  rw [writeLink, Memory.readWord_writeWord_apart (Or.inl (le_refl _))]
  exact Memory.readWord_writeWord (by rw [pow_align]; omega)

theorem writeLink_second (fits : next ≤ b.max) :
    (writeLink b mem ptr next).readWord b.align (ptr + b.align) = next :=
  Memory.readWord_writeWord (by rw [pow_align]; omega)

theorem writeLink_apart {a : Nat} (apart : Apart a b.align ptr (2 * b.align)) :
    (writeLink b mem ptr next).readWord b.align a = mem.readWord b.align a := by
  have second : Apart a b.align (ptr + b.align) b.align :=
    apart.within (le_refl _) (le_refl _) (by omega) (by omega)
  have first : Apart a b.align ptr b.align :=
    apart.within (le_refl _) (le_refl _) (le_refl _) (by omega)
  rw [writeLink, Memory.readWord_writeWord_apart second, Memory.readWord_writeWord_apart first]

/-! ## Blocks -/

namespace QMPool

theorem Shaped.size_pos (shaped : p.Shaped b region) : 0 < p.blockSize := by
  have align := b.align_pos
  have roomy := shaped.roomy
  omega

theorem block_le {i j : Nat} (before : i < j) : p.block i + p.blockSize ≤ p.block j := by
  have steps : (i + 1) * p.blockSize ≤ j * p.blockSize := Nat.mul_le_mul_right _ before
  rw [Nat.succ_mul] at steps
  simp only [block]
  omega

theorem blocks_apart {i j : Nat} (other : i ≠ j) :
    Apart (p.block i) p.blockSize (p.block j) p.blockSize := by
  rcases Nat.lt_or_gt_of_ne other with before | after
  · exact Or.inl (block_le before)
  · exact Or.inr (block_le after)

theorem Shaped.block_injective (shaped : p.Shaped b region) : Function.Injective p.block := by
  intro i j same
  simp only [block] at same
  exact Nat.eq_of_mul_eq_mul_right shaped.size_pos (by omega)

theorem Shaped.block_inside (shaped : p.Shaped b region) {i : Nat} (low : i < p.numBlocks) :
    p.block i + p.blockSize ≤ region.raw + region.len := by
  have steps : (i + 1) * p.blockSize ≤ p.numBlocks * p.blockSize := Nat.mul_le_mul_right _ low
  have inside := shaped.inside
  rw [Nat.succ_mul] at steps
  simp only [block]
  omega

theorem Shaped.block_aligned (shaped : p.Shaped b region) (i : Nat) : b.align ∣ p.block i :=
  Nat.dvd_add shaped.aligned (Dvd.dvd.mul_left shaped.wide i)

theorem Shaped.numBlocks_lt (shaped : p.Shaped b region) : p.numBlocks < SENTINEL b := by
  have inside := shaped.inside
  have fits := region.fits
  have many : p.numBlocks * 2 ≤ p.numBlocks * p.blockSize :=
    Nat.mul_le_mul_left _ (by have := b.align_pos; have := shaped.roomy; omega)
  have wide := b.max_pos
  simp only [SENTINEL]
  omega

/-! ## The list -/

theorem Shaped.links_apart (shaped : p.Shaped b region) {i j : Nat} (other : i ≠ j) :
    Apart (p.block i) b.align (p.block j) (2 * b.align) ∧
      Apart (p.block i + b.align) b.align (p.block j) (2 * b.align) := by
  have apart := blocks_apart (p := p) other
  have roomy := shaped.roomy
  exact ⟨apart.within (by omega) (by omega) (by omega) (by omega),
    apart.within (by omega) (by omega) (by omega) (by omega)⟩

theorem Linked.congr {mem' : Memory} {head : Nat} {chain : List Nat}
    (linked : p.Linked b mem head chain)
    (first : ∀ i ∈ chain, mem'.readWord b.align (p.block i) = mem.readWord b.align (p.block i))
    (second : ∀ i ∈ chain, mem'.readWord b.align (p.block i + b.align) =
      mem.readWord b.align (p.block i + b.align)) :
    p.Linked b mem' head chain := by
  refine ⟨linked.threads.congr first, ?_⟩
  intro i member
  rw [first i member, second i member]
  exact linked.doubled i member

theorem Linked.push (shaped : p.Shaped b region) {head i : Nat} {chain : List Nat}
    (linked : p.Linked b mem head chain) (fits : head ≤ b.max) (fresh : i ∉ chain) :
    p.Linked b (writeLink b mem (p.block i) head) i (i :: chain) := by
  have kept : p.Linked b (writeLink b mem (p.block i) head) head chain := by
    refine linked.congr ?_ ?_
    · intro j member
      exact writeLink_apart (shaped.links_apart (ne_of_mem_of_not_mem member fresh)).1
    · intro j member
      exact writeLink_apart (shaped.links_apart (ne_of_mem_of_not_mem member fresh)).2
  have word : (writeLink b mem (p.block i) head).readWord b.align (p.block i) = head :=
    writeLink_first fits
  constructor
  · refine ⟨rfl, ?_⟩
    simp only [word]
    exact kept.threads
  · intro j member
    rcases List.mem_cons.mp member with rfl | member
    · rw [word, writeLink_second fits]
    · exact kept.doubled j member

theorem Linked.congr_pool {p' : QMPool} {head : Nat} {chain : List Nat}
    (linked : p.Linked b mem head chain) (same : p'.block = p.block) :
    p'.Linked b mem head chain := by
  obtain ⟨threads, doubled⟩ := linked
  rw [← same] at threads doubled
  exact ⟨threads, doubled⟩

/-! ## The operations -/

theorem Linked.get_granted (shaped : p.Shaped b region) {i n least margin : Nat} {chain : List Nat}
    (headed : p.freeHead = Dis.new b.max i) (linked : p.Linked b mem i (i :: chain))
    (low : i < p.numBlocks) (counted : p.freeCnt = Dis.new b.max (n + 1)) (few : n + 1 ≤ b.max)
    (lowest : p.freeMin = Dis.new b.max least) (least_le : least ≤ b.max) (enough : margin ≤ n) :
    p.get b mem margin = .ok (some (p.block i), { p with
      freeHead := Dis.new b.max (mem.readWord b.align (p.block i))
      freeCnt := Dis.new b.max n
      freeMin := Dis.new b.max (min least n) }) := by
  have known := shaped.numBlocks_lt
  have count : p.freeCnt.get b.max = .ok (n + 1) := by
    rw [counted]
    exact Dis.get_new few
  have granted : ¬(n + 1 = 0 ∨ n + 1 - 1 < margin) := by omega
  have head : p.freeHead.get b.max = .ok i := by
    rw [headed]
    exact Dis.get_new (by simp only [SENTINEL] at known; omega)
  have in_list : ¬i = SENTINEL b := by omega
  have offset : b.mul i p.blockSize = .ok (i * p.blockSize) := by
    have bound := shaped.block_inside low
    have fits := region.fits
    simp only [block] at bound
    exact Build.mul_ok (by omega)
  have agree := linked.doubled i List.mem_cons_self
  have intact : ¬mem.readWord b.align (p.block i) ≠ mem.readWord b.align (p.block i + b.align) :=
    fun differ => differ agree.symm
  have fewer : b.sub (n + 1) 1 = .ok n := Build.sub_ok (by omega)
  have mark : p.freeMin.get b.max = .ok least := by
    rw [lowest]
    exact Dis.get_new least_le
  rw [get, count, ok_bind, if_neg granted, head, ok_bind, if_neg in_list, offset, ok_bind]
  simp only
  rw [← block, if_neg intact, fewer, ok_bind, mark, ok_bind]
  split
  · rename_i lower
    rw [Nat.min_eq_right (Nat.le_of_lt lower)]
    rfl
  · rename_i kept
    rw [Nat.min_eq_left (Nat.le_of_not_lt kept), ← lowest]
    rfl

theorem Represents.few (represents : p.Represents b region mem s) : s.all.length ≤ b.max := by
  have last := represents.shaped.numBlocks_lt
  rw [represents.all, List.length_map, List.length_range]
  exact Nat.le_of_lt last

theorem Represents.get (represents : p.Represents b region mem s) (margin : Nat) :
    ∃ after, p.get b mem margin = .ok ((s.get margin).1, after) ∧
      after.Represents b region mem (s.get margin).2 ∧ after.block = p.block := by
  obtain ⟨shaped, all, ⟨head, chain, headed, linked, low, free⟩, counted, least⟩ :=
    id represents
  have few := represents.few
  have few_free := s.length_free_le.trans few
  by_cases enough : margin + 1 ≤ s.free.length
  · obtain ⟨x, granted⟩ := Option.isSome_iff_exists.mp (Stock.get_isSome.mpr enough)
    obtain ⟨shape, same, mark⟩ := Stock.get_some granted
    cases chain with
    | nil =>
        rw [free] at shape
        cases shape
    | cons i chain =>
        obtain ⟨rfl, threads⟩ := id linked.threads
        have parts : p.block head = x ∧ chain.map p.block = (s.get margin).2.free := by
          rw [free] at shape
          exact List.cons.inj shape
        obtain ⟨rfl, tail_free⟩ := parts
        rw [shape, List.length_cons] at counted few_free enough
        have ran := Linked.get_granted shaped headed linked (low head List.mem_cons_self) counted
          few_free least (s.low.trans (s.length_free_le.trans few)) (Nat.le_of_succ_le_succ enough)
        rw [granted]
        refine ⟨_, ran, ⟨?_, same.trans all, ⟨_, chain, rfl, ?_, ?_, tail_free.symm⟩, rfl, ?_⟩,
          rfl⟩
        · exact ⟨shaped.aligned, shaped.wide, shaped.roomy, shaped.above, shaped.inside⟩
        · exact ⟨threads, fun i member => linked.doubled i (List.mem_cons_of_mem head member)⟩
        · exact fun i member => low i (List.mem_cons_of_mem head member)
        · rw [mark]
  · have refused : (s.get margin).1 = none := by
      rw [← Option.not_isSome_iff_eq_none, Stock.get_isSome]
      exact enough
    have short : s.free.length = 0 ∨ s.free.length - 1 < margin := by omega
    refine ⟨p, ?_, ?_, rfl⟩
    · rw [QMPool.get, counted, Dis.get_new few_free, ok_bind, if_pos short, refused]
      rfl
    · rw [Stock.get_none refused]
      exact represents

theorem offsetFrom_eq {origin : Nat} (above : origin ≤ ptr) (fits : ptr ≤ b.max) :
    offsetFrom b ptr origin = ptr - origin := by
  have shift : ptr + (b.max + 1) - origin = ptr - origin + (b.max + 1) := by omega
  rw [offsetFrom, shift, Nat.add_mod_right, Nat.mod_eq_of_lt (by omega)]

theorem Represents.lent_block (represents : p.Represents b region mem s) (lent : s.Lent ptr) :
    ∃ i, i < p.numBlocks ∧ p.block i = ptr := by
  have owned := lent.1
  rw [represents.all] at owned
  obtain ⟨i, member, here⟩ := List.mem_map.mp owned
  exact ⟨i, List.mem_range.mp member, here⟩

theorem Represents.put (represents : p.Represents b region mem s) (lent : s.Lent ptr) :
    ∃ after mem', p.put b mem ptr = .ok (after, mem') ∧
      after.Represents b region mem' (s.put ptr) ∧ after.block = p.block := by
  obtain ⟨i, inside, rfl⟩ := represents.lent_block lent
  obtain ⟨shaped, all, ⟨head, chain, headed, linked, low, free⟩, counted, least⟩ :=
    id represents
  obtain ⟨pushed, same, mark, lent_after⟩ := Stock.put_lent lent
  have known := shaped.numBlocks_lt
  simp only [SENTINEL] at known
  have outside : i ∉ chain := by
    intro member
    refine lent.2 ?_
    rw [free]
    exact List.mem_map_of_mem member
  have few : s.free.length + 1 ≤ b.max := by
    have bound := (s.put (p.block i)).length_free_le
    rw [pushed, same, List.length_cons] at bound
    exact bound.trans represents.few
  have head_fits : head ≤ b.max := by
    cases chain with
    | nil => exact linked.threads.le
    | cons j rest =>
        have below := low j List.mem_cons_self
        have first := linked.threads.1
        omega
  have fits := region.fits
  have bound := shaped.block_inside inside
  have above : p.storage ≤ p.block i := Nat.le_add_right _ _
  have offset : offsetFrom b (p.block i) p.storage = i * p.blockSize := by
    rw [offsetFrom_eq above (by omega)]
    exact Nat.add_sub_cancel_left p.storage (i * p.blockSize)
  have index : i * p.blockSize / p.blockSize = i := Nat.mul_div_cancel i shaped.size_pos
  have whole : i * p.blockSize % p.blockSize = 0 := Nat.mul_mod_left i p.blockSize
  have ran : p.put b mem (p.block i) = .ok ({ p with
      freeHead := Dis.new b.max i
      freeCnt := Dis.new b.max (s.free.length + 1) }, writeLink b mem (p.block i) head) := by
    rw [QMPool.put, offset]
    dsimp only
    rw [index, whole, Build.debugAssert_ok inside, ok_bind, Build.debugAssert_ok rfl, ok_bind,
      headed,
      Dis.get_new head_fits, ok_bind, counted, Dis.get_new (by omega), ok_bind, Build.add_ok few]
    rfl
  refine ⟨_, _, ran, ⟨?_, same.trans all, ⟨i, i :: chain, rfl, ?_, ?_, ?_⟩, ?_, ?_⟩, rfl⟩
  · exact ⟨shaped.aligned, shaped.wide, shaped.roomy, shaped.above, shaped.inside⟩
  · exact (linked.push shaped head_fits outside).congr_pool rfl
  · exact List.forall_mem_cons.mpr ⟨inside, low⟩
  · rw [pushed, free]
    rfl
  · rw [pushed]
    rfl
  · rw [mark]
    exact least

/-! ## Initialisation -/

theorem linked_all (shaped : p.Shaped b region) (mem : Memory) (link : Nat → Nat)
    (low : ∀ i, link i ≤ b.max) (m i : Nat) (inside : i < m) :
    let linked := (List.range m).foldl (fun mem i => writeLink b mem (p.block i) (link i)) mem
    linked.readWord b.align (p.block i) = link i ∧
      linked.readWord b.align (p.block i + b.align) = link i := by
  induction m with
  | zero => omega
  | succ m ih =>
      simp only [List.range_succ, List.foldl_append, List.foldl_cons, List.foldl_nil]
      by_cases last : i = m
      · subst last
        exact ⟨writeLink_first (low i), writeLink_second (low i)⟩
      · have apart := shaped.links_apart (i := i) (j := m) last
        rw [writeLink_apart apart.1, writeLink_apart apart.2]
        exact ih (by omega)

theorem align_dvd_space : b.align ∣ b.max + 1 := by
  rw [Build.max_succ]
  refine Nat.pow_dvd_pow 2 ?_
  have wide : b.wordLog < b.align := Nat.lt_two_pow_self
  omega

theorem align_dvd_mul {x y : Nat} (ran : b.mul x b.align = .ok y) : b.align ∣ y := by
  simp only [Build.mul, Build.wrap] at ran
  split at ran
  · cases ran
    exact Nat.dvd_mul_left _ _
  · split at ran
    · cases ran
    · cases ran
      exact (Nat.dvd_mod_iff align_dvd_space).mpr (Nat.dvd_mul_left _ _)

theorem and_not_align {x : Nat} (fits : x ≤ b.max) :
    x &&& b.not (b.align - 1) = x / b.align * b.align := by
  have align := b.align_pos
  have space := b.max_succ
  have inside : x < 2 ^ (8 * b.align) := by omega
  have mask : b.not (b.align - 1) = 2 ^ (8 * b.align) - (b.align - 1 + 1) := by
    rw [← space, Build.not]
    omega
  have small : b.align - 1 < 2 ^ (8 * b.align) := by
    have below : b.align < 2 ^ b.align := Nat.lt_two_pow_self
    have wider : 2 ^ b.align ≤ 2 ^ (8 * b.align) := Nat.pow_le_pow_right (by omega) (by omega)
    omega
  have shifted : x / b.align * b.align = (x >>> b.wordLog) <<< b.wordLog := by
    rw [Nat.shiftRight_eq_div_pow, Nat.shiftLeft_eq, Build.align]
  refine Nat.eq_of_testBit_eq ?_
  intro i
  rw [Nat.testBit_and, mask, Nat.testBit_two_pow_sub_succ small, shifted, Nat.testBit_shiftLeft,
    Nat.testBit_shiftRight, Build.align, Nat.testBit_two_pow_sub_one]
  by_cases low : i < b.wordLog
  · simp [low]
  · have back : b.wordLog + (i - b.wordLog) = i := by omega
    by_cases known : i < 8 * 2 ^ b.wordLog
    · simp [low, known, back, Nat.le_of_not_lt low]
    · have clear : x.testBit i = false :=
        Nat.testBit_lt_two_pow (inside.trans_le (Nat.pow_le_pow_right (by omega) (by
          rw [Build.align]
          omega)))
      simp [back, clear]

theorem init_shaped {blockSize n : Nat} {mem' : Memory}
    (ran : init b region blockSize mem = .ok (n, p, mem')) :
    p.Shaped b region ∧ p.numBlocks = n ∧ 0 < n ∧ p.freeHead = Dis.new b.max 0 ∧
      p.freeCnt = Dis.new b.max n ∧ p.freeMin = Dis.new b.max n ∧
      mem' = (List.range n).foldl
        (fun mem i => writeLink b mem (p.block i) (if i + 1 < n then i + 1 else SENTINEL b))
        mem := by
  rw [init] at ran
  split at ran
  · cases ran
  · obtain ⟨blk, rounded, ran⟩ := bind_ok ran
    obtain ⟨sum, added, ran⟩ := bind_ok ran
    obtain ⟨top, less, ran⟩ := bind_ok ran
    obtain ⟨offset, moved, ran⟩ := bind_ok ran
    dsimp only at ran
    split at ran
    · cases ran
    · rename_i positive
      cases ran
      refine ⟨?_, rfl, Nat.pos_of_ne_zero positive, rfl, rfl, rfl, rfl⟩
      have align := b.align_pos
      have wide : b.align ∣ max blk (2 * b.align) := by
        rcases Nat.le_total blk (2 * b.align) with small | large
        · rw [Nat.max_eq_right small]
          exact Nat.dvd_mul_left _ _
        · rw [Nat.max_eq_left large]
          exact align_dvd_mul rounded
      have roomy : 2 * b.align ≤ max blk (2 * b.align) := Nat.le_max_right _ _
      have used := Nat.div_mul_le_self (region.len - offset) (max blk (2 * b.align))
      have needs : max blk (2 * b.align) ≤ region.len - offset := by
        by_contra short
        exact positive (Nat.div_eq_of_lt (by omega))
      have fits := region.fits
      have reach : region.raw + b.align ≤ b.max := by omega
      rw [Build.add_ok reach] at added
      cases added
      rw [Build.sub_ok (by omega)] at less
      cases less
      rw [and_not_align (by omega)] at moved
      have rounds := Nat.div_add_mod (region.raw + b.align - 1) b.align
      have partly := Nat.mod_lt (region.raw + b.align - 1) align
      rw [Nat.mul_comm] at rounds
      rw [Build.sub_ok (by omega)] at moved
      cases moved
      have start : region.raw + ((region.raw + b.align - 1) / b.align * b.align - region.raw) =
          (region.raw + b.align - 1) / b.align * b.align := by omega
      refine ⟨?_, wide, roomy, Nat.le_add_right _ _, ?_⟩
      · rw [start]
        exact Nat.dvd_mul_left _ _
      · simp only
        omega

theorem init_represents {blockSize n : Nat} {mem' : Memory}
    (ran : init b region blockSize mem = .ok (n, p, mem')) :
    ∃ distinct, p.Represents b region mem'
      (Stock.full ((List.range p.numBlocks).map p.block) distinct) := by
  obtain ⟨shaped, rfl, positive, headed, counted, lowest, rfl⟩ := init_shaped ran
  have known := shaped.numBlocks_lt
  simp only [SENTINEL] at known
  have low (i : Nat) : (if i + 1 < p.numBlocks then i + 1 else SENTINEL b) ≤ b.max := by
    simp only [SENTINEL]
    split <;> omega
  have linked := linked_all shaped mem _ low p.numBlocks
  refine ⟨(List.nodup_map_iff shaped.block_injective).mpr List.nodup_range, shaped, rfl, ?_, ?_, ?_⟩
  · refine ⟨0, List.range p.numBlocks, headed, ⟨?_, ?_⟩, fun i => List.mem_range.mp, rfl⟩
    · have threads := threads_range (fun i inside => (linked i inside).1) (p.numBlocks - 1) 0
        (by omega)
      rwa [Nat.sub_add_cancel positive, ← List.range_eq_range'] at threads
    · intro i member
      have words := linked i (List.mem_range.mp member)
      rw [words.1, words.2]
  · simp [Stock.full, counted]
  · simp [Stock.full, lowest]

/-! ## Frames -/

theorem writeLink_outside {x : Nat} (outside : x < ptr ∨ ptr + 2 * b.align ≤ x) :
    writeLink b mem ptr next x = mem x := by
  have sized (value : Nat) : (toLeBytes b.align value).length = b.align := length_toLeBytes _ _
  rw [writeLink, Memory.writeWord, Memory.write_outside x (by rw [sized]; omega),
    Memory.writeWord, Memory.write_outside x (by rw [sized]; omega)]

theorem Represents.frame {mem' : Memory} (represents : p.Represents b region mem s)
    (same : ∀ x, region.raw ≤ x → x < region.raw + region.len → mem' x = mem x) :
    p.Represents b region mem' s := by
  obtain ⟨shaped, all, ⟨head, chain, headed, linked, low, free⟩, counted, least⟩ := represents
  have roomy := shaped.roomy
  have above (i : Nat) : region.raw ≤ p.block i := shaped.above.trans (Nat.le_add_right _ _)
  have word {a i : Nat} (member : i ∈ chain) (first : p.block i ≤ a)
      (last : a + b.align ≤ p.block i + p.blockSize) :
      mem'.readWord b.align a = mem.readWord b.align a := by
    have inside := shaped.block_inside (low i member)
    have start := above i
    refine congrArg fromLeBytes (Memory.read_congr ?_)
    intro x from_a to_a
    exact same x (by omega) (by omega)
  refine ⟨shaped, all, ⟨head, chain, headed, linked.congr ?_ ?_, low, free⟩, counted, least⟩
  · intro i member
    exact word member (Nat.le_refl _) (by omega)
  · intro i member
    exact word member (Nat.le_add_right _ _) (by omega)

theorem Represents.write (represents : p.Represents b region mem s) (lent : s.Lent ptr)
    {addr : Nat} {bytes : List UInt8} (first : ptr ≤ addr)
    (last : addr + bytes.length ≤ ptr + p.blockSize) :
    p.Represents b region (mem.write addr bytes) s := by
  obtain ⟨i, _, rfl⟩ := represents.lent_block lent
  obtain ⟨shaped, all, ⟨head, chain, headed, linked, low, free⟩, counted, lowest⟩ := represents
  have apart {j : Nat} (in_chain : j ∈ chain) :
      Apart (p.block j) p.blockSize addr bytes.length := by
    have other : j ≠ i := by
      rintro rfl
      refine lent.2 ?_
      rw [free]
      exact List.mem_map_of_mem in_chain
    exact (QMPool.blocks_apart other).within (le_refl _) (le_refl _) first last
  have roomy := shaped.roomy
  refine ⟨shaped, all, ⟨head, chain, headed, linked.congr ?_ ?_, low, free⟩, counted, lowest⟩
  · intro j in_chain
    exact Memory.readWord_write_apart
      ((apart in_chain).within (le_refl _) (by omega) (le_refl _) (le_refl _))
  · intro j in_chain
    exact Memory.readWord_write_apart
      ((apart in_chain).within (Nat.le_add_right _ _) (by omega) (le_refl _) (le_refl _))

theorem put_outside {p' : QMPool} {mem' : Memory} (ran : p.put b mem ptr = .ok (p', mem'))
    {x : Nat} (outside : x < ptr ∨ ptr + 2 * b.align ≤ x) : mem' x = mem x := by
  obtain ⟨_, _, ran⟩ := bind_ok ran
  obtain ⟨_, _, ran⟩ := bind_ok ran
  obtain ⟨oldHead, _, ran⟩ := bind_ok ran
  obtain ⟨freeCnt, _, ran⟩ := bind_ok ran
  obtain ⟨newCnt, _, ran⟩ := bind_ok ran
  cases ran
  exact writeLink_outside outside

theorem init_outside {blockSize n : Nat} {mem' : Memory}
    (ran : init b region blockSize mem = .ok (n, p, mem')) {x : Nat}
    (outside : x < region.raw ∨ region.raw + region.len ≤ x) : mem' x = mem x := by
  obtain ⟨shaped, rfl, _, _, _, _, rfl⟩ := init_shaped ran
  have roomy := shaped.roomy
  have untouched (link : Nat → Nat) (m : Nat) (few : m ≤ p.numBlocks) :
      (List.range m).foldl (fun mem i => writeLink b mem (p.block i) (link i)) mem x = mem x := by
    induction m with
    | zero => rfl
    | succ m ih =>
        have inside := shaped.block_inside (Nat.lt_of_succ_le few)
        have above : region.raw ≤ p.block m := shaped.above.trans (Nat.le_add_right _ _)
        simp only [List.range_succ, List.foldl_append, List.foldl_cons, List.foldl_nil]
        rw [writeLink_outside (by omega)]
        exact ih (Nat.le_of_succ_le few)
  exact untouched _ p.numBlocks (Nat.le_refl _)

end QMPool

end QpRs.Pool
