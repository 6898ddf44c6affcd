import QpRs.Lib.Claims
import QpRs.Lib.Run

/-! The pool of frames (`comms/src/buf.rs`), used by any number of contexts. Each step of a context
is one access to the atomic mask of the free frames. -/

namespace QpRs.Comms

open QpRs.Lib

abbrev FRAME_POOL_SIZE : Nat := 8

/-- Where a context is in `alloc`. -/
inductive AllocPc where
  | idle
  | load
  | exchange (mask : UInt8)
  | returned (answer : Option Nat)
  deriving DecidableEq, Repr

def AllocPc.Rests : AllocPc → Prop
  | .idle => True
  | .returned _ => True
  | _ => False

instance : DecidablePred AllocPc.Rests
  | .idle => inferInstanceAs (Decidable True)
  | .returned _ => inferInstanceAs (Decidable True)
  | .load => inferInstanceAs (Decidable False)
  | .exchange _ => inferInstanceAs (Decidable False)

/-- `held` are the indices that a context got and has not given back. -/
structure FramePool (ι : Type) where
  freeMask : UInt8
  pc : ι → AllocPc
  held : ι → List Nat

inductive FrameStep where
  | alloc
  | load
  | exchange
  | free (idx : Nat)
  deriving DecidableEq, Repr

/-- `u8::trailing_zeros` -/
def trailingZeros (mask : UInt8) : Nat := mask.toBitVec.ctz.toNat

def frameBit (idx : Nat) : UInt8 := 1 <<< UInt8.ofNat idx

namespace FramePool

variable {ι : Type} [DecidableEq ι]

def new : FramePool ι := ⟨0xFF, fun _ => .idle, fun _ => []⟩

def goto (s : FramePool ι) (t : ι) (pc : AllocPc) : FramePool ι :=
  { s with pc := Function.update s.pc t pc }

/-- `compare_exchange` with the mask that was loaded. -/
def exchange (s : FramePool ι) (t : ι) (mask : UInt8) : FramePool ι :=
  let bit := trailingZeros mask
  if s.freeMask = mask then
    { s with
      freeMask := mask &&& ~~~frameBit bit
      held := Function.update s.held t (bit :: s.held t) }.goto t (.returned (some bit))
  else s.goto t .load

def step (s : FramePool ι) : ι × FrameStep → Option (FramePool ι)
  | (t, .alloc) => if (s.pc t).Rests then some (s.goto t .load) else none
  | (t, .load) =>
    match s.pc t with
    | .load =>
      if s.freeMask = 0 then some (s.goto t (.returned none))
      else some (s.goto t (.exchange s.freeMask))
    | _ => none
  | (t, .exchange) =>
    match s.pc t with
    | .exchange mask => some (s.exchange t mask)
    | _ => none
  | (t, .free idx) =>
    if (s.pc t).Rests ∧ idx ∈ s.held t then
      some { s with
        freeMask := s.freeMask ||| frameBit idx
        held := Function.update s.held t ((s.held t).erase idx) }
    else none

omit [DecidableEq ι] in
def Free (s : FramePool ι) (i : Nat) : Prop := s.freeMask.toBitVec.getLsbD i = true

/-- No frame has two holders, and what nobody holds is free. -/
structure Sound (s : FramePool ι) : Prop where
  alone : ∀ t t' i, i ∈ s.held t → i ∈ s.held t' → t = t'
  once : ∀ t, (s.held t).Nodup
  known : ∀ t, ∀ i ∈ s.held t, i < FRAME_POOL_SIZE
  free : ∀ i < FRAME_POOL_SIZE, (∀ t, i ∉ s.held t) → s.Free i
  /-- When a call returns nothing, every frame was held at its last load. -/
  exhausted : ∀ label s' t, s.step label = some s' → s.pc t ≠ .returned none →
    s'.pc t = .returned none → ∀ i < FRAME_POOL_SIZE, ∃ t', i ∈ s.held t'

end FramePool

/-! ## Bits -/

theorem getLsbD_frameBit {idx : Nat} (low : idx < FRAME_POOL_SIZE) (i : Nat) :
    (frameBit idx).toBitVec.getLsbD i = decide (i = idx) := by
  change idx < 8 at low
  have amount : ((UInt8.ofNat idx).toBitVec % 8).toNat = idx := by
    change idx % 2 ^ 8 % 8 = idx
    omega
  rw [frameBit, UInt8.toBitVec_shiftLeft, BitVec.shiftLeft_eq', amount, BitVec.getLsbD_shiftLeft]
  change (decide (i < 8) && !decide (i < idx) && (1#8).getLsbD (i - idx)) = decide (i = idx)
  rw [BitVec.getLsbD_one, Bool.eq_iff_iff]
  simp only [Bool.and_eq_true, Bool.not_eq_true', decide_eq_true_eq, decide_eq_false_iff_not]
  omega

theorem getLsbD_trailingZeros {mask : UInt8} (some_free : mask ≠ 0) :
    mask.toBitVec.getLsbD (trailingZeros mask) = true := by
  apply BitVec.getLsbD_true_ctz_of_ne_zero
  intro zero
  exact some_free (UInt8.toBitVec_inj.mp zero)

theorem trailingZeros_lt {mask : UInt8} (some_free : mask ≠ 0) :
    trailingZeros mask < FRAME_POOL_SIZE :=
  BitVec.lt_of_getLsbD (getLsbD_trailingZeros some_free)

namespace FramePool

variable {ι : Type} [DecidableEq ι] {s s' : FramePool ι} {t : ι} {i : Nat}

/-- The free mask is the complement of what the contexts hold; the marks name the holders. -/
structure Tracks (s : FramePool ι) (mark : Nat → Option ι) : Prop where
  exclusive : Claims.Exclusive (⟨mark, s.held, fun _ => none⟩ : Claims ι Nat)
  known : ∀ t, ∀ i ∈ s.held t, i < FRAME_POOL_SIZE
  free : ∀ i < FRAME_POOL_SIZE, s.Free i ↔ mark i = none
  loaded : ∀ t mask, s.pc t = .exchange mask → mask ≠ 0

theorem new_tracks : (new : FramePool ι).Tracks fun _ => none where
  exclusive := Claims.Exclusive.none_held fun _ => rfl
  known := fun t i member => absurd member List.not_mem_nil
  free := by
    have all : ∀ i < FRAME_POOL_SIZE, (0xFF : UInt8).toBitVec.getLsbD i = true := by decide
    exact fun i low => iff_of_true (all i low) rfl
  loaded := fun t mask here => nomatch here

theorem Tracks.goto {mark : Nat → Option ι} (tracks : s.Tracks mark) {pc : AllocPc}
    (loaded : ∀ mask, pc = .exchange mask → mask ≠ 0) : (s.goto t pc).Tracks mark where
  exclusive := tracks.exclusive
  known := tracks.known
  free := tracks.free
  loaded := by
    intro t' mask here
    change Function.update s.pc t pc t' = .exchange mask at here
    by_cases mine : t' = t
    · subst mine
      rw [Function.update_self] at here
      exact loaded mask here
    · rw [Function.update_of_ne mine] at here
      exact tracks.loaded t' mask here

theorem Tracks.exchange {mark : Nat → Option ι} (tracks : s.Tracks mark) {mask : UInt8}
    (some_free : mask ≠ 0) : ∃ mark', (s.exchange t mask).Tracks mark' := by
  rw [FramePool.exchange]
  split
  · rename_i same
    subst same
    have low := trailingZeros_lt some_free
    have unheld := (tracks.free _ low).mp (getLsbD_trailingZeros some_free)
    have taken := tracks.exclusive.take (k := t) unheld fun _ _ => nofun
    rw [Function.update_eq_self_iff.mpr rfl] at taken
    refine ⟨Function.update mark (trailingZeros s.freeMask) (some t), Tracks.goto ?_ nofun⟩
    refine ⟨taken, ?_, ?_, tracks.loaded⟩
    · intro t' i member
      change i ∈ Function.update s.held t (trailingZeros s.freeMask :: s.held t) t' at member
      by_cases mine : t' = t
      · subst mine
        rw [Function.update_self] at member
        rcases List.mem_cons.mp member with rfl | old
        · exact low
        · exact tracks.known t' i old
      · rw [Function.update_of_ne mine] at member
        exact tracks.known t' i member
    · intro i inside
      have before := tracks.free i inside
      rw [Free] at before ⊢
      change i < 8 at inside
      rw [UInt8.toBitVec_and, UInt8.toBitVec_not, BitVec.getLsbD_and, BitVec.getLsbD_not,
        getLsbD_frameBit low]
      by_cases taken_bit : i = trailingZeros s.freeMask
      · subst taken_bit
        simp
      · rw [Function.update_of_ne taken_bit, ← before]
        simp [inside, taken_bit]
  · exact ⟨mark, tracks.goto nofun⟩

inductive Moves (s : FramePool ι) : FramePool ι → Prop where
  | alloc (t : ι) : Moves s (s.goto t .load)
  | empty (t : ι) (none_free : s.freeMask = 0) : Moves s (s.goto t (.returned none))
  | loaded (t : ι) (some_free : s.freeMask ≠ 0) : Moves s (s.goto t (.exchange s.freeMask))
  | exchanged (t : ι) (mask : UInt8) (here : s.pc t = .exchange mask) : Moves s (s.exchange t mask)
  | freed (t : ι) (idx : Nat) (holds : idx ∈ s.held t) :
      Moves s { s with
        freeMask := s.freeMask ||| frameBit idx
        held := Function.update s.held t ((s.held t).erase idx) }

theorem step_moves {label : ι × FrameStep} (stepped : s.step label = some s') : s.Moves s' := by
  obtain ⟨t, a⟩ := label
  cases a with
  | alloc =>
      rw [FramePool.step] at stepped
      split at stepped
      · cases stepped
        exact .alloc t
      · cases stepped
  | load =>
      rw [FramePool.step] at stepped
      split at stepped
      · split at stepped
        · rename_i none_free
          cases stepped
          exact .empty t none_free
        · rename_i some_free
          cases stepped
          exact .loaded t some_free
      · cases stepped
  | exchange =>
      rw [FramePool.step] at stepped
      split at stepped
      · rename_i mask here
        cases stepped
        exact .exchanged t mask here
      · cases stepped
  | free idx =>
      rw [FramePool.step] at stepped
      split at stepped
      · rename_i valid
        cases stepped
        exact .freed t idx valid.2
      · cases stepped

theorem Tracks.release {mark : Nat → Option ι} (tracks : s.Tracks mark) (holds : i ∈ s.held t) :
    Tracks { s with
      freeMask := s.freeMask ||| frameBit i
      held := Function.update s.held t ((s.held t).erase i) } (Function.update mark i none) where
  exclusive := tracks.exclusive.release (List.perm_cons_erase holds)
  known := by
    intro t' j member
    change j ∈ Function.update s.held t ((s.held t).erase i) t' at member
    by_cases mine : t' = t
    · subst mine
      rw [Function.update_self] at member
      exact tracks.known t' j (List.mem_of_mem_erase member)
    · rw [Function.update_of_ne mine] at member
      exact tracks.known t' j member
  free := by
    intro j inside
    have before := tracks.free j inside
    rw [Free] at before ⊢
    rw [UInt8.toBitVec_or, BitVec.getLsbD_or, getLsbD_frameBit (tracks.known t i holds)]
    by_cases mine : j = i
    · subst mine
      simp
    · rw [Function.update_of_ne mine, ← before]
      simp [mine]
  loaded := tracks.loaded

theorem Tracks.step {mark : Nat → Option ι} (tracks : s.Tracks mark) {label : ι × FrameStep}
    (stepped : s.step label = some s') : ∃ mark', s'.Tracks mark' := by
  cases step_moves stepped with
  | alloc t => exact ⟨mark, tracks.goto nofun⟩
  | empty t none_free => exact ⟨mark, tracks.goto nofun⟩
  | loaded t some_free =>
      refine ⟨mark, tracks.goto ?_⟩
      intro mask same
      cases same
      exact some_free
  | exchanged t mask here => exact tracks.exchange (tracks.loaded t mask here)
  | freed t idx holds => exact ⟨_, tracks.release holds⟩

theorem Tracks.held_iff {mark : Nat → Option ι} (tracks : s.Tracks mark) :
    i ∈ s.held t ↔ mark i = some t := tracks.exclusive.mem_iff t i

theorem empty_of_returned {label : ι × FrameStep} (stepped : s.step label = some s')
    (before : s.pc t ≠ .returned none) (after : s'.pc t = .returned none) : s.freeMask = 0 := by
  have moved {r : FramePool ι} {u : ι} {pc : AllocPc} (unmoved : r.pc = s.pc)
      (here : (r.goto u pc).pc t = .returned none) : pc = .returned none := by
    change Function.update r.pc u pc t = .returned none at here
    rw [unmoved] at here
    by_cases mine : t = u
    · subst mine
      rwa [Function.update_self] at here
    · rw [Function.update_of_ne mine] at here
      exact absurd here before
  cases step_moves stepped with
  | alloc u => cases moved rfl after
  | empty u none_free => exact none_free
  | loaded u some_free => cases moved rfl after
  | exchanged u mask here =>
      rw [FramePool.exchange] at after
      split at after
      · cases moved rfl after
      · cases moved rfl after
  | freed u idx holds => exact absurd after before

theorem Tracks.sound {mark : Nat → Option ι} (tracks : s.Tracks mark) : s.Sound where
  alone := fun t t' i here there => tracks.exclusive.unique here there
  once := tracks.exclusive.nodup
  known := tracks.known
  free := by
    intro i low unheld
    rw [tracks.free i low]
    cases marked : mark i with
    | none => rfl
    | some t => exact absurd (tracks.held_iff.mpr marked) (unheld t)
  exhausted := by
    intro label s' t stepped before after i low
    have empty := empty_of_returned stepped before after
    cases marked : mark i with
    | none =>
        have free := (tracks.free i low).mpr marked
        rw [Free, empty] at free
        have none_free : (0 : UInt8).toBitVec.getLsbD i = false := BitVec.getLsbD_zero
        rw [none_free] at free
        cases free
    | some holder => exact ⟨holder, tracks.held_iff.mpr marked⟩

/-- In every interleaving the frames have one holder each or are free, and a call that returns
nothing has seen all of them held. -/
theorem frames_exclusive (labels : List (ι × FrameStep)) (last : FramePool ι)
    (ran : run step new labels = some last) : last.Sound := by
  have preserved (s : FramePool ι) (label : ι × FrameStep) (s' : FramePool ι)
      (kept : ∃ mark, s.Tracks mark) (stepped : s.step label = some s') :
      ∃ mark, s'.Tracks mark := by
    obtain ⟨mark, tracks⟩ := kept
    exact tracks.step stepped
  obtain ⟨mark, tracks⟩ := run_preserves preserved ⟨_, new_tracks⟩ ran
  exact tracks.sound

/-- Two contexts load the same mask; the exchange of the slower one fails. -/
def contended : List (Bool × FrameStep) :=
  [(false, .alloc), (true, .alloc), (false, .load), (true, .load), (true, .exchange),
    (false, .exchange), (false, .load), (false, .exchange), (true, .free 0), (true, .alloc),
    (true, .load), (true, .exchange)]

theorem contended_sound : ∃ last, run step new contended = some last ∧ last.Sound := by
  have runs : (run step new contended).isSome := by decide +kernel
  obtain ⟨last, ran⟩ := Option.isSome_iff_exists.mp runs
  exact ⟨last, ran, frames_exclusive contended last ran⟩

end FramePool

end QpRs.Comms
