import QpRs.Lib.Bytes

/-! Memory of bytes, words in it, and lists of indices threaded through it. -/

namespace QpRs.Lib

abbrev Memory : Type := Nat → UInt8

/-- The ranges of `n` bytes from `a` and of `k` bytes from `b` have no byte in common. -/
def Apart (a n b k : Nat) : Prop := a + n ≤ b ∨ b + k ≤ a

theorem Apart.symm {a n b k : Nat} (apart : Apart a n b k) : Apart b k a n := Or.symm apart

theorem Apart.within {a n b k a' n' b' k' : Nat} (apart : Apart a n b k) (left : a ≤ a')
    (left_end : a' + n' ≤ a + n) (right : b ≤ b') (right_end : b' + k' ≤ b + k) :
    Apart a' n' b' k' := by
  rcases apart with before | after
  · exact Or.inl (by omega)
  · exact Or.inr (by omega)

namespace Memory

variable {mem mem' : Memory} {a b n k value : Nat} {bytes : List UInt8}

def read (mem : Memory) (a n : Nat) : List UInt8 := (List.range n).map fun i => mem (a + i)

def write (mem : Memory) (a : Nat) (bytes : List UInt8) : Memory := fun x =>
  if a ≤ x then bytes[x - a]?.getD (mem x) else mem x

def readWord (mem : Memory) (n a : Nat) : Nat := fromLeBytes (mem.read a n)

def writeWord (mem : Memory) (n a value : Nat) : Memory := mem.write a (toLeBytes n value)

theorem read_congr (same : ∀ x, a ≤ x → x < a + n → mem x = mem' x) :
    mem.read a n = mem'.read a n := by
  refine List.map_congr_left ?_
  intro i member
  have low : i < n := List.mem_range.mp member
  exact same (a + i) (by omega) (by omega)

theorem write_outside (x : Nat) (outside : x < a ∨ a + bytes.length ≤ x) :
    mem.write a bytes x = mem x := by
  by_cases behind : a ≤ x
  · have far : bytes.length ≤ x - a := by omega
    rw [write, if_pos behind, List.getElem?_eq_none far, Option.getD_none]
  · exact if_neg behind

theorem read_write : (mem.write a bytes).read a bytes.length = bytes := by
  refine List.ext_getElem (by simp [read]) ?_
  intro i _ inside
  simp [read, write, inside]

theorem read_write_apart (apart : Apart a n b bytes.length) :
    (mem.write b bytes).read a n = mem.read a n := by
  refine read_congr ?_
  intro x first last
  refine write_outside x ?_
  rcases apart with before | after
  · exact Or.inl (by omega)
  · exact Or.inr (by omega)

theorem readWord_writeWord (fits : value < 256 ^ n) :
    (mem.writeWord n a value).readWord n a = value := by
  have sized := length_toLeBytes n value
  calc
    _ = fromLeBytes ((mem.write a (toLeBytes n value)).read a (toLeBytes n value).length) := by
      rw [sized]
      rfl
    _ = value := by rw [read_write, fromLeBytes_toLeBytes fits]

theorem readWord_write_apart (apart : Apart a n b bytes.length) :
    (mem.write b bytes).readWord n a = mem.readWord n a := by
  rw [readWord, read_write_apart apart, readWord]

theorem readWord_writeWord_apart (apart : Apart a n b k) :
    (mem.writeWord k b value).readWord n a = mem.readWord n a := by
  refine readWord_write_apart ?_
  rw [length_toLeBytes]
  exact apart

end Memory

/-- How the values of a type lie in memory: those with `fits`, which have a representation. -/
structure Stored {α : Type} (fits : α → Prop) where
  size : Nat
  bytes : α → List UInt8
  value : List UInt8 → α
  length_bytes : ∀ x, (bytes x).length = size
  value_bytes : ∀ x, fits x → value (bytes x) = x

namespace Stored

variable {α : Type} {fits : α → Prop} (stored : Stored fits) {mem : Memory} {a b : Nat} {x : α}

def read (mem : Memory) (a : Nat) : α := stored.value (mem.read a stored.size)

def write (mem : Memory) (a : Nat) (x : α) : Memory := mem.write a (stored.bytes x)

theorem read_write (has : fits x) : stored.read (stored.write mem a x) a = x := by
  have whole : (mem.write a (stored.bytes x)).read a stored.size = stored.bytes x := by
    rw [← stored.length_bytes x]
    exact Memory.read_write
  rw [read, write, whole, stored.value_bytes x has]

theorem read_write_apart {bytes : List UInt8} (apart : Apart a stored.size b bytes.length) :
    stored.read (mem.write b bytes) a = stored.read mem a := by
  rw [read, Memory.read_write_apart apart, read]

end Stored

/-- The list of the indices that are met on the way from `head` to `stop`. -/
def Threads (next : Nat → Nat) (stop : Nat) : Nat → List Nat → Prop
  | head, [] => head = stop
  | head, i :: rest => head = i ∧ Threads next stop (next i) rest

variable {next next' : Nat → Nat} {stop head : Nat} {indices : List Nat}

theorem Threads.congr (threads : Threads next stop head indices)
    (same : ∀ i ∈ indices, next' i = next i) : Threads next' stop head indices := by
  induction indices generalizing head with
  | nil => exact threads
  | cons i rest ih =>
      refine ⟨threads.1, ?_⟩
      rw [same i List.mem_cons_self]
      exact ih threads.2 fun j member => same j (List.mem_cons_of_mem i member)

theorem threads_range {n : Nat} (linked : ∀ i < n, next i = if i + 1 < n then i + 1 else stop)
    (count first : Nat) (ends : first + (count + 1) = n) :
    Threads next stop first (List.range' first (count + 1)) := by
  induction count generalizing first with
  | zero =>
      have last : ¬first + 1 < n := by omega
      refine ⟨rfl, ?_⟩
      rw [linked first (by omega), if_neg last]
      rfl
  | succ count ih =>
      have more : first + 1 < n := by omega
      refine ⟨rfl, ?_⟩
      rw [linked first (by omega), if_pos more]
      exact ih (first + 1) (by omega)

end QpRs.Lib
