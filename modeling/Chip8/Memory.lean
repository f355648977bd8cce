import Chip8.Font

/-!
# Memory

4096 bytes, one for each address. Words lie with the high byte first, and what runs past the end
goes on at address zero. The lemmas say what each write does to the byte at every address.
-/

namespace Chip8

structure Memory where
  bytes : Vector Byte 4096
  deriving DecidableEq

namespace Memory

def size : Nat := 4096

/-- The number of bytes from the start address to the end: the room for a program. -/
def room : Nat := size - Address.start.val

def read (m : Memory) (a : Address) : Byte :=
  m.bytes[a]

def write (m : Memory) (a : Address) (b : Byte) : Memory :=
  ⟨m.bytes.set a b⟩

def readWord (m : Memory) (a : Address) : Word :=
  Word.ofBytes (m.read a) (m.read (a.advance 1))

def writeWord (m : Memory) (a : Address) (w : Word) : Memory :=
  (m.write a w.high).write (a.advance 1) w.low

/-- Writes bytes one after the other, so that of two that meet the later one stays. -/
def writeAll (m : Memory) (a : Address) : List Byte → Memory
  | [] => m
  | b :: rest => (m.write a b).writeAll (a.advance 1) rest

def readAll (m : Memory) (a : Address) (count : Nat) : List Byte :=
  (List.range count).map fun k => m.read (a.advance k)

def slice (m : Memory) (first last : Nat) : List Byte :=
  (m.bytes.toList.take last).drop first

def blank : Memory :=
  ⟨Vector.replicate 4096 0⟩

def initial : Memory :=
  blank.writeAll Font.base Font.sheet

def fitting (rom : List Byte) : List Byte :=
  rom.take room

/-- Puts a ROM image at the start address and drops what does not fit. -/
def loadRom (m : Memory) (rom : List Byte) : Memory :=
  m.writeAll .start (fitting rom)

def loadWords (m : Memory) (words : List Word) : Memory :=
  (words.foldl (fun (m, a) w => (m.writeWord a w, a.advance 2)) (m, Address.start)).1

def summary (_ : Memory) : String :=
  "Memory(" ++ Numeral.decimal size ++ " bytes)"

@[ext] theorem ext {m n : Memory} (h : ∀ a, m.read a = n.read a) : m = n := by
  cases m; cases n
  congr
  apply Vector.ext
  intro i hi
  exact h ⟨i, hi⟩

theorem read_write (m : Memory) (a c : Address) (b : Byte) :
    (m.write a b).read c = if a = c then b else m.read c := by
  simp [read, write, Vector.getElem_set, Fin.ext_iff]

@[simp] theorem read_write_self (m : Memory) (a : Address) (b : Byte) :
    (m.write a b).read a = b := by
  simp [read_write]

theorem read_write_of_ne (m : Memory) {a c : Address} (b : Byte) (h : a ≠ c) :
    (m.write a b).read c = m.read c := by
  simp [read_write, h]

theorem readWord_writeWord (m : Memory) (a : Address) (w : Word) :
    (m.writeWord a w).readWord a = w := by
  have apart : a.advance 1 ≠ a := by
    intro same
    have := congrArg Fin.val same
    simp at this
    omega
  rw [readWord, writeWord, read_write_self, read_write_of_ne _ _ apart, read_write_self,
    Word.ofBytes_high_low]

theorem read_writeWord_of_ne (m : Memory) {a c : Address} (w : Word) (high : c ≠ a)
    (low : c ≠ a.advance 1) : (m.writeWord a w).read c = m.read c := by
  rw [writeWord, read_write_of_ne _ _ low.symm, read_write_of_ne _ _ high.symm]

theorem writeWord_readWord (m : Memory) (a : Address) : m.writeWord a (m.readWord a) = m := by
  ext c
  rw [writeWord, readWord, Word.high_ofBytes, Word.low_ofBytes, read_write, read_write]
  split
  · next same => rw [same]
  · split
    · next same => rw [same]
    · rfl

theorem writeAll_append (m : Memory) (a : Address) (front back : List Byte) :
    m.writeAll a (front ++ back) =
      (m.writeAll a front).writeAll (a.advance front.length) back := by
  induction front generalizing m a with
  | nil => simp [writeAll, Address.advance_zero]
  | cons b front ih => simp [writeAll, ih, Address.advance_advance, Nat.add_comm]

theorem read_writeAll_of_ne (m : Memory) {a c : Address} {data : List Byte}
    (apart : ∀ k < data.length, c ≠ a.advance k) : (m.writeAll a data).read c = m.read c := by
  induction data generalizing m a with
  | nil => rfl
  | cons b rest ih =>
    have first : c ≠ a := by simpa [Address.advance_zero] using apart 0 (by simp)
    have later : ∀ k < rest.length, c ≠ (a.advance 1).advance k := by
      intro k bound
      rw [Address.advance_advance, Nat.add_comm]
      exact apart (k + 1) (by simpa using bound)
    rw [writeAll, ih _ later, read_write_of_ne _ _ first.symm]

/-- Of the bytes written to one place, the last one stays. -/
theorem read_writeAll_of_last (m : Memory) {a c : Address} {data : List Byte} {k : Nat}
    (inside : k < data.length) (place : a.advance k = c)
    (last : ∀ j, k < j → j < data.length → c ≠ a.advance j) :
    (m.writeAll a data).read c = data[k] := by
  induction data generalizing m a k with
  | nil => simp at inside
  | cons b rest ih =>
    simp only [List.length_cons] at inside last
    have later (j : Nat) : (a.advance 1).advance j = a.advance (j + 1) := by
      rw [Address.advance_advance, Nat.add_comm]
    rw [writeAll]
    cases k with
    | zero =>
      rw [Address.advance_zero] at place
      subst place
      rw [read_writeAll_of_ne]
      · simp
      · intro j bound
        rw [later]
        exact last (j + 1) (by omega) (by omega)
    | succ k =>
      rw [ih _ (by omega) ((later k).trans place)]
      · simp
      · intro j after bound
        rw [later]
        exact last (j + 1) (by omega) (by omega)

/-- Bytes that do not reach round to their own start lie in memory one behind the other. -/
theorem read_writeAll (m : Memory) (a : Address) {data : List Byte} (fits : data.length ≤ size)
    {k : Nat} (inside : k < data.length) : (m.writeAll a data).read (a.advance k) = data[k] := by
  unfold size at fits
  apply read_writeAll_of_last _ inside rfl
  intro j after bound same
  have := congrArg Fin.val same
  simp at this
  omega

theorem readAll_writeAll (m : Memory) (a : Address) {data : List Byte} (fits : data.length ≤ size) :
    (m.writeAll a data).readAll a data.length = data := by
  unfold readAll
  apply List.ext_getElem
  · simp
  · intro k _ inside
    simp [read_writeAll m a fits inside]

theorem readAll_advance (m : Memory) (a : Address) {j k n : Nat} (inside : j + k ≤ n) :
    m.readAll (a.advance j) k = ((m.readAll a n).drop j).take k := by
  unfold readAll
  apply List.ext_getElem
  · simp
    omega
  · intro i _ _
    simp [Address.advance_advance]

theorem length_fitting (rom : List Byte) : (fitting rom).length = min rom.length room := by
  simp [fitting, Nat.min_comm]

theorem length_fitting_le (rom : List Byte) : (fitting rom).length ≤ room := by
  rw [length_fitting]
  exact Nat.min_le_right _ _

end Memory

end Chip8
