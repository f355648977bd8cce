import Chip8.Proofs.Checked.Memory

/-!
# Memory round its end

Addresses are words, and a distance too far for a word is cut down to one before it is added. As
twelve bits divide sixteen, all of it comes to counting round the end of memory, and of the bytes
that fall on one place the last one stays. Main statement: `memory_round_end`.
-/

namespace Chip8

/-! ## The last write -/

/-- Place `k` is the last of `count` places from `a` on that falls on `b`, counted round the end. -/
structure LastOn (a b count k : Nat) : Prop where
  inside : k < count
  falls : (a + k) % 4096 = b % 4096
  last : ∀ j, k < j → j < count → (a + j) % 4096 ≠ b % 4096

theorem Address.ofNat_val (a : Address) : ofNat a.val = a :=
  Fin.ext (Nat.mod_eq_of_lt a.isLt)

theorem Address.advance_ofNat_eq_iff {a b k : Nat} :
    (ofNat a).advance k = ofNat b ↔ (a + k) % 4096 = b % 4096 := by
  rw [Fin.ext_iff]
  simp

namespace Memory

variable (m : Memory) {a b : Nat} {data : List Byte}

theorem read_writeAll_of_lastOn {k : Nat} (last : LastOn a b data.length k) :
    data[k]? = some ((m.writeAll (.ofNat a) data).read (.ofNat b)) := by
  rw [List.getElem?_eq_getElem last.inside, read_writeAll_of_last m last.inside]
  · exact Address.advance_ofNat_eq_iff.2 last.falls
  · intro j after bound same
    exact last.last j after bound (Address.advance_ofNat_eq_iff.1 same.symm)

theorem read_writeAll_of_missed (missed : ∀ k < data.length, (a + k) % 4096 ≠ b % 4096) :
    (m.writeAll (.ofNat a) data).read (.ofNat b) = m.read (.ofNat b) := by
  apply read_writeAll_of_ne
  intro k bound same
  exact missed k bound (Address.advance_ofNat_eq_iff.1 same.symm)

end Memory

/-! ## Words as addresses -/

namespace Checked

/-- Writes bytes one after the other, from the `k`-th on, each at its distance from the address. The
distance is cut down to a word, and the sum wraps. -/
def writeEach (m : Memory) (a : Word) (k : Nat) : List Byte → Option Memory
  | [] => some m
  | b :: rest => do writeEach (← write m (a + UInt16.ofNat k) b) a (k + 1) rest

theorem writeEach_spec (m : Memory) (a : Word) (k : Nat) (data : List Byte) :
    writeEach m a k data = some (m.writeAll (a.address.advance k) data) := by
  induction data generalizing m k with
  | nil => rfl
  | cons b rest ih =>
    simp only [writeEach, write_spec, address_add_ofNat, Option.bind_eq_bind, Option.bind_some]
    rw [ih, Memory.writeAll, Address.advance_advance]

theorem writeEach_zero (m : Memory) (a : Word) (data : List Byte) :
    writeEach m a 0 data = some (m.writeAll a.address data) := by
  rw [writeEach_spec, Address.advance_zero]

theorem address_mod (a : Word) : (a % 4096).address = a.address := by
  apply Fin.ext
  simp

theorem address_ne {a b : Word} {k : Nat} (apart : b.toNat % 4096 ≠ (a.toNat + k) % 4096) :
    b.address ≠ a.address.advance k := by
  intro same
  exact apart (Address.advance_ofNat_eq_iff.1 same.symm).symm

/-- **Memory goes round its end.** Of the bytes that a list puts on one place the last one stays, and
a place that the list misses stays as it was, however long the list. A word that was written is read
again, also where it lies round the end, and changes two bytes at most; written back where it was
read, it changes none. Of an address only its low twelve bits count. -/
theorem memory_round_end (m : Memory) (a b : Word) :
    (∀ data : List Byte,
      writeEach m a 0 data = some (m.writeAll a.address data) ∧
      (∀ k, LastOn a.toNat b.toNat data.length k →
        read (m.writeAll a.address data) b = data[k]?) ∧
      ((∀ k < data.length, (a.toNat + k) % 4096 ≠ b.toNat % 4096) →
        read (m.writeAll a.address data) b = read m b)) ∧
    (∀ w : Word,
      writeWord m a w = some (m.writeWord a.address w) ∧
      readWord (m.writeWord a.address w) a = some w ∧
      (b.toNat % 4096 ≠ a.toNat % 4096 → b.toNat % 4096 ≠ (a.toNat + 1) % 4096 →
        read (m.writeWord a.address w) b = read m b)) ∧
    (readWord m a = some (m.readWord a.address) ∧ writeWord m a (m.readWord a.address) = some m) ∧
    (read m a = some (m.read a.address) ∧
      ∀ byte, write m a byte = some (m.write a.address byte)) ∧
    read m (a % 4096) = read m a ∧ readWord m (a % 4096) = readWord m a ∧
    (∀ byte, write m (a % 4096) byte = write m a byte) ∧
    (∀ w, writeWord m (a % 4096) w = writeWord m a w) ∧
    ∀ data, writeEach m (a % 4096) 0 data = writeEach m a 0 data := by
  refine ⟨?_, ?_, ?_, ⟨read_spec m a, write_spec m a⟩, ?_, ?_, ?_, ?_, ?_⟩
  · intro data
    refine ⟨writeEach_zero m a data, ?_, ?_⟩
    · intro k last
      rw [read_spec]
      exact (m.read_writeAll_of_lastOn last).symm
    · intro missed
      rw [read_spec, read_spec]
      exact congrArg some (m.read_writeAll_of_missed missed)
  · intro w
    refine ⟨writeWord_spec m a w, ?_, ?_⟩
    · rw [readWord_spec, Memory.readWord_writeWord]
    · intro high low
      have first : b.address ≠ a.address := by
        rw [← a.address.advance_zero]
        exact address_ne high
      rw [read_spec, read_spec, m.read_writeWord_of_ne w first (address_ne low)]
  · refine ⟨readWord_spec m a, ?_⟩
    rw [writeWord_spec, Memory.writeWord_readWord]
  · rw [read_spec, read_spec, address_mod]
  · rw [readWord_spec, readWord_spec, address_mod]
  · intro byte
    rw [write_spec, write_spec, address_mod]
  · intro w
    rw [writeWord_spec, writeWord_spec, address_mod]
  · intro data
    rw [writeEach_zero, writeEach_zero, address_mod]

theorem memory_round_end_long :
    let long := List.replicate 65536 (7 : Byte) ++ [9]
    let last : Word := 0xFFFF
    LastOn 0xFFFF 0x0FFF long.length 65536 ∧
      read (Memory.initial.writeAll last.address long) 0x0FFF = some 9 ∧
      read (Memory.initial.writeAll last.address [1, 2]) 0x0050 = some 0xF0 ∧
      read (Memory.initial.writeWord last.address 0x1234) 0x0050 = some 0xF0 := by
  intro long last
  have before : (List.replicate 65536 (7 : Byte)).length = 65536 := List.length_replicate
  have count : long.length = 65537 := by rw [List.length_append, before]; rfl
  have font : read Memory.initial 0x0050 = some 0xF0 := by decide +kernel
  have final : LastOn 0xFFFF 0x0FFF long.length 65536 := by
    rw [count]
    exact ⟨by omega, by omega, by omega⟩
  refine ⟨final, ?_, ?_, ?_⟩
  · rw [((memory_round_end Memory.initial last 0x0FFF).1 long).2.1 65536 final, ← before]
    exact List.getElem?_concat_length
  · rw [((memory_round_end Memory.initial last 0x0050).1 [1, 2]).2.2, font]
    decide
  · rw [((memory_round_end Memory.initial last 0x0050).2.1 0x1234).2.2, font] <;> decide

end Checked

end Chip8
