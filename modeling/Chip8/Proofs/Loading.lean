import Chip8.Machine.Basic
import Chip8.Proofs.Overwriting

/-!
# Two ways to load a program

A list of words is written word by word, round the end of memory if it is long; a ROM image is cut to
what fits and copied. Bytes that fit come out the same either way. Main statement: `loads_agree`.
-/

namespace Chip8

namespace Word

theorem bytes_cons (w : Word) (words : List Word) :
    bytes (w :: words) = w.high :: w.low :: bytes words := rfl

theorem length_bytes (words : List Word) : (bytes words).length = 2 * words.length := by
  induction words with
  | nil => rfl
  | cons w rest ih =>
    simp only [bytes_cons, List.length_cons, ih]
    omega

end Word

namespace Memory

variable (m : Memory)

/-! ## Words -/

theorem foldl_writeWord (a : Address) (words : List Word) :
    (words.foldl (fun (m, a) w => (m.writeWord a w, a.advance 2)) (m, a)).1 =
      m.writeAll a (Word.bytes words) := by
  induction words generalizing m a with
  | nil => rfl
  | cons w rest ih =>
    rw [List.foldl_cons, ih, Word.bytes_cons, writeAll, writeAll, Address.advance_advance, writeWord]

theorem loadWords_eq (words : List Word) : m.loadWords words = m.writeAll .start (Word.bytes words) :=
  m.foldl_writeWord .start words

/-! ## ROM images -/

theorem fitting_of_le {rom : List Byte} (fits : rom.length ≤ room) : fitting rom = rom :=
  List.take_of_length_le fits

theorem read_loadRom {rom : List Byte} {k : Nat} (inside : k < (fitting rom).length) :
    rom[k]? = some ((m.loadRom rom).read (.ofNat (0x200 + k))) := by
  have fits := length_fitting_le rom
  have bound : (fitting rom).length ≤ size := by
    unfold room at fits
    omega
  have place : Address.ofNat (0x200 + k) = Address.start.advance k := rfl
  have same : (fitting rom)[k]? = rom[k]? := List.getElem?_take_of_lt (by omega)
  rw [loadRom, place, read_writeAll _ _ bound inside, ← same]
  exact List.getElem?_eq_getElem inside

theorem read_loadRom_of_out {rom : List Byte} {c : Address}
    (out : c.val < 0x200 ∨ 0x200 + (fitting rom).length ≤ c.val) :
    (m.loadRom rom).read c = m.read c := by
  have fits := length_fitting_le rom
  apply read_writeAll_of_ne
  rintro k bound rfl
  have start : Address.start.val = 0x200 := rfl
  unfold room size at fits
  rw [Address.val_advance] at out
  omega

theorem font_loadRom (rom : List Byte) :
    (m.loadRom rom).readAll Font.base Font.sheet.length =
      m.readAll Font.base Font.sheet.length := by
  unfold readAll
  apply List.map_congr_left
  intro k member
  have bound := List.mem_range.1 member
  have base : Font.base.val = 0x050 := rfl
  rw [Font.length_sheet, Font.glyphSize] at bound
  apply read_loadRom_of_out
  rw [Address.val_advance]
  omega

end Memory

/-! ## Machines -/

/-- **Two loaders agree.** Words are loaded as their bytes, high byte first, one after the other from
the start address round the end of memory, so that of two on one place the later one stays. Of a ROM
image the first 3584 bytes are loaded, and none below the start address changes. Either way the
machine goes back to the start address and forgets its fault, and all else but its notices stays; so
up to 1792 words and their bytes load to the same. -/
theorem loads_agree (m : Machine) :
    (∀ words : List Word,
      let bytes := Word.bytes words
      let loaded := m.loadWords words
      Checked.writeWords m.memory 0x200 words = some loaded.memory ∧
      (∀ (c : Address) (k : Nat), LastOn 0x200 c.val bytes.length k →
        bytes[k]? = some (loaded.memory.read c)) ∧
      (∀ c : Address, (∀ k < bytes.length, (0x200 + k) % 4096 ≠ c.val) →
        loaded.memory.read c = m.memory.read c) ∧
      loaded = { m with
        memory := loaded.memory, pc := .start, fault := none
        log := .wordsLoaded words.length :: m.log }) ∧
    (∀ rom : List Byte,
      let count := (Memory.fitting rom).length
      let loaded := m.loadRom rom
      Checked.copyTo m.memory 0x200 (Memory.fitting rom) = some loaded.memory ∧
      count = min rom.length 3584 ∧
      (∀ k < count, rom[k]? = some (loaded.memory.read (.ofNat (0x200 + k)))) ∧
      (∀ c : Address, c.val < 0x200 ∨ 0x200 + count ≤ c.val →
        loaded.memory.read c = m.memory.read c) ∧
      loaded.memory.readAll Font.base Font.sheet.length =
        m.memory.readAll Font.base Font.sheet.length ∧
      loaded = { m with
        memory := loaded.memory, pc := .start, fault := none
        log := (Notice.ofRom rom ++ [Notice.romLoaded count]).reverse ++ m.log }) ∧
    ∀ words : List Word, words.length ≤ 1792 →
      { m.loadWords words with log := m.log } =
        { m.loadRom (Word.bytes words) with log := m.log } := by
  refine ⟨?_, ?_, ?_⟩
  · intro words bytes loaded
    have memory : loaded.memory = m.memory.writeAll (.ofNat 0x200) bytes :=
      m.memory.loadWords_eq words
    refine ⟨Checked.writeWords_spec m.memory 0x200 words, ?_, ?_, rfl⟩
    · intro c k last
      rw [memory, m.memory.read_writeAll_of_lastOn last, Address.ofNat_val]
    · intro c missed
      rw [memory, ← c.ofNat_val]
      exact m.memory.read_writeAll_of_missed fun k bound same =>
        missed k bound (same.trans (Nat.mod_eq_of_lt c.isLt))
  · intro rom count loaded
    have fits : 0x200 + count ≤ 4096 := by
      have := Memory.length_fitting_le rom
      have : Memory.room = 4096 - 0x200 := rfl
      omega
    refine ⟨Checked.copyTo_spec m.memory 0x200 _ fits, Memory.length_fitting rom, ?_, ?_,
      m.memory.font_loadRom rom, rfl⟩
    · intro k inside
      exact m.memory.read_loadRom inside
    · intro c out
      exact m.memory.read_loadRom_of_out out
  · intro words few
    have fits : (Word.bytes words).length ≤ Memory.room := by
      have : Memory.room = 3584 := rfl
      rw [Word.length_bytes]
      omega
    have memory : m.memory.loadRom (Word.bytes words) = m.memory.loadWords words := by
      rw [Memory.loadRom, Memory.fitting_of_le fits, Memory.loadWords_eq]
    unfold Machine.loadWords Machine.loadRom
    rw [memory]
    rfl

theorem loads_agree_long :
    let m := Machine.start {} 0
    let long := List.replicate 2048 (0x1111 : Word) ++ [0xABCD]
    LastOn 0x200 0x200 (Word.bytes long).length 4096 ∧
      (m.loadWords long).memory.read .start = 0xAB ∧
      (m.loadWords [0x1200]).memory.read Font.base = 0xF0 ∧
      (m.loadRom [0x12, 0x00]).memory.read .start = 0x12 ∧
      (m.loadRom [0x12, 0x00]).memory.read Font.base = 0xF0 ∧
      (m.loadWords [0x1200]).memory = (m.loadRom [0x12, 0x00]).memory := by
  intro m long
  obtain ⟨ofWords, ofRom, same⟩ := loads_agree m
  have font : m.memory.read Font.base = 0xF0 := by decide +kernel
  have before : (Word.bytes (List.replicate 2048 0x1111)).length = 4096 := by
    rw [Word.length_bytes, List.length_replicate]
  have bytes : Word.bytes long = Word.bytes (List.replicate 2048 0x1111) ++ [0xAB, 0xCD] :=
    List.flatMap_append
  have last : LastOn 0x200 0x200 (Word.bytes long).length 4096 := by
    rw [bytes, List.length_append, before]
    exact ⟨by decide, by decide, by simp; omega⟩
  refine ⟨last, ?_, ?_, ?_, ?_, ?_⟩
  · have byte := (ofWords long).2.1 .start 4096 last
    rw [bytes, List.getElem?_append_right (Nat.le_of_eq before), before] at byte
    exact (Option.some.inj byte).symm
  · rw [(ofWords [0x1200]).2.2.1 Font.base, font]
    decide
  · exact (Option.some.inj ((ofRom [0x12, 0x00]).2.2.1 0 (by decide))).symm
  · rw [(ofRom [0x12, 0x00]).2.2.2.1 Font.base (Or.inl (by decide)), font]
  · exact congrArg (fun m => m.memory) (same [0x1200] (by decide))

end Chip8
