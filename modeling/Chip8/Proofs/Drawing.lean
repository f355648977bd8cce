import Chip8.Proofs.History
import Chip8.Proofs.Sprites

/-!
# Drawing from memory

A draw instruction takes the rows of its sprite from memory, from the index on and round the end,
and the corner from two registers as they were before it writes the flag. With the index at a glyph
it draws the digit of that glyph, for as long as memory holds the font. Main statement:
`draw_from_memory`.
-/

namespace Chip8

/-! ## The font -/

namespace Memory

def HoldsFont (m : Memory) : Prop :=
  m.readAll Font.base Font.sheet.length = Font.sheet

instance : DecidablePred HoldsFont := fun m =>
  inferInstanceAs (Decidable (m.readAll Font.base Font.sheet.length = Font.sheet))

theorem HoldsFont.readAll_glyph {m : Memory} (font : m.HoldsFont) (digit : Fin 16) :
    m.readAll (Font.glyph digit) Font.glyphSize = Font.rows digit := by
  unfold HoldsFont at font
  have inside : digit.val * Font.glyphSize + Font.glyphSize ≤ Font.sheet.length := by
    rw [Font.length_sheet]
    unfold Font.glyphSize
    omega
  unfold Font.glyph Font.rows
  rw [readAll_advance m Font.base inside, font]

end Memory

/-! ## One instruction -/

namespace Processor

theorem handle?_draw (p : Processor) (x y : Register) (n : Fin 16) :
    p.handle? (.ofPair 0xD x y n.val) = some { processor := p.drawSprite x y n } :=
  p.handle?_encode (i := .draw x y n) trivial

theorem handle?_loadGlyph (p : Processor) (x : Register) :
    p.handle? (.ofByte 0xF x 0x29) =
      some { processor := { p with index := Font.glyph (Numeral.lastDigit (p.v.get x).toNat) } } :=
  p.handle?_encode (i := .loadGlyph x) trivial

end Processor

namespace Machine

variable {m : Machine} {x y : Register}

theorem step_of_draw {n : Fin 16} (next : m.nextWord = .ofPair 0xD x y n.val) :
    m.step = { m.fetched with toProcessor := m.fetched.drawSprite x y n }.service := by
  have handled := m.fetched.handle?_draw x y n
  rw [← next] at handled
  exact step_of_handle handled rfl

theorem step_of_loadGlyph (next : m.nextWord = .ofByte 0xF x 0x29) :
    m.step.index = Font.glyph (Numeral.lastDigit (m.v.get x).toNat) ∧ m.step.memory = m.memory ∧
      m.step.screen = m.screen ∧ m.step.v = m.v := by
  have handled := m.fetched.handle?_loadGlyph x
  rw [← next] at handled
  rw [step_of_handle handled rfl, index_service, memory_service, screen_service, v_service]
  exact ⟨rfl, rfl, rfl, rfl⟩

/-- At a glyph, five rows are those of the digit. -/
theorem lit_step_of_glyph {digit : Fin 16} (next : m.nextWord = .ofPair 0xD x y 5)
    (font : m.memory.HoldsFont) (place : m.index = Font.glyph digit) (s : Fin 64) (t : Fin 32) :
    m.step.screen.lit s t = (m.screen.lit s t ^^
      Sprite.covers (Font.rows digit) (m.v.get x).toNat (m.v.get y).toNat s t) := by
  have rows : m.memory.readAll m.index 5 = Font.rows digit := by
    rw [place]
    exact font.readAll_glyph digit
  have low : (Font.rows digit).length ≤ 32 := by
    rw [Font.length_rows]
    decide
  have drawn : m.step.screen =
      (m.screen.draw (m.v.get x).toNat (m.v.get y).toNat (m.memory.readAll m.index 5)).1 := by
    rw [step_of_draw (n := 5) next, screen_service]
    rfl
  rw [drawn, rows, Screen.lit_draw_of_low _ _ _ low]

end Machine

/-- **Drawing from memory.** The sprite is read round the end of memory, and placed by the two
registers as they were before. Each pixel flips that it covers, and the flag tells whether one of
them was lit. Nothing else changes. Hence, while memory holds the font and the index stays where a
digit has put it, five rows are the glyph of that digit; and so they are in the very next step. -/
theorem draw_from_memory :
    (∀ (p : Processor) (x y : Register) (n : Fin 16),
      let sprite : Sprite :=
        (List.range n.val).map fun k => p.memory.read (.ofNat (p.index.val + k))
      let covered := sprite.covers (p.v.get x).toNat (p.v.get y).toNat
      ∃ (screen : Screen) (collided : Bool),
        p.handle? (.ofPair 0xD x y n.val) = some {
          processor := { p with
            v := p.v.set .flag (if collided then 1 else 0), screen := screen, redraw := true } } ∧
        (∀ (s : Fin 64) (t : Fin 32), screen.lit s t = (p.screen.lit s t ^^ covered s t)) ∧
        (collided = true ↔
          ∃ (s : Fin 64) (t : Fin 32), p.screen.lit s t = true ∧ covered s t = true)) ∧
    ∀ (m : Machine) (x a b : Register), m.nextWord = .ofByte 0xF x 0x29 →
      let glyph : Sprite := Font.rows (Numeral.lastDigit (m.v.get x).toNat)
      (∀ later : Machine, later.index = m.step.index → later.memory.HoldsFont →
        later.nextWord = .ofPair 0xD a b 5 → ∀ (s : Fin 64) (t : Fin 32),
          later.step.screen.lit s t = (later.screen.lit s t ^^
            glyph.covers (later.v.get a).toNat (later.v.get b).toNat s t)) ∧
      (m.memory.HoldsFont → m.step.nextWord = .ofPair 0xD a b 5 → ∀ (s : Fin 64) (t : Fin 32),
        m.step.step.screen.lit s t = (m.screen.lit s t ^^
          glyph.covers (m.v.get a).toNat (m.v.get b).toNat s t)) := by
  constructor
  · intro p x y n sprite covered
    have low : sprite.length ≤ 32 := by
      simp only [sprite, List.length_map, List.length_range]
      omega
    let drawn := p.screen.draw (p.v.get x).toNat (p.v.get y).toNat sprite
    refine ⟨drawn.1, drawn.2, p.handle?_draw x y n, ?_, ?_⟩
    · exact p.screen.lit_draw_of_low _ _ low
    · exact p.screen.draw_collides_iff_of_low _ _ low
  · intro m x a b next glyph
    obtain ⟨index, memory, screen, v⟩ := Machine.step_of_loadGlyph next
    refine ⟨?_, ?_⟩
    · intro later same font draws s t
      exact Machine.lit_step_of_glyph draws font (same.trans index) s t
    · intro font draws s t
      rw [← memory] at font
      rw [Machine.lit_step_of_glyph draws font index s t, screen, v]

namespace Machine

def lettering : Machine :=
  (start {} 0).loadWords [0xF029, 0xD105]

/-- The zero begins in column 0, and in column 8 if the second register is set in between. -/
theorem draw_from_memory_set_between :
    lettering.step.step.screen.lit 0 0 = true ∧
      (lettering.step.setRegister ⟨1⟩ 8).step.screen.lit 8 0 = true := by
  have words : lettering.nextWord = .ofByte 0xF .first 0x29 ∧
      lettering.step.nextWord = .ofPair 0xD ⟨1⟩ .first 5 := by decide +kernel
  have font : lettering.memory.HoldsFont := by decide +kernel
  have dark : lettering.screen.lit 0 0 = false ∧
      (lettering.step.setRegister ⟨1⟩ 8).screen.lit 8 0 = false := by decide +kernel
  have corners : (lettering.v.get .first).toNat = 0 ∧ (lettering.v.get ⟨1⟩).toNat = 0 ∧
      ((lettering.step.setRegister ⟨1⟩ 8).v.get .first).toNat = 0 ∧
      ((lettering.step.setRegister ⟨1⟩ 8).v.get ⟨1⟩).toNat = 8 := by decide +kernel
  have kept (m : Machine) : (m.setRegister ⟨1⟩ 8).index = m.index ∧
      (m.setRegister ⟨1⟩ 8).memory = m.memory ∧ (m.setRegister ⟨1⟩ 8).nextWord = m.nextWord :=
    ⟨rfl, rfl, rfl⟩
  obtain ⟨index, memory, word⟩ := kept lettering.step
  have font' : (lettering.step.setRegister ⟨1⟩ 8).memory.HoldsFont := by
    rw [memory, (step_of_loadGlyph words.1).2.1]
    exact font
  obtain ⟨afterwards, atOnce⟩ := draw_from_memory.2 lettering .first ⟨1⟩ .first words.1
  have first := atOnce font words.2 ⟨0, by decide⟩ ⟨0, by decide⟩
  have second := afterwards _ index font' (word.trans words.2) ⟨8, by decide⟩ ⟨0, by decide⟩
  rw [dark.1, corners.1, corners.2.1] at first
  rw [dark.2, corners.1, corners.2.2.1, corners.2.2.2] at second
  constructor
  · rw [first]
    decide +kernel
  · rw [second]
    decide +kernel

end Machine

end Chip8
