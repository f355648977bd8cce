import Chip8.Proofs.Sprites

/-!
# Sprites one over the other

Whatever sprites are drawn, a pixel is flipped once for each bit that falls on it, so only the number
of these bits counts and not their order. Drawing the same sprites twice flips each pixel an even
number of times, and a sprite that shows at all meets itself. Main statement: `drawAll_of_perm`.
-/

namespace Chip8

structure Stamp where
  x : Nat
  y : Nat
  sprite : Sprite
  deriving DecidableEq

def Stamp.points (stamp : Stamp) : List (Nat × Nat) :=
  stamp.sprite.points stamp.x stamp.y

namespace Screen

def drawAll (s : Screen) (stamps : List Stamp) : Screen :=
  stamps.foldl (fun s stamp => (s.draw stamp.x stamp.y stamp.sprite).1) s

/-! ## Orders of drawing -/

theorem ext_pixels {s t : Screen} (same : ∀ (p : Fin 64) (q : Fin 32), s.lit p q = t.lit p q) :
    s = t := by
  ext x y
  have := same ⟨x % 64, by omega⟩ ⟨y % 32, by omega⟩
  simpa using this

theorem drawAll_eq_flip (s : Screen) (stamps : List Stamp) :
    s.drawAll stamps = (s.flip (stamps.flatMap Stamp.points)).1 := by
  induction stamps generalizing s with
  | nil => rfl
  | cons stamp stamps ih =>
    rw [List.flatMap_cons, flip_append]
    exact ih (s.draw stamp.x stamp.y stamp.sprite).1

def flips (stamps : List Stamp) (p : Fin 64) (q : Fin 32) : Nat :=
  landings (stamps.flatMap Stamp.points) p q

theorem flips_of_perm {stamps stamps' : List Stamp} (perm : stamps.Perm stamps') (p : Fin 64)
    (q : Fin 32) : flips stamps p q = flips stamps' p q :=
  (perm.flatMap_right Stamp.points).countP_eq _

theorem lit_drawAll (s : Screen) (stamps : List Stamp) (p : Fin 64) (q : Fin 32) :
    (s.drawAll stamps).lit p q = (s.lit p q ^^ decide (Odd (flips stamps p q))) := by
  rw [drawAll_eq_flip, lit_flip]
  rfl

/-! ## A sprite over itself -/

theorem covers_iff (sprite : Sprite) (x y : Nat) (p : Fin 64) (q : Fin 32) :
    sprite.covers x y p q = true ↔ ∃ row < sprite.length, ∃ column < 8,
      sprite.bit row column = true ∧ (x + column) % 64 = p.val ∧ (y + row) % 32 = q.val := by
  unfold Sprite.covers Sprite.hits
  rw [decide_eq_true_iff, Nat.succ_le_iff, Finset.card_pos]
  simp [Finset.Nonempty, and_assoc]

theorem exists_covers_iff (sprite : Sprite) (x y : Nat) :
    (∃ (p : Fin 64) (q : Fin 32), sprite.covers x y p q = true) ↔
      ∃ row < sprite.length, ∃ column < 8, sprite.bit row column = true := by
  simp only [covers_iff]
  constructor
  · rintro ⟨p, q, row, inside, column, narrow, set, -⟩
    exact ⟨row, inside, column, narrow, set⟩
  · rintro ⟨row, inside, column, narrow, set⟩
    exact ⟨⟨(x + column) % 64, by omega⟩, ⟨(y + row) % 32, by omega⟩, row, inside, column, narrow,
      set, rfl, rfl⟩

/-- Of two drawings in one place, one collides on each pixel that the sprite covers. -/
theorem draw_twice_collides_iff (s : Screen) (x y : Nat) {sprite : Sprite}
    (low : sprite.length ≤ 32) :
    (s.draw x y sprite).2 = true ∨ ((s.draw x y sprite).1.draw x y sprite).2 = true ↔
      ∃ (p : Fin 64) (q : Fin 32), sprite.covers x y p q = true := by
  simp only [draw_collides_iff_of_low _ x y low, lit_draw_of_low s x y low, ← exists_or]
  apply exists₂_congr
  intro p q
  cases s.lit p q <;> simp

/-- **Sprites commute, and undo themselves.** Sprites drawn in any order leave the same screen, and
drawn once more, in any order, they leave the screen of before. A sprite that is no taller than the
screen, drawn twice in one place, collides if and only if it has a set bit. -/
theorem drawAll_of_perm (s : Screen) :
    (∀ stamps stamps' : List Stamp, stamps.Perm stamps' →
      s.drawAll stamps = s.drawAll stamps' ∧ (s.drawAll stamps).drawAll stamps' = s) ∧
    ∀ (x y : Nat) (sprite : Sprite), sprite.length ≤ 32 →
      let once := s.draw x y sprite
      let twice := once.1.draw x y sprite
      (once.2 = true ∨ twice.2 = true ↔
        ∃ row < sprite.length, ∃ column < 8, sprite.bit row column = true) := by
  constructor
  · intro stamps stamps' perm
    constructor
    · apply ext_pixels
      intro p q
      rw [lit_drawAll, lit_drawAll, flips_of_perm perm]
    · apply ext_pixels
      intro p q
      rw [lit_drawAll, lit_drawAll, flips_of_perm perm, Bool.xor_assoc, Bool.xor_self, Bool.xor_false]
  · intro x y sprite low
    exact (s.draw_twice_collides_iff x y low).trans (exists_covers_iff sprite x y)

def meeting : List Stamp :=
  [⟨62, 31, [0xF0, 0x90]⟩, ⟨0, 0, List.replicate 33 0x81⟩]

/-- The sprites of `meeting` leave the same in both orders and go away again; a sprite collides with
itself on a lit screen too. -/
theorem drawAll_of_perm_meeting :
    blank.drawAll meeting = blank.drawAll meeting.reverse ∧
      (blank.drawAll meeting).drawAll meeting.reverse = blank ∧
      ((filled.draw 62 31 [0xF0, 0x90]).2 = true ∨
        ((filled.draw 62 31 [0xF0, 0x90]).1.draw 62 31 [0xF0, 0x90]).2 = true) := by
  obtain ⟨same, back⟩ := (drawAll_of_perm blank).1 meeting meeting.reverse (List.reverse_perm _).symm
  refine ⟨same, back, ?_⟩
  exact ((drawAll_of_perm filled).2 62 31 [0xF0, 0x90] (by decide)).2
    ⟨0, by decide, 0, by decide, by decide⟩

end Screen

end Chip8
