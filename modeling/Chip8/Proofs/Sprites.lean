import Mathlib.Algebra.BigOperators.Group.Finset.Piecewise
import Mathlib.Algebra.BigOperators.Group.Finset.Sigma
import Mathlib.Algebra.Ring.Parity
import Chip8.Screen

/-!
# Sprites on the screen

A sprite flips the pixels that its set bits fall on, once for each bit. As the edges of the screen
are joined, a tall sprite comes round to pixels that it has flipped before; how many bits fall on a
pixel tells what becomes of it, and whether it was lit at one of its turns. Main statement:
`draw_by_hits`.
-/

namespace Chip8

namespace Sprite

def bit (sprite : Sprite) (row column : Nat) : Bool :=
  (sprite.getD row 0).toNat.testBit (7 - column)

/-- The set bits, by row and column, that fall on the pixel in column `p` and row `q` when the top
left corner is at `(x, y)`. -/
def hits (sprite : Sprite) (x y : Nat) (p : Fin 64) (q : Fin 32) : Finset (Nat × Nat) :=
  (Finset.range sprite.length ×ˢ Finset.range 8).filter fun place =>
    sprite.bit place.1 place.2 ∧ (x + place.2) % 64 = p.val ∧ (y + place.1) % 32 = q.val

def covers (sprite : Sprite) (x y : Nat) (p : Fin 64) (q : Fin 32) : Bool :=
  decide (1 ≤ (sprite.hits x y p q).card)

end Sprite

namespace Screen

/-! ## Flips -/

def FallsOn (point : Nat × Nat) (p : Fin 64) (q : Fin 32) : Prop :=
  point.1 % 64 = p.val ∧ point.2 % 32 = q.val

instance (point : Nat × Nat) (p : Fin 64) (q : Fin 32) : Decidable (FallsOn point p q) :=
  inferInstanceAs (Decidable (_ ∧ _))

def landings (points : List (Nat × Nat)) (p : Fin 64) (q : Fin 32) : Nat :=
  points.countP (FallsOn · p q)

/-- Whether a pixel is lit at one of its `n` turns. -/
def Struck (lit : Bool) (n : Nat) : Prop :=
  lit = true ∧ 1 ≤ n ∨ lit = false ∧ 2 ≤ n

theorem struck_succ (lit : Bool) (n : Nat) :
    Struck lit (n + 1) ↔ lit = true ∨ Struck (!lit) n := by
  unfold Struck
  cases lit <;> simp

theorem landings_cons (point : Nat × Nat) (points : List (Nat × Nat)) (p : Fin 64) (q : Fin 32) :
    landings (point :: points) p q = landings points p q + if FallsOn point p q then 1 else 0 := by
  unfold landings
  simp [List.countP_cons]

theorem lit_toggle_pixel (s : Screen) (point : Nat × Nat) (p : Fin 64) (q : Fin 32) :
    (s.toggle point.1 point.2).lit p q =
      if FallsOn point p q then !s.lit p q else s.lit p q := by
  rw [lit_toggle, Nat.mod_eq_of_lt p.isLt, Nat.mod_eq_of_lt q.isLt]
  rfl

theorem lit_flip (s : Screen) (points : List (Nat × Nat)) (p : Fin 64) (q : Fin 32) :
    (s.flip points).1.lit p q = (s.lit p q ^^ decide (Odd (landings points p q))) := by
  induction points generalizing s with
  | nil => simp [flip, landings]
  | cons point points ih =>
    simp only [flip, ih, landings_cons, lit_toggle_pixel]
    split
    · simp only [Nat.odd_add_one, decide_not]
      cases s.lit p q <;> simp
    · rfl

theorem lit_iff_fallsOn (s : Screen) (point : Nat × Nat) :
    s.lit point.1 point.2 = true ↔
      ∃ (p : Fin 64) (q : Fin 32), FallsOn point p q ∧ s.lit p q = true := by
  rw [← lit_mod]
  constructor
  · intro lit
    exact ⟨⟨point.1 % 64, by omega⟩, ⟨point.2 % 32, by omega⟩, ⟨rfl, rfl⟩, lit⟩
  · rintro ⟨p, q, ⟨column, row⟩, lit⟩
    rwa [column, row]

theorem struck_cons (s : Screen) (point : Nat × Nat) (points : List (Nat × Nat)) (p : Fin 64)
    (q : Fin 32) :
    Struck (s.lit p q) (landings (point :: points) p q) ↔
      FallsOn point p q ∧ s.lit p q = true ∨
        Struck ((s.toggle point.1 point.2).lit p q) (landings points p q) := by
  rw [landings_cons, lit_toggle_pixel]
  by_cases falls : FallsOn point p q
  · simp only [falls, if_true, true_and, struck_succ]
  · simp only [falls, if_false, false_and, false_or, Nat.add_zero]

theorem flip_collides_iff (s : Screen) (points : List (Nat × Nat)) :
    (s.flip points).2 = true ↔
      ∃ (p : Fin 64) (q : Fin 32), Struck (s.lit p q) (landings points p q) := by
  induction points generalizing s with
  | nil => simp [flip, landings, Struck]
  | cons point points ih =>
    simp only [flip, Bool.or_eq_true, ih, lit_iff_fallsOn, struck_cons, exists_or]

end Screen

/-! ## Points and bits -/

namespace Sprite

theorem countP_range (n : Nat) (P : Nat → Bool) :
    (List.range n).countP P = ∑ k ∈ Finset.range n, if P k then 1 else 0 := by
  induction n with
  | zero => rfl
  | succ n ih =>
    rw [List.range_succ, List.countP_append, ih, List.countP_singleton, Finset.sum_range_succ]

theorem landings_columns (row : Byte) (x y : Nat) (p : Fin 64) (q : Fin 32) :
    Screen.landings ((columns row).map fun k => (x + k, y)) p q =
      ∑ k ∈ Finset.range 8,
        if row.toNat.testBit (7 - k) ∧ (x + k) % 64 = p.val ∧ y % 32 = q.val then 1 else 0 := by
  unfold Screen.landings columns Screen.FallsOn
  rw [List.countP_map, List.countP_filter, countP_range]
  apply Finset.sum_congr rfl
  intro k _
  simp [and_comm]

theorem card_hits (sprite : Sprite) (x y : Nat) (p : Fin 64) (q : Fin 32) :
    (sprite.hits x y p q).card = Screen.landings (sprite.points x y) p q := by
  unfold hits
  rw [Finset.card_filter, Finset.sum_product]
  induction sprite generalizing y with
  | nil => rfl
  | cons row rest ih =>
    -- The rows below the first one are a sprite of their own, one line further down.
    have first := landings_columns row x y p q
    have later := ih (y + 1)
    rw [List.length_cons, Finset.sum_range_succ', points]
    unfold Screen.landings at *
    rw [List.countP_append, ← later, first, Nat.add_comm]
    congr 1
    apply Finset.sum_congr rfl
    intro k _
    simp only [bit, List.getD_cons_succ, Nat.add_right_comm y 1 k]
    rfl

/-- A sprite that is no taller than the screen puts one bit on a pixel at most. -/
theorem card_hits_le_one {sprite : Sprite} (low : sprite.length ≤ 32) (x y : Nat) (p : Fin 64)
    (q : Fin 32) : (sprite.hits x y p q).card ≤ 1 := by
  apply Finset.card_le_one.2
  rintro ⟨row, column⟩ first ⟨row', column'⟩ second
  simp only [hits, Finset.mem_filter, Finset.mem_product, Finset.mem_range] at first second
  apply Prod.ext
  · simp only
    omega
  · simp only
    omega

end Sprite

/-! ## Drawing -/

namespace Screen

variable (s : Screen) (x y : Nat)

theorem lit_draw (sprite : Sprite) (p : Fin 64) (q : Fin 32) :
    (s.draw x y sprite).1.lit p q = (s.lit p q ^^ decide (Odd (sprite.hits x y p q).card)) := by
  rw [Sprite.card_hits]
  exact s.lit_flip (sprite.points x y) p q

theorem draw_collides_iff (sprite : Sprite) :
    (s.draw x y sprite).2 = true ↔
      ∃ (p : Fin 64) (q : Fin 32), Struck (s.lit p q) (sprite.hits x y p q).card := by
  simp only [Sprite.card_hits]
  exact s.flip_collides_iff (sprite.points x y)

theorem lit_draw_of_low {sprite : Sprite} (low : sprite.length ≤ 32) (p : Fin 64) (q : Fin 32) :
    (s.draw x y sprite).1.lit p q = (s.lit p q ^^ sprite.covers x y p q) := by
  rw [lit_draw]
  unfold Sprite.covers
  rcases Nat.le_one_iff_eq_zero_or_eq_one.1 (Sprite.card_hits_le_one low x y p q) with none | one
  · simp [none]
  · simp [one]

theorem draw_collides_iff_of_low {sprite : Sprite} (low : sprite.length ≤ 32) :
    (s.draw x y sprite).2 = true ↔
      ∃ (p : Fin 64) (q : Fin 32), s.lit p q = true ∧ sprite.covers x y p q = true := by
  rw [draw_collides_iff]
  apply exists₂_congr
  intro p q
  have once := Sprite.card_hits_le_one low x y p q
  unfold Struck Sprite.covers
  rw [decide_eq_true_iff]
  constructor
  · rintro (⟨lit, hit⟩ | ⟨-, twice⟩)
    · exact ⟨lit, hit⟩
    · omega
  · exact Or.inl

/-- **Drawing by hits.** A pixel is flipped once for each set bit that falls on it. A collision is
reported if some lit pixel is hit, or some dark one twice. For a sprite that is no taller than the
screen that is to say that some lit pixel goes dark. -/
theorem draw_by_hits (sprite : Sprite) :
    let drawn := s.draw x y sprite
    (∀ (p : Fin 64) (q : Fin 32),
      drawn.1.lit p q = (s.lit p q ^^ decide (Odd (sprite.hits x y p q).card))) ∧
    (drawn.2 = true ↔ ∃ (p : Fin 64) (q : Fin 32),
      s.lit p q = true ∧ 1 ≤ (sprite.hits x y p q).card ∨
        s.lit p q = false ∧ 2 ≤ (sprite.hits x y p q).card) ∧
    (sprite.length ≤ 32 →
      (drawn.2 = true ↔
        ∃ (p : Fin 64) (q : Fin 32), s.lit p q = true ∧ drawn.1.lit p q = false)) := by
  intro drawn
  refine ⟨s.lit_draw x y sprite, s.draw_collides_iff x y sprite, ?_⟩
  intro low
  simp only [drawn, s.draw_collides_iff_of_low x y low, s.lit_draw_of_low x y low]
  apply exists₂_congr
  intro p q
  cases s.lit p q <;> simp

/-- A sprite across the lower right corner of a lit screen darkens a pixel in its first row. One of
33 rows meets itself on a dark screen, and leaves the pixel dark on which it does. -/
theorem draw_by_hits_round_edges :
    let low := filled.draw 62 31 [0xF0, 0xF0]
    let tall := blank.draw 0 0 (List.replicate 33 0x80)
    low.1.lit 1 0 = false ∧ low.2 = true ∧ tall.1.lit 0 0 = false ∧ tall.2 = true := by
  intro low tall
  obtain ⟨lit, -, collides⟩ := draw_by_hits filled 62 31 [0xF0, 0xF0]
  obtain ⟨lit', collides', -⟩ := draw_by_hits blank 0 0 (List.replicate 33 0x80)
  have once : (Sprite.hits [0xF0, 0xF0] 62 31 1 0).card = 1 := by decide +kernel
  have twice : (Sprite.hits (List.replicate 33 0x80) 0 0 0 0).card = 2 := by decide +kernel
  have dark : low.1.lit 1 0 = false := by
    refine (lit 1 0).trans ?_
    rw [once, lit_filled]
    decide
  have dark' : tall.1.lit 0 0 = false := by
    refine (lit' 0 0).trans ?_
    rw [twice, lit_blank]
    decide
  refine ⟨dark, (collides (by decide)).2 ⟨1, 0, lit_filled 1 0, dark⟩, dark', ?_⟩
  exact collides'.2 ⟨0, 0, Or.inr ⟨lit_blank 0 0, twice.ge⟩⟩

end Screen

end Chip8
