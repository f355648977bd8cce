import Chip8.Screen

/-!
# Checked drawing

A sprite drawn bit by bit: every pixel under it is read and written back, also under the bits that
are not set. Coordinates are numbers of thirty-two bits, and each pixel is looked up in its array.
-/

namespace Chip8.Checked

/-- The sum of two coordinates, if thirty-two bits can hold it. -/
def coordinate (a b : Nat) : Option Nat :=
  if a + b < 0x100000000 then some (a + b) else none

def lit (s : Screen) (x y : Nat) : Option Bool :=
  s.pixels[y % 32 * 64 + x % 64]?

def set (s : Screen) (x y : Nat) (on : Bool) : Option Screen :=
  if h : y % 32 * 64 + x % 64 < 2048 then some ⟨s.pixels.set (y % 32 * 64 + x % 64) on⟩ else none

def bitAt (row : Byte) (k : Nat) : Option Bool :=
  if k ≤ 7 then some (row.toNat.testBit (7 - k)) else none

def drawBit (x y : Nat) (row : Byte) (drawn : Screen × Bool) (k : Nat) : Option (Screen × Bool) := do
  let on ← bitAt row k
  let column ← coordinate x k
  let old ← lit drawn.1 column y
  let screen ← set drawn.1 column y (old ^^ on)
  some (screen, drawn.2 || (old && !(old ^^ on)))

/-- Draws the rows of a sprite, of which `above` are drawn. -/
def drawRows (x y above : Nat) (drawn : Screen × Bool) : Sprite → Option (Screen × Bool)
  | [] => some drawn
  | row :: rest => do
    let line ← coordinate y above
    let drawn ← (List.range 8).foldlM (drawBit x line row) drawn
    drawRows x y (above + 1) drawn rest

/-! ## Pixels -/

theorem coordinate_of_lt {a b : Nat} (fits : a + b < 0x100000000) : coordinate a b = some (a + b) :=
  if_pos fits

theorem lit_spec (s : Screen) (x y : Nat) : lit s x y = some (s.lit x y) := by
  have inside : y % 32 * 64 + x % 64 < 2048 := by omega
  unfold lit
  rw [Vector.getElem?_eq_getElem inside]
  rfl

theorem set_spec (s : Screen) (x y : Nat) (on : Bool) : set s x y on = some (s.set x y on) := by
  unfold set
  rw [dif_pos (by omega)]
  rfl

theorem set_lit (s : Screen) (x y : Nat) : s.set x y (s.lit x y) = s := by
  apply Screen.ext
  intro p q
  rw [Screen.lit_set]
  split
  · next same => rw [← Screen.lit_mod s x, ← Screen.lit_mod s p, same.1, same.2]
  · rfl

/-! ## Sprites -/

theorem drawBit_spec {x k : Nat} (y : Nat) (row : Byte) (s : Screen) (collided : Bool)
    (fits : x + 8 ≤ 0x100000000) (inside : k < 8) :
    drawBit x y row (s, collided) k =
      some (if row.toNat.testBit (7 - k) then (s.toggle (x + k) y, collided || s.lit (x + k) y)
        else (s, collided)) := by
  have bit : bitAt row k = some (row.toNat.testBit (7 - k)) := if_pos (by omega)
  unfold drawBit
  rw [bit, coordinate_of_lt (by omega)]
  simp only [Option.bind_eq_bind, Option.bind_some, lit_spec, set_spec]
  cases row.toNat.testBit (7 - k) with
  | true => cases hl : s.lit (x + k) y <;> simp [Screen.toggle, hl]
  | false => simp [set_lit]

theorem drawBits_spec {x : Nat} (y : Nat) (row : Byte) (s : Screen) (collided : Bool)
    (fits : x + 8 ≤ 0x100000000) {bits : List Nat} (inside : ∀ k ∈ bits, k < 8) :
    bits.foldlM (drawBit x y row) (s, collided) =
      let flipped := s.flip ((bits.filter fun k => row.toNat.testBit (7 - k)).map (x + ·, y))
      some (flipped.1, collided || flipped.2) := by
  induction bits generalizing s collided with
  | nil => simp [Screen.flip]
  | cons k bits ih =>
    have later : ∀ k ∈ bits, k < 8 := fun k member => inside k (List.mem_cons_of_mem _ member)
    rw [List.foldlM_cons, drawBit_spec y row s collided fits (inside k List.mem_cons_self)]
    simp only [Option.bind_eq_bind, Option.bind_some]
    cases hb : row.toNat.testBit (7 - k) with
    | true => simp [ih _ _ later, hb, Screen.flip, Bool.or_assoc]
    | false => simp [ih _ _ later, hb]

theorem drawRows_spec {x y above : Nat} (s : Screen) (collided : Bool) (sprite : Sprite)
    (wide : x + 8 ≤ 0x100000000) (high : y + above + sprite.length ≤ 0x100000000) :
    drawRows x y above (s, collided) sprite =
      let drawn := s.draw x (y + above) sprite
      some (drawn.1, collided || drawn.2) := by
  induction sprite generalizing s collided above with
  | nil => simp [drawRows, Screen.draw, Sprite.points, Screen.flip]
  | cons row rest ih =>
    simp only [List.length_cons] at high
    have bits : ∀ k ∈ List.range 8, k < 8 := fun k member => List.mem_range.1 member
    simp only [drawRows, coordinate_of_lt (show y + above < 0x100000000 by omega), Option.bind_eq_bind,
      Option.bind_some, drawBits_spec _ row s collided wide bits]
    rw [ih _ _ (by omega)]
    simp only [Screen.draw, Sprite.points, Sprite.columns, Screen.flip_append, Bool.or_assoc,
      Nat.add_assoc]

end Chip8.Checked
