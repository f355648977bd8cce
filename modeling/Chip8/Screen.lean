import Chip8.Word

/-!
# The screen

64 by 32 pixels, lit or dark, with opposite edges joined: every pair of numbers names a pixel. A
sprite is a list of rows of eight pixels and is drawn by flipping the pixels under its set bits; a
collision is a lit pixel that gets flipped. The view of a screen is `lit`, and the lemmas say what
each operation does to it.
-/

namespace Chip8

/-! ## Sprites -/

/-- Rows of eight pixels, top to bottom; the most significant bit is the leftmost pixel. -/
abbrev Sprite := List Byte

namespace Sprite

def columns (row : Byte) : List Nat :=
  (List.range 8).filter fun k => row.toNat.testBit (7 - k)

/-- The points that a sprite covers with its top left corner at `(x, y)`, row by row. -/
def points (x y : Nat) : Sprite → List (Nat × Nat)
  | [] => []
  | row :: rest => (columns row).map (fun k => (x + k, y)) ++ points x (y + 1) rest

end Sprite

/-! ## Screens -/

structure Screen where
  pixels : Vector Bool 2048
  deriving DecidableEq

namespace Screen

def width : Nat := 64

def height : Nat := 32

def place (x y : Nat) : Fin 2048 :=
  ⟨y % 32 * 64 + x % 64, by omega⟩

def lit (s : Screen) (x y : Nat) : Bool :=
  s.pixels[place x y]

def set (s : Screen) (x y : Nat) (on : Bool) : Screen :=
  ⟨s.pixels.set (place x y) on⟩

def toggle (s : Screen) (x y : Nat) : Screen :=
  s.set x y (!s.lit x y)

def blank : Screen :=
  ⟨Vector.replicate 2048 false⟩

def filled : Screen :=
  ⟨Vector.replicate 2048 true⟩

/-- Flips points one after the other and says whether one of them was lit when its turn came. -/
def flip (s : Screen) : List (Nat × Nat) → Screen × Bool
  | [] => (s, false)
  | (x, y) :: rest =>
    let hit := s.lit x y
    let (after, later) := (s.toggle x y).flip rest
    (after, hit || later)

def draw (s : Screen) (x y : Nat) (sprite : Sprite) : Screen × Bool :=
  s.flip (sprite.points x y)

def row (s : Screen) (y : Nat) : List Bool :=
  (List.range width).map (s.lit · y)

def rows (s : Screen) : List (List Bool) :=
  (List.range height).map s.row

def litCount (s : Screen) : Nat :=
  s.pixels.count true

/-- A picture with a border: one line per row, a lit pixel as `#` and a dark one as a space. -/
def picture (s : Screen) : String :=
  let border := "+" ++ String.ofList (List.replicate width '-') ++ "+"
  let line (row : List Bool) := "|" ++ String.ofList (row.map fun on => if on then '#' else ' ') ++ "|"
  String.intercalate "\n" ([border] ++ s.rows.map line ++ [border])

def summary (s : Screen) : String :=
  "FrameBuffer(" ++ Numeral.decimal s.litCount ++ " lit)"

theorem place_eq_iff {x y p q : Nat} :
    place x y = place p q ↔ x % 64 = p % 64 ∧ y % 32 = q % 32 := by
  simp only [place, Fin.mk.injEq]
  omega

@[simp] theorem place_mod (x y : Nat) : place (x % 64) (y % 32) = place x y := by
  simp [place]

@[simp] theorem lit_mod (s : Screen) (x y : Nat) : s.lit (x % 64) (y % 32) = s.lit x y := by
  simp [lit]

@[ext] theorem ext {s t : Screen} (h : ∀ x y, s.lit x y = t.lit x y) : s = t := by
  cases s; cases t
  congr
  apply Vector.ext
  intro i hi
  have at_place : place (i % 64) (i / 64) = ⟨i, hi⟩ := by
    simp only [place, Fin.mk.injEq]; omega
  have := h (i % 64) (i / 64)
  simpa [lit, at_place] using this

theorem lit_set (s : Screen) (x y p q : Nat) (on : Bool) :
    (s.set x y on).lit p q = if x % 64 = p % 64 ∧ y % 32 = q % 32 then on else s.lit p q := by
  simp only [← place_eq_iff]
  simp [lit, set, Vector.getElem_set, Fin.ext_iff]

theorem lit_toggle (s : Screen) (x y p q : Nat) :
    (s.toggle x y).lit p q =
      if x % 64 = p % 64 ∧ y % 32 = q % 32 then !s.lit p q else s.lit p q := by
  rw [toggle, lit_set]
  split
  · next same => rw [← lit_mod s x, ← lit_mod s p, same.1, same.2]
  · rfl

@[simp] theorem lit_blank (x y : Nat) : blank.lit x y = false := by
  simp [lit, blank]

@[simp] theorem lit_filled (x y : Nat) : filled.lit x y = true := by
  simp [lit, filled]

theorem flip_append (s : Screen) (front back : List (Nat × Nat)) :
    s.flip (front ++ back) =
      (((s.flip front).1.flip back).1, (s.flip front).2 || ((s.flip front).1.flip back).2) := by
  induction front generalizing s with
  | nil => simp [flip]
  | cons point front ih => simp [flip, ih, Bool.or_assoc]

end Screen

end Chip8
