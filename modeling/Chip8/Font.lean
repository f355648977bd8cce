import Chip8.Word

/-!
# The font

Sprites for the sixteen hexadecimal digits, five rows each and four pixels wide, which memory holds
from the start.
-/

namespace Chip8.Font

def base : Address := ⟨0x050, by decide⟩

def glyphSize : Nat := 5

def sheet : List Byte :=
  [0xF0, 0x90, 0x90, 0x90, 0xF0,
   0x20, 0x60, 0x20, 0x20, 0x70,
   0xF0, 0x10, 0xF0, 0x80, 0xF0,
   0xF0, 0x10, 0xF0, 0x10, 0xF0,
   0x90, 0x90, 0xF0, 0x10, 0x10,
   0xF0, 0x80, 0xF0, 0x10, 0xF0,
   0xF0, 0x80, 0xF0, 0x90, 0xF0,
   0xF0, 0x10, 0x20, 0x40, 0x40,
   0xF0, 0x90, 0xF0, 0x90, 0xF0,
   0xF0, 0x90, 0xF0, 0x10, 0xF0,
   0xF0, 0x90, 0xF0, 0x90, 0x90,
   0xE0, 0x90, 0xE0, 0x90, 0xE0,
   0xF0, 0x80, 0x80, 0x80, 0xF0,
   0xE0, 0x90, 0x90, 0x90, 0xE0,
   0xF0, 0x80, 0xF0, 0x80, 0xF0,
   0xF0, 0x80, 0xF0, 0x80, 0x80]

def glyph (digit : Fin 16) : Address :=
  base.advance (digit.val * glyphSize)

def rows (digit : Fin 16) : List Byte :=
  (sheet.drop (digit.val * glyphSize)).take glyphSize

@[simp] theorem length_sheet : sheet.length = 16 * glyphSize := rfl

@[simp] theorem length_rows (digit : Fin 16) : (rows digit).length = glyphSize := by
  simp [rows, glyphSize]; omega

end Chip8.Font
