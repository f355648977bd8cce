import Chip8.Instruction.Encoding

/-!
# Words as text

A table tells what a word does and how it is written: the digits that it must have, the operator, and a
template in which its other digits are put. An instruction is written as a mnemonic and its operands:
addresses as three hexadecimal digits, bytes as two, the height of a sprite in decimal. A word that no
row fits is written in full behind a mark.
-/

namespace Chip8

/-! ## Templates -/

/-- A character of a template, or a place for a digit of the word, which is written in hexadecimal, in
upper or in lower case, or in decimal. Places are counted from the right. -/
inductive Slot where
  | literal (c : Char)
  | upper (place : Nat)
  | lower (place : Nat)
  | decimal (place : Nat)

abbrev Template := List Slot

namespace Slot

def text (w : Word) : Slot → List Char
  | literal c => [c]
  | upper place => [Numeral.upperDigit (w.nibble place)]
  | lower place => [(w.nibble place).val.digitChar]
  | decimal place => Numeral.padded 10 1 (w.nibble place).val

end Slot

namespace Template

def text (t : Template) (w : Word) : List Char :=
  t.flatMap (Slot.text w)

def literally (text : String) : Template :=
  text.toList.map .literal

def x : Template := literally "V" ++ [.upper 2]
def y : Template := literally "V" ++ [.upper 1]
def byte : Template := [.lower 1, .lower 0]
def target : Template := [.lower 2, .lower 1, .lower 0]
def height : Template := [.decimal 0]

def invalid : Template :=
  literally "INVALID " ++ [.lower 3, .lower 2, .lower 1, .lower 0]

end Template

open Template in
def Operator.template : Operator → Template
  | system => literally "SYS " ++ target
  | clearScreen => literally "CLS"
  | ret => literally "RET"
  | jump => literally "JP " ++ target
  | call => literally "CALL " ++ target
  | skipIfByte => literally "SE " ++ x ++ literally ", " ++ byte
  | skipUnlessByte => literally "SNE " ++ x ++ literally ", " ++ byte
  | skipIfSame => literally "SE " ++ x ++ literally ", " ++ y
  | skipUnlessSame => literally "SNE " ++ x ++ literally ", " ++ y
  | load => literally "LD " ++ x ++ literally ", " ++ byte
  | addByte => literally "ADD " ++ x ++ literally ", " ++ byte
  | combine .copy => literally "LD " ++ x ++ literally ", " ++ y
  | combine .or => literally "OR " ++ x ++ literally ", " ++ y
  | combine .and => literally "AND " ++ x ++ literally ", " ++ y
  | combine .xor => literally "XOR " ++ x ++ literally ", " ++ y
  | combine .add => literally "ADD " ++ x ++ literally ", " ++ y
  | combine .sub => literally "SUB " ++ x ++ literally ", " ++ y
  | combine .shiftRight => literally "SHR " ++ x ++ literally " (, " ++ y ++ literally ")"
  | combine .subFrom => literally "SUBN " ++ x ++ literally ", " ++ y
  | combine .shiftLeft => literally "SHL " ++ x ++ literally " (, " ++ y ++ literally ")"
  | loadIndex => literally "LD I, " ++ target
  | jumpPast => literally "JP V0, " ++ target
  | random => literally "RND " ++ x ++ literally ", " ++ byte
  | draw => literally "DRW " ++ x ++ literally ", " ++ y ++ literally ", " ++ height
  | skipIfKey => literally "SKP " ++ x
  | skipUnlessKey => literally "SKNP " ++ x
  | readDelay => literally "LD " ++ x ++ literally ", DT"
  | awaitKey => literally "LD " ++ x ++ literally ", K"
  | setDelay => literally "LD DT, " ++ x
  | setSound => literally "LD ST, " ++ x
  | addIndex => literally "ADD I, " ++ x
  | loadGlyph => literally "LD F, " ++ x
  | storeDecimal => literally "LD B, " ++ x
  | storeUpTo => literally "LD [I], " ++ x
  | loadUpTo => literally "LD " ++ x ++ literally ", [I]"

/-! ## The table -/

/-- The rows of the table for words with a given first digit, in the order in which they are tried:
the other digits that a word must have, where `none` stands for any, and what it does then. -/
def Operator.rows : Nat → List (List (Option Nat) × Operator)
  | 0x0 => [([some 0x0, some 0xE, some 0x0], clearScreen), ([some 0x0, some 0xE, some 0xE], ret),
      ([none, none, none], system)]
  | 0x1 => [([none, none, none], jump)]
  | 0x2 => [([none, none, none], call)]
  | 0x3 => [([none, none, none], skipIfByte)]
  | 0x4 => [([none, none, none], skipUnlessByte)]
  | 0x5 => [([none, none, some 0x0], skipIfSame)]
  | 0x6 => [([none, none, none], load)]
  | 0x7 => [([none, none, none], addByte)]
  | 0x8 => [([none, none, some 0x0], combine .copy), ([none, none, some 0x1], combine .or),
      ([none, none, some 0x2], combine .and), ([none, none, some 0x3], combine .xor),
      ([none, none, some 0x4], combine .add), ([none, none, some 0x5], combine .sub),
      ([none, none, some 0x6], combine .shiftRight), ([none, none, some 0x7], combine .subFrom),
      ([none, none, some 0xE], combine .shiftLeft)]
  | 0x9 => [([none, none, some 0x0], skipUnlessSame)]
  | 0xA => [([none, none, none], loadIndex)]
  | 0xB => [([none, none, none], jumpPast)]
  | 0xC => [([none, none, none], random)]
  | 0xD => [([none, none, none], draw)]
  | 0xE => [([none, some 0x9, some 0xE], skipIfKey), ([none, some 0xA, some 0x1], skipUnlessKey)]
  | 0xF => [([none, some 0x0, some 0x7], readDelay), ([none, some 0x0, some 0xA], awaitKey),
      ([none, some 0x1, some 0x5], setDelay), ([none, some 0x1, some 0x8], setSound),
      ([none, some 0x1, some 0xE], addIndex), ([none, some 0x2, some 0x9], loadGlyph),
      ([none, some 0x3, some 0x3], storeDecimal), ([none, some 0x5, some 0x5], storeUpTo),
      ([none, some 0x6, some 0x5], loadUpTo)]
  | _ => []

namespace Word

def fits (w : Word) (digits : List (Option Nat)) : Bool :=
  (digits.zip w.nibbles.tail).all fun (wanted, digit) => wanted.all (digit.val = ·)

def operator? (w : Word) : Option Operator :=
  ((Operator.rows (w.nibble 3).val).find? fun row => w.fits row.1).map Prod.snd

def template (w : Word) : Template :=
  w.operator?.elim .invalid Operator.template

def disassembly (w : Word) : String :=
  String.ofList (w.template.text w)

end Word

end Chip8
