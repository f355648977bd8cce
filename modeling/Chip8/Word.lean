import Chip8.Numeral

/-!
# Bytes, words and addresses

Memory holds bytes, an instruction is a word of two bytes, and an address has twelve bits, so that
arithmetic on addresses wraps at the end of memory. The fields of a word are read off its
hexadecimal digits.
-/

namespace Chip8

abbrev Byte := UInt8

abbrev Word := UInt16

/-- Twelve bits: a place in memory. -/
abbrev Address := Fin 4096

/-! ## Addresses -/

namespace Address

/-- The greatest address, which is also the mask that cuts a word down to one. -/
def mask : Nat := 0xFFF

def zero : Address := ⟨0, by decide⟩

/-- Where programs are loaded and where execution starts. -/
def start : Address := ⟨0x200, by decide⟩

/-- The address with the given number, counted round the end of memory. -/
def ofNat (n : Nat) : Address :=
  ⟨n % 4096, Nat.mod_lt n (by decide)⟩

def ofWord (w : Word) : Address :=
  ofNat w.toNat

def toWord (a : Address) : Word :=
  UInt16.ofNat a.val

def advance (a : Address) (k : Nat) : Address :=
  ofNat (a.val + k)

def text (a : Address) : String :=
  Numeral.hex 3 a.val

@[simp] theorem val_ofNat (n : Nat) : (ofNat n).val = n % 4096 := rfl

@[simp] theorem val_advance (a : Address) (k : Nat) : (a.advance k).val = (a.val + k) % 4096 := rfl

@[simp] theorem val_ofWord (w : Word) : (ofWord w).val = w.toNat % 4096 := rfl

theorem toNat_toWord (a : Address) : (toWord a).toNat = a.val := by
  have := a.isLt
  simp [toWord, Nat.mod_eq_of_lt (show a.val < 65536 by omega)]

@[simp] theorem ofWord_toWord (a : Address) : ofWord (toWord a) = a := by
  apply Fin.ext
  rw [val_ofWord, toNat_toWord]
  omega

theorem advance_zero (a : Address) : a.advance 0 = a := by
  apply Fin.ext
  simp

theorem advance_advance (a : Address) (j k : Nat) :
    (a.advance j).advance k = a.advance (j + k) := by
  apply Fin.ext
  simp [Nat.add_assoc]

end Address

/-! ## Words -/

namespace Word

/-- The hexadecimal digit at place `i`, counted from the right; past the fourth there are zeros. -/
def nibble (w : Word) (i : Nat) : Fin 16 :=
  Numeral.lastDigit (w.toNat >>> (4 * i))

def nibbles (w : Word) : List (Fin 16) :=
  [w.nibble 3, w.nibble 2, w.nibble 1, w.nibble 0]

def high (w : Word) : Byte :=
  UInt8.ofNat (w.toNat / 256)

def low (w : Word) : Byte :=
  UInt8.ofNat w.toNat

def ofBytes (high low : Byte) : Word :=
  UInt16.ofNat (high.toNat * 256 + low.toNat)

def address (w : Word) : Address :=
  Address.ofWord w

def text (w : Word) : String :=
  Numeral.hex 4 w.toNat

def bytes (words : List Word) : List Byte :=
  words.flatMap fun w => [w.high, w.low]

theorem val_nibble (w : Word) (i : Nat) : (w.nibble i).val = (w.toNat >>> (4 * i)) % 16 := rfl

theorem val_nibbles (w : Word) :
    (w.nibble 3).val = w.toNat / 4096 ∧ (w.nibble 2).val = w.toNat / 256 % 16 ∧
      (w.nibble 1).val = w.toNat / 16 % 16 ∧ (w.nibble 0).val = w.toNat % 16 := by
  have := w.toNat_lt
  simp [val_nibble, Nat.shiftRight_eq_div_pow]
  omega

@[simp] theorem toNat_high (w : Word) : w.high.toNat = w.toNat / 256 := by
  have := w.toNat_lt
  simp [high]; omega

@[simp] theorem toNat_low (w : Word) : w.low.toNat = w.toNat % 256 := by
  simp [low]

@[simp] theorem toNat_ofBytes (high low : Byte) :
    (ofBytes high low).toNat = high.toNat * 256 + low.toNat := by
  have := high.toNat_lt
  have := low.toNat_lt
  simp [ofBytes]; omega

@[simp] theorem ofBytes_high_low (w : Word) : ofBytes w.high w.low = w := by
  apply UInt16.toNat.inj
  simp [Nat.div_add_mod']

@[simp] theorem high_ofBytes (high low : Byte) : (ofBytes high low).high = high := by
  have := low.toNat_lt
  apply UInt8.toNat.inj
  simp; omega

@[simp] theorem low_ofBytes (high low : Byte) : (ofBytes high low).low = low := by
  apply UInt8.toNat.inj
  simp

end Word

def Byte.text (b : Byte) : String :=
  Numeral.hex 2 b.toNat

end Chip8
