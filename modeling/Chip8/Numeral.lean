/-!
# Numerals

Reading and writing numbers in a radix of at most sixteen. A written number uses lower-case digits
and is padded with zeros on the left; a number that a person types may have a plus sign, leading
zeros and digits of either case. Main statement: what `padded` writes, `value?` reads back.
-/

namespace Chip8.Numeral

def digitValue? (c : Char) : Option Nat :=
  if '0' ≤ c ∧ c ≤ '9' then some (c.toNat - 48)
  else if 'a' ≤ c ∧ c ≤ 'f' then some (c.toNat - 87)
  else if 'A' ≤ c ∧ c ≤ 'F' then some (c.toNat - 55)
  else none

def digit? (radix : Nat) (c : Char) : Option Nat :=
  (digitValue? c).filter (· < radix)

/-- The number that a list of digits spells, most significant first; no digits spell zero. -/
def value? (radix : Nat) (cs : List Char) : Option Nat :=
  cs.foldlM (fun n c => (digit? radix c).map (radix * n + ·)) 0

/-- Reads a typed number: an optional plus sign and at least one digit, at most `limit` in value. -/
def read? (radix limit : Nat) (cs : List Char) : Option Nat :=
  let digits := if cs.head? = some '+' then cs.tail else cs
  if digits.isEmpty then none else (value? radix digits).filter (· ≤ limit)

/-- The digits of `n` in the given radix, with zeros in front up to `width` characters. -/
def padded (radix width n : Nat) : List Char :=
  (Nat.toDigits radix n).leftpad width '0'

def maxLong : Nat := 0xFFFFFFFFFFFFFFFF

def hex (width n : Nat) : String :=
  String.ofList (padded 16 width n)

def decimal (n : Nat) : String :=
  String.ofList (padded 10 1 n)

def upperDigit (d : Fin 16) : Char :=
  d.val.digitChar.toUpper

def lastDigit (n : Nat) : Fin 16 :=
  ⟨n % 16, Nat.mod_lt n (by decide)⟩

def hexDigit? (c : Char) : Option (Fin 16) :=
  (digitValue? c).map lastDigit

@[simp] theorem val_lastDigit (n : Nat) : (lastDigit n).val = n % 16 := rfl

@[simp] theorem lastDigit_val (d : Fin 16) : lastDigit d.val = d := by
  apply Fin.ext
  simp

theorem hexDigit?_upperDigit (d : Fin 16) : hexDigit? (upperDigit d) = some d := by
  revert d; decide

/-! ## Reading back -/

theorem digit?_digitChar {radix d : Nat} (h : d < radix) (hr : radix ≤ 16) :
    digit? radix d.digitChar = some d := by
  have all : ∀ d : Fin 16, digitValue? d.val.digitChar = some d.val := by decide
  simp [digit?, all ⟨d, by omega⟩, h]

theorem value?_append_digit (radix : Nat) (cs : List Char) (c : Char) :
    value? radix (cs ++ [c]) =
      (value? radix cs).bind fun n => (digit? radix c).map (radix * n + ·) := by
  simp [value?, List.foldlM_append]

theorem value?_toDigits {radix : Nat} (h : 1 < radix) (hr : radix ≤ 16) (n : Nat) :
    value? radix (Nat.toDigits radix n) = some n := by
  induction n using Nat.strongRecOn with
  | _ n ih =>
    rw [Nat.toDigits_eq_if h]
    split
    · next small => simp [value?, digit?_digitChar small hr]
    · next large =>
      have positive : 0 < n := by omega
      have shorter := ih (n / radix) (Nat.div_lt_self positive h)
      have last := digit?_digitChar (Nat.mod_lt n (by omega : radix > 0)) hr
      rw [value?_append_digit, shorter]
      simp [last, Nat.div_add_mod]

theorem value?_zeros {radix : Nat} (h : 1 < radix) (k : Nat) (cs : List Char) :
    value? radix (List.replicate k '0' ++ cs) = value? radix cs := by
  have zero : digit? radix '0' = some 0 := by
    have : digitValue? '0' = some 0 := rfl
    simp [digit?, this]; omega
  induction k with
  | zero => simp
  | succ k ih =>
    rw [List.replicate_succ, List.cons_append, value?, List.foldlM_cons, zero]
    simpa [value?] using ih

theorem value?_padded {radix : Nat} (h : 1 < radix) (hr : radix ≤ 16) (width n : Nat) :
    value? radix (padded radix width n) = some n := by
  rw [padded, List.leftpad, value?_zeros h, value?_toDigits h hr]

end Chip8.Numeral
