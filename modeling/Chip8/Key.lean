import Chip8.UnknownName
import Chip8.Word

/-!
# Keys

A keypad of sixteen keys, one for each hexadecimal digit. Any number of keys may be held at once;
where a single key is wanted, the lowest one held counts. Main statements: what a change does to
each key, and that the lowest key held is down.
-/

namespace Chip8

structure Key where
  digit : Fin 16
  deriving DecidableEq

namespace Key

def ofNat (n : Nat) : Key :=
  ⟨Numeral.lastDigit n⟩

def all : List Key :=
  (List.finRange 16).map Key.mk

def toByte (k : Key) : Byte :=
  UInt8.ofNat k.digit.val

def name (k : Key) : String :=
  String.ofList [Numeral.upperDigit k.digit]

/-- Reads a name: one hexadecimal digit in either case, with or without a `K` in front. -/
def ofName? : List Char → Option Key
  | [digit] => (Numeral.hexDigit? digit).map Key.mk
  | [k, digit] =>
    if k = 'K' ∨ k = 'k' then (Numeral.hexDigit? digit).map Key.mk else none
  | _ => none

def read (text : String) : Except UnknownName Key :=
  match ofName? text.toList with
  | some k => .ok k
  | none => .error (.key text)

@[simp] theorem digit_ofNat (n : Nat) : (ofNat n).digit.val = n % 16 := rfl

@[simp] theorem ofNat_digit (k : Key) : ofNat k.digit.val = k := by
  cases k; simp [ofNat]

theorem read_name (k : Key) : read k.name = .ok k := by
  simp [read, name, ofName?, Numeral.hexDigit?_upperDigit]

end Key

structure Keypad where
  down : Vector Bool 16
  deriving DecidableEq

namespace Keypad

def idle : Keypad :=
  ⟨Vector.replicate 16 false⟩

def isDown (p : Keypad) (k : Key) : Bool :=
  p.down[k.digit]

def set (p : Keypad) (k : Key) (down : Bool) : Keypad :=
  ⟨p.down.set k.digit down⟩

def press (p : Keypad) (k : Key) : Keypad :=
  p.set k true

def release (p : Keypad) (k : Key) : Keypad :=
  p.set k false

def held (p : Keypad) : List Key :=
  Key.all.filter p.isDown

def lowest? (p : Keypad) : Option Key :=
  Key.all.find? p.isDown

@[ext] theorem ext {p q : Keypad} (h : ∀ k, p.isDown k = q.isDown k) : p = q := by
  cases p; cases q
  congr
  apply Vector.ext
  intro i hi
  exact h ⟨⟨i, hi⟩⟩

@[simp] theorem isDown_idle (k : Key) : idle.isDown k = false := by
  simp [idle, isDown]

theorem isDown_set (p : Keypad) (k j : Key) (down : Bool) :
    (p.set k down).isDown j = if k = j then down else p.isDown j := by
  obtain ⟨k⟩ := k
  obtain ⟨j⟩ := j
  simp [isDown, set, Vector.getElem_set, Fin.ext_iff]

theorem isDown_of_lowest? {p : Keypad} {k : Key} (h : p.lowest? = some k) : p.isDown k := by
  simpa using List.find?_some h

end Keypad

end Chip8
