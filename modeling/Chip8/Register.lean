import Chip8.UnknownName
import Chip8.Word

/-!
# Registers

Sixteen registers of one byte, named `V0` to `VF`. The last one doubles as the flag that arithmetic
and drawing leave behind. Main statements: a register holds what was last written to it, and a
register's name reads back as that register.
-/

namespace Chip8

@[ext] structure Register where
  index : Fin 16
  deriving DecidableEq

namespace Register

def first : Register := ⟨⟨0, by decide⟩⟩

/-- The register that arithmetic and drawing use as their flag. -/
def flag : Register := ⟨⟨15, by decide⟩⟩

def ofNat (n : Nat) : Register :=
  ⟨Numeral.lastDigit n⟩

def all : List Register :=
  (List.finRange 16).map Register.mk

def upTo (r : Register) : List Register :=
  (List.range (r.index.val + 1)).map ofNat

def name (r : Register) : String :=
  String.ofList ['V', Numeral.upperDigit r.index]

/-- Reads a name: a `V` and one hexadecimal digit, in either case. -/
def ofName? : List Char → Option Register
  | [v, digit] =>
    if v = 'V' ∨ v = 'v' then (Numeral.hexDigit? digit).map Register.mk else none
  | _ => none

def read (text : String) : Except UnknownName Register :=
  match ofName? text.toList with
  | some r => .ok r
  | none => .error (.register text)

@[simp] theorem index_ofNat (n : Nat) : (ofNat n).index.val = n % 16 := rfl

@[simp] theorem ofNat_index (r : Register) : ofNat r.index.val = r := by
  cases r; simp [ofNat]

theorem mem_upTo {r s : Register} : s ∈ r.upTo ↔ s.index ≤ r.index := by
  simp only [upTo, List.mem_map, List.mem_range]
  constructor
  · rintro ⟨k, hk, rfl⟩
    rw [Fin.le_def, index_ofNat]
    omega
  · intro h
    exact ⟨s.index.val, by rw [Fin.le_def] at h; omega, ofNat_index s⟩

theorem read_name (r : Register) : read r.name = .ok r := by
  simp [read, name, ofName?, Numeral.hexDigit?_upperDigit]

end Register

structure Registers where
  bytes : Vector Byte 16
  deriving DecidableEq

namespace Registers

def zero : Registers :=
  ⟨Vector.replicate 16 0⟩

def get (v : Registers) (r : Register) : Byte :=
  v.bytes[r.index]

def set (v : Registers) (r : Register) (b : Byte) : Registers :=
  ⟨v.bytes.set r.index b⟩

def setFlag (v : Registers) (raised : Bool) : Registers :=
  v.set .flag (if raised then 1 else 0)

def summary (v : Registers) : String :=
  let fields := Register.all.map fun r => r.name ++ ": " ++ (v.get r).text
  "RegFile \x7b " ++ String.intercalate ", " fields ++ " \x7d"

@[ext] theorem ext {v w : Registers} (h : ∀ r, v.get r = w.get r) : v = w := by
  cases v; cases w
  congr
  apply Vector.ext
  intro i hi
  exact h ⟨⟨i, hi⟩⟩

theorem get_set (v : Registers) (r s : Register) (b : Byte) :
    (v.set r b).get s = if r = s then b else v.get s := by
  obtain ⟨r⟩ := r
  obtain ⟨s⟩ := s
  simp [get, set, Vector.getElem_set, Fin.ext_iff]

@[simp] theorem get_set_self (v : Registers) (r : Register) (b : Byte) :
    (v.set r b).get r = b := by
  simp [get_set]

theorem get_set_of_ne (v : Registers) {r s : Register} (b : Byte) (h : r ≠ s) :
    (v.set r b).get s = v.get s := by
  simp [get_set, h]

end Registers

end Chip8
