import Chip8.Processor.Execution

/-!
# Arithmetic and its flag

The flag makes up for what a byte cannot hold: a carry, a borrow, or a bit shifted out. With it the
result of an instruction is exact, whichever of its two registers are the same or the flag itself.
Main statement: `combine_balances`.
-/

namespace Chip8

/-- The equation between two bytes and what an instruction on them leaves, as whole numbers. -/
def Combination.Balances (how : Combination) (a b result flag : Nat) : Prop :=
  match how with
  | copy => result = b
  | or => result = a ||| b ∧ flag = 0
  | and => result = a &&& b ∧ flag = 0
  | xor => result = a ^^^ b ∧ flag = 0
  | add => result + 256 * flag = a + b
  | sub => result + b = a + 256 * (1 - flag)
  | shiftRight => 2 * result + flag = b
  | subFrom => result + a = b + 256 * (1 - flag)
  | shiftLeft => result + 256 * flag = 2 * b

/-! ## Bytes -/

theorem Byte.sub_balances (a b : Byte) :
    (a - b).toNat + b.toNat = a.toNat + 256 * (1 - (decide (b ≤ a)).toNat) := by
  have := a.toNat_lt
  have := b.toNat_lt
  rw [UInt8.toNat_sub]
  by_cases fits : b ≤ a
  · have : b.toNat ≤ a.toNat := UInt8.le_iff_toNat_le.1 fits
    simp [fits]
    omega
  · have : ¬ b.toNat ≤ a.toNat := fun le => fits (UInt8.le_iff_toNat_le.2 le)
    simp [fits]
    omega

namespace Combination

variable {how : Combination}

theorem apply_balances (flagged : how ≠ copy) (a b : Byte) :
    ∃ raised : Bool, (how.apply a b).2 = some raised ∧
      how.Balances a.toNat b.toNat (how.apply a b).1.toNat raised.toNat := by
  have := a.toNat_lt
  have := b.toNat_lt
  unfold apply Balances
  cases how
  case copy => exact absurd rfl flagged
  case or | and | xor => simp
  case add =>
    refine ⟨_, rfl, ?_⟩
    rw [UInt8.toNat_add]
    by_cases carries : 256 ≤ a.toNat + b.toNat
    · simp [carries]
      omega
    · simp [carries]
      omega
  case sub => exact ⟨_, rfl, Byte.sub_balances a b⟩
  case subFrom => exact ⟨_, rfl, Byte.sub_balances b a⟩
  case shiftRight =>
    refine ⟨_, rfl, ?_⟩
    by_cases odd : b.toNat % 2 = 1
    · simp [odd, Nat.shiftRight_eq_div_pow]
      omega
    · simp [odd, Nat.shiftRight_eq_div_pow]
      omega
  case shiftLeft =>
    refine ⟨_, rfl, ?_⟩
    by_cases high : 128 ≤ b.toNat
    · simp [high, Nat.shiftLeft_eq]
      omega
    · simp [high, Nat.shiftLeft_eq]
      omega

theorem Balances.unique {a b r f r' f' : Nat} (flagged : how ≠ copy) (first : how.Balances a b r f)
    (second : how.Balances a b r' f') (byte : r < 256) (byte' : r' < 256) (bit : f ≤ 1)
    (bit' : f' ≤ 1) : r = r' ∧ f = f' := by
  cases how <;> simp only [Balances] at first second
  case copy => exact absurd rfl flagged
  all_goals omega

end Combination

/-! ## Registers -/

theorem Registers.combine_of_raised {v : Registers} {how : Combination} {x y : Register}
    {raised : Bool} (flagged : (how.apply (v.get x) (v.get y)).2 = some raised) :
    v.combine how x y = (v.set x (how.apply (v.get x) (v.get y)).1).setFlag raised := by
  unfold combine
  generalize how.apply (v.get x) (v.get y) = outcome at *
  obtain ⟨result, flag⟩ := outcome
  obtain rfl : flag = some raised := flagged
  rfl

namespace Processor

theorem handle?_combine (p : Processor) (how : Combination) (x y : Register) :
    p.handle? (.ofPair 0x8 x y how.code) =
      some { processor := { p with v := p.v.combine how x y } } :=
  p.handle?_encode (i := .combine how x y) trivial

theorem handle?_addByte (p : Processor) (x : Register) (k : Byte) :
    p.handle? (.ofByte 0x7 x k) = some { processor := p.setRegister x (p.v.get x + k) } :=
  p.handle?_encode (i := .addByte x k) trivial

/-- **Arithmetic is exact.** An instruction that writes the flag leaves in its first register and in
the flag what balances with the two registers as they were before. If the first register is the
flag, the result is lost and the flag stays. No other register changes, and a copy or the addition
of a byte changes the first register alone. -/
theorem combine_balances (p : Processor) (x y : Register) :
    let a := p.v.get x
    let b := p.v.get y
    (∀ how ≠ Combination.copy, ∃ (v : Registers) (result flag : Byte),
      p.handle? (.ofPair 0x8 x y how.code) = some { processor := { p with v := v } } ∧
      how.Balances a.toNat b.toNat result.toNat flag.toNat ∧ flag.toNat ≤ 1 ∧
      (∀ r f, r < 256 → f ≤ 1 → how.Balances a.toNat b.toNat r f →
        result.toNat = r ∧ flag.toNat = f) ∧
      (x ≠ .flag → v.get x = result) ∧ v.get .flag = flag ∧
      ∀ r, r ≠ x → r ≠ .flag → v.get r = p.v.get r) ∧
    (∃ v : Registers, p.handle? (.ofPair 0x8 x y 0x0) = some { processor := { p with v := v } } ∧
      v.get x = b ∧ ∀ r, r ≠ x → v.get r = p.v.get r) ∧
    ∀ k : Byte, ∃ v : Registers,
      p.handle? (.ofByte 0x7 x k) = some { processor := { p with v := v } } ∧
      (v.get x).toNat = (a.toNat + k.toNat) % 256 ∧ ∀ r, r ≠ x → v.get r = p.v.get r := by
  intro a b
  refine ⟨?_, ?_, ?_⟩
  · intro how flagged
    obtain ⟨raised, flag, balances⟩ := Combination.apply_balances flagged a b
    have bit : (if raised then 1 else 0 : Byte).toNat = raised.toNat := by cases raised <;> rfl
    have small : raised.toNat ≤ 1 := raised.toNat_le
    refine ⟨_, (how.apply a b).1, if raised then 1 else 0, p.handle?_combine how x y, ?_⟩
    rw [Registers.combine_of_raised flag, bit]
    unfold Registers.setFlag
    refine ⟨balances, small, ?_, ?_, ?_, ?_⟩
    · intro r f byte least others
      exact balances.unique flagged others (UInt8.toNat_lt _) byte small least
    · intro other
      rw [Registers.get_set_of_ne _ _ other.symm, Registers.get_set_self]
    · exact Registers.get_set_self _ _ _
    · intro r apart other
      rw [Registers.get_set_of_ne _ _ other.symm, Registers.get_set_of_ne _ _ apart.symm]
  · refine ⟨_, p.handle?_combine .copy x y, Registers.get_set_self _ _ _, ?_⟩
    intro r apart
    exact Registers.get_set_of_ne _ _ apart.symm
  · intro k
    refine ⟨_, p.handle?_addByte x k, ?_, ?_⟩
    · rw [Registers.get_set_self]
      exact UInt8.toNat_add a k
    · intro r apart
      exact Registers.get_set_of_ne _ _ apart.symm

def carrying : Processor :=
  (Processor.start 0 false 0).setRegister .first 200 |>.setRegister .flag 100

/-- Added to the flag, 200 leaves its carry there and no sum. -/
theorem combine_balances_into_flag :
    ∃ v : Registers, carrying.handle? 0x8F04 = some { processor := { carrying with v := v } } ∧
      (v.get .flag).toNat = 1 ∧ v.get .first = 200 := by
  have values : carrying.v.get .flag = 100 ∧ carrying.v.get .first = 200 := by decide
  obtain ⟨v, result, flag, handled, balances, -, -, -, final, others⟩ :=
    (combine_balances carrying .flag .first).1 .add (by decide)
  rw [values.1, values.2] at balances
  have sum : result.toNat + 256 * flag.toNat = 300 := balances
  have := result.toNat_lt
  refine ⟨v, handled, ?_, ?_⟩
  · rw [final]
    omega
  · rw [others .first (by decide) (by decide), values.2]

end Processor

end Chip8
