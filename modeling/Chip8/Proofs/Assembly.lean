import Chip8.Instruction.Encoding

/-!
# Assembling words

A person who assembles a word names an operator and gives it operands: any registers, bytes and words,
of which the operator takes what it has room for. A word spells operands of its own, and decoding finds
the operator that takes them. Main statement: `assembly_round_trip`.
-/

namespace Chip8

structure Operands where
  x : Register
  y : Register
  byte : Byte
  height : Byte
  target : Word

def Word.operands (w : Word) : Operands where
  x := w.x
  y := w.y
  byte := w.low
  height := UInt8.ofNat (w.nibble 0).val
  target := w.address.toWord

namespace Operator

/-- The instruction on the given operands. The low twelve bits of a target count, and the low four of
a height. -/
def on (o : Operator) (given : Operands) : Instruction :=
  match o with
  | system => .system given.target.address
  | clearScreen => .clearScreen
  | ret => .ret
  | jump => .jump given.target.address
  | call => .call given.target.address
  | skipIfByte => .skipIfByte given.x given.byte
  | skipUnlessByte => .skipUnlessByte given.x given.byte
  | skipIfSame => .skipIfSame given.x given.y
  | skipUnlessSame => .skipUnlessSame given.x given.y
  | load => .load given.x given.byte
  | addByte => .addByte given.x given.byte
  | combine how => .combine how given.x given.y
  | loadIndex => .loadIndex given.target.address
  | jumpPast => .jumpPast given.target.address
  | random => .random given.x given.byte
  | draw => .draw given.x given.y (Numeral.lastDigit given.height.toNat)
  | skipIfKey => .skipIfKey given.x
  | skipUnlessKey => .skipUnlessKey given.x
  | readDelay => .readDelay given.x
  | awaitKey => .awaitKey given.x
  | setDelay => .setDelay given.x
  | setSound => .setSound given.x
  | addIndex => .addIndex given.x
  | loadGlyph => .loadGlyph given.x
  | storeDecimal => .storeDecimal given.x
  | storeUpTo => .storeUpTo given.x
  | loadUpTo => .loadUpTo given.x

def build (o : Operator) (given : Operands) : Word :=
  (o.on given).encode

/-- Whether two lists of operands agree in what the operator reads. -/
def Agree (o : Operator) (a b : Operands) : Prop :=
  match o with
  | clearScreen | ret => True
  | system | jump | call | loadIndex | jumpPast =>
    a.target.toNat % 4096 = b.target.toNat % 4096
  | skipIfByte | skipUnlessByte | load | addByte | random => a.x = b.x ∧ a.byte = b.byte
  | skipIfSame | skipUnlessSame | combine _ => a.x = b.x ∧ a.y = b.y
  | draw => a.x = b.x ∧ a.y = b.y ∧ a.height.toNat % 16 = b.height.toNat % 16
  | skipIfKey | skipUnlessKey | readDelay | awaitKey | setDelay | setSound | addIndex | loadGlyph
  | storeDecimal | storeUpTo | loadUpTo => a.x = b.x

end Operator

def Instruction.operator : Instruction → Operator
  | system _ => .system
  | clearScreen => .clearScreen
  | ret => .ret
  | jump _ => .jump
  | call _ => .call
  | skipIfByte _ _ => .skipIfByte
  | skipUnlessByte _ _ => .skipUnlessByte
  | skipIfSame _ _ => .skipIfSame
  | skipUnlessSame _ _ => .skipUnlessSame
  | load _ _ => .load
  | addByte _ _ => .addByte
  | combine how _ _ => .combine how
  | loadIndex _ => .loadIndex
  | jumpPast _ => .jumpPast
  | random _ _ => .random
  | draw _ _ _ => .draw
  | skipIfKey _ => .skipIfKey
  | skipUnlessKey _ => .skipUnlessKey
  | readDelay _ => .readDelay
  | awaitKey _ => .awaitKey
  | setDelay _ => .setDelay
  | setSound _ => .setSound
  | addIndex _ => .addIndex
  | loadGlyph _ => .loadGlyph
  | storeDecimal _ => .storeDecimal
  | storeUpTo _ => .storeUpTo
  | loadUpTo _ => .loadUpTo

/-! ## Operators and their operands -/

theorem Word.address_target_operands (w : Word) : w.operands.target.address = w.address :=
  Address.ofWord_toWord w.address

theorem Word.lastDigit_height_operands (w : Word) :
    Numeral.lastDigit w.operands.height.toNat = w.nibble 0 := by
  have bound := (w.nibble 0).isLt
  apply Fin.ext
  simp [operands]

theorem Instruction.on_operands_encode (i : Instruction) :
    i.operator.on i.encode.operands = i := by
  unfold operator Operator.on
  cases i
  case clearScreen | ret => rfl
  case system | jump | call | loadIndex | jumpPast =>
    simp [encode, Word.address_target_operands, Word.fields_ofAddress]
  case combine how x y => simp [encode, Word.operands, Word.fields_ofPair, how.code_lt]
  case draw x y height =>
    have fields := Word.fields_ofPair (show 0xD < 16 by decide) height.isLt x y
    rw [Word.lastDigit_height_operands]
    simp [encode, Word.operands, fields, Fin.ext_iff]
  all_goals simp [encode, Word.operands, Word.fields_ofPair, Word.fields_ofByte]

theorem Operator.operator_on (o : Operator) (given : Operands) : (o.on given).operator = o := by
  cases o <;> rfl

theorem Operator.agree_of_on_eq {o : Operator} {a b : Operands} (same : o.on a = o.on b) :
    o.Agree a b := by
  have targets : a.target.address = b.target.address →
      a.target.toNat % 4096 = b.target.toNat % 4096 := congrArg Fin.val
  have heights : Numeral.lastDigit a.height.toNat = Numeral.lastDigit b.height.toNat →
      a.height.toNat % 16 = b.height.toNat % 16 := congrArg Fin.val
  unfold Agree
  cases o <;> simp [on] at same <;> grind

theorem Operator.agree_build (o : Operator) (given : Operands) :
    o.Agree (o.build given).operands given := by
  apply agree_of_on_eq
  have spelled := (o.on given).on_operands_encode
  rwa [operator_on] at spelled

/-! ## Building and decoding -/

theorem Operator.decode?_build_system (given : Operands) :
    Instruction.decode? (system.build given) =
      some (if given.target.toNat % 4096 = 0x0E0 then .clearScreen
        else if given.target.toNat % 4096 = 0x0EE then .ret
        else .system given.target.address) := by
  have fields := Word.fields_ofAddress (show 0 < 16 by decide) given.target.address
  have value : given.target.address.val = given.target.toNat % 4096 := rfl
  unfold build on Instruction.encode Instruction.decode?
  simp only [fields, value]
  split
  · rfl
  · split <;> rfl

theorem Operator.decode?_build_of_ne {o : Operator} (other : o ≠ .system) (given : Operands) :
    Instruction.decode? (o.build given) = some (o.on given) := by
  apply Instruction.decode?_encode
  unfold on
  cases o
  case system => exact absurd rfl other
  all_goals trivial

theorem Operator.decode?_build (o : Operator) (given : Operands) :
    Instruction.decode? (o.build given) =
      some (if o = .system ∧ given.target.toNat % 4096 = 0x0E0 then .clearScreen
        else if o = .system ∧ given.target.toNat % 4096 = 0x0EE then .ret
        else o.on given) := by
  by_cases h : o = .system
  · subst h
    simp only [true_and]
    exact decode?_build_system given
  · simpa [h] using decode?_build_of_ne h given

theorem Word.decode?_eq_on (w : Word) :
    Instruction.decode? w = none ∨
      ∃ o : Operator, Instruction.decode? w = some (o.on w.operands) ∧ o.build w.operands = w := by
  rcases h : Instruction.decode? w with _ | i
  · exact Or.inl rfl
  · right
    have spelled := i.on_operands_encode
    have encoded := Instruction.encode_of_decode? h
    rw [encoded] at spelled
    refine ⟨i.operator, congrArg some spelled.symm, ?_⟩
    unfold Operator.build
    rw [spelled, encoded]

/-- **Assembling and decoding.** A built word decodes to its operator on the operands that it was
built from, two system calls apart, which are spelled like a clearing of the screen and a return.
A word that decodes is built by the operator that it decodes to, from the operands that it spells. So
the words that can be built are those that decode. -/
theorem assembly_round_trip :
    (∀ (o : Operator) (given : Operands),
      Instruction.decode? (o.build given) =
        some (if o = .system ∧ given.target.toNat % 4096 = 0x0E0 then .clearScreen
          else if o = .system ∧ given.target.toNat % 4096 = 0x0EE then .ret
          else o.on given) ∧
      o.Agree (o.build given).operands given) ∧
    (∀ w : Word, Instruction.decode? w = none ∨
      ∃ o : Operator, Instruction.decode? w = some (o.on w.operands) ∧ o.build w.operands = w) ∧
    ∀ w : Word, (Instruction.decode? w).isSome ↔
      ∃ (o : Operator) (given : Operands), o.build given = w := by
  refine ⟨fun o given => ⟨o.decode?_build given, o.agree_build given⟩, Word.decode?_eq_on, ?_⟩
  intro w
  constructor
  · intro decodes
    rcases w.decode?_eq_on with undecoded | ⟨o, -, word⟩
    · simp [undecoded] at decodes
    · exact ⟨o, w.operands, word⟩
  · rintro ⟨o, given, rfl⟩
    rw [o.decode?_build given]
    rfl

/-- Zero is a system call; a target is cut down to twelve bits. -/
example :
    Instruction.decode? 0x0000 = some (.system .zero) ∧
      Operator.call.build ⟨.first, .flag, 0, 0, 0xFABC⟩ = 0x2ABC := by
  decide

end Chip8
