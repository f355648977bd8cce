import Chip8.Instruction.Basic

/-!
# Instructions as words

The first digit of a word tells the group of its instruction, and the group tells what the other
three digits mean: an address; a register and a byte; or two registers and a digit. Main statements:
a word that decodes is the encoding of what it decodes to, and every instruction but a system call
whose word is taken decodes from its encoding.
-/

namespace Chip8

/-! ## The layouts of a word -/

namespace Word

def ofAddress (group : Nat) (a : Address) : Word :=
  UInt16.ofNat (group * 0x1000 + a.val)

def ofByte (group : Nat) (x : Register) (b : Byte) : Word :=
  UInt16.ofNat (group * 0x1000 + x.index.val * 0x100 + b.toNat)

def ofPair (group : Nat) (x y : Register) (n : Nat) : Word :=
  UInt16.ofNat (group * 0x1000 + x.index.val * 0x100 + y.index.val * 0x10 + n)

def x (w : Word) : Register :=
  ⟨w.nibble 2⟩

def y (w : Word) : Register :=
  ⟨w.nibble 1⟩

end Word

/-! ## Writing -/

def Combination.code : Combination → Nat
  | .copy => 0x0
  | .or => 0x1
  | .and => 0x2
  | .xor => 0x3
  | .add => 0x4
  | .sub => 0x5
  | .shiftRight => 0x6
  | .subFrom => 0x7
  | .shiftLeft => 0xE

def Combination.ofCode? : Nat → Option Combination
  | 0x0 => some .copy
  | 0x1 => some .or
  | 0x2 => some .and
  | 0x3 => some .xor
  | 0x4 => some .add
  | 0x5 => some .sub
  | 0x6 => some .shiftRight
  | 0x7 => some .subFrom
  | 0xE => some .shiftLeft
  | _ => none

namespace Instruction

def encode : Instruction → Word
  | system target => .ofAddress 0x0 target
  | clearScreen => 0x00E0
  | ret => 0x00EE
  | jump target => .ofAddress 0x1 target
  | call target => .ofAddress 0x2 target
  | skipIfByte x byte => .ofByte 0x3 x byte
  | skipUnlessByte x byte => .ofByte 0x4 x byte
  | skipIfSame x y => .ofPair 0x5 x y 0x0
  | load x byte => .ofByte 0x6 x byte
  | addByte x byte => .ofByte 0x7 x byte
  | combine how x y => .ofPair 0x8 x y how.code
  | skipUnlessSame x y => .ofPair 0x9 x y 0x0
  | loadIndex target => .ofAddress 0xA target
  | jumpPast target => .ofAddress 0xB target
  | random x mask => .ofByte 0xC x mask
  | draw x y height => .ofPair 0xD x y height.val
  | skipIfKey x => .ofByte 0xE x 0x9E
  | skipUnlessKey x => .ofByte 0xE x 0xA1
  | readDelay x => .ofByte 0xF x 0x07
  | awaitKey x => .ofByte 0xF x 0x0A
  | setDelay x => .ofByte 0xF x 0x15
  | setSound x => .ofByte 0xF x 0x18
  | addIndex x => .ofByte 0xF x 0x1E
  | loadGlyph x => .ofByte 0xF x 0x29
  | storeDecimal x => .ofByte 0xF x 0x33
  | storeUpTo x => .ofByte 0xF x 0x55
  | loadUpTo x => .ofByte 0xF x 0x65

/-! ## Reading -/

def ofKeyTest? (x : Register) (byte : Nat) : Option Instruction :=
  match byte with
  | 0x9E => some (skipIfKey x)
  | 0xA1 => some (skipUnlessKey x)
  | _ => none

def ofSingle? (x : Register) (byte : Nat) : Option Instruction :=
  match byte with
  | 0x07 => some (readDelay x)
  | 0x0A => some (awaitKey x)
  | 0x15 => some (setDelay x)
  | 0x18 => some (setSound x)
  | 0x1E => some (addIndex x)
  | 0x29 => some (loadGlyph x)
  | 0x33 => some (storeDecimal x)
  | 0x55 => some (storeUpTo x)
  | 0x65 => some (loadUpTo x)
  | _ => none

def decode? (w : Word) : Option Instruction :=
  match (w.nibble 3).val with
  | 0x0 =>
    if w.address.val = 0x0E0 then some clearScreen
    else if w.address.val = 0x0EE then some ret
    else some (system w.address)
  | 0x1 => some (jump w.address)
  | 0x2 => some (call w.address)
  | 0x3 => some (skipIfByte w.x w.low)
  | 0x4 => some (skipUnlessByte w.x w.low)
  | 0x5 => if (w.nibble 0).val = 0 then some (skipIfSame w.x w.y) else none
  | 0x6 => some (load w.x w.low)
  | 0x7 => some (addByte w.x w.low)
  | 0x8 => (Combination.ofCode? (w.nibble 0).val).map fun how => combine how w.x w.y
  | 0x9 => if (w.nibble 0).val = 0 then some (skipUnlessSame w.x w.y) else none
  | 0xA => some (loadIndex w.address)
  | 0xB => some (jumpPast w.address)
  | 0xC => some (random w.x w.low)
  | 0xD => some (draw w.x w.y (w.nibble 0))
  | 0xE => ofKeyTest? w.x w.low.toNat
  | 0xF => ofSingle? w.x w.low.toNat
  | _ => none

end Instruction

/-! ## The fields of a word -/

namespace Word

theorem index_x (w : Word) : w.x.index = w.nibble 2 := rfl

theorem index_y (w : Word) : w.y.index = w.nibble 1 := rfl

theorem toNat_ofAddress {group : Nat} (h : group < 16) (a : Address) :
    (ofAddress group a).toNat = group * 0x1000 + a.val := by
  simp [ofAddress]; omega

theorem toNat_ofByte {group : Nat} (h : group < 16) (x : Register) (b : Byte) :
    (ofByte group x b).toNat = group * 0x1000 + x.index.val * 0x100 + b.toNat := by
  have := b.toNat_lt
  simp [ofByte]; omega

theorem toNat_ofPair {group n : Nat} (h : group < 16) (hn : n < 16) (x y : Register) :
    (ofPair group x y n).toNat =
      group * 0x1000 + x.index.val * 0x100 + y.index.val * 0x10 + n := by
  simp [ofPair]; omega

theorem fields_ofAddress {group : Nat} (h : group < 16) (a : Address) :
    ((ofAddress group a).nibble 3).val = group ∧ (ofAddress group a).address = a := by
  have digits := (ofAddress group a).val_nibbles
  have number := toNat_ofAddress h a
  refine ⟨by omega, Fin.ext ?_⟩
  rw [address, Address.val_ofWord]
  omega

theorem fields_ofByte {group : Nat} (h : group < 16) (x : Register) (b : Byte) :
    ((ofByte group x b).nibble 3).val = group ∧ (ofByte group x b).x = x ∧
      (ofByte group x b).low = b := by
  have digits := (ofByte group x b).val_nibbles
  have number := toNat_ofByte h x b
  have := b.toNat_lt
  refine ⟨by omega, Register.ext (Fin.ext ?_), UInt8.toNat.inj ?_⟩
  · rw [index_x]; omega
  · rw [toNat_low]; omega

theorem fields_ofPair {group n : Nat} (h : group < 16) (hn : n < 16) (x y : Register) :
    ((ofPair group x y n).nibble 3).val = group ∧ (ofPair group x y n).x = x ∧
      (ofPair group x y n).y = y ∧ ((ofPair group x y n).nibble 0).val = n := by
  have digits := (ofPair group x y n).val_nibbles
  have number := toNat_ofPair h hn x y
  refine ⟨by omega, Register.ext (Fin.ext ?_), Register.ext (Fin.ext ?_), by omega⟩
  · rw [index_x]; omega
  · rw [index_y]; omega

theorem eq_ofAddress (w : Word) : w = ofAddress (w.nibble 3).val w.address := by
  have digits := w.val_nibbles
  apply UInt16.toNat.inj
  rw [toNat_ofAddress (w.nibble 3).isLt, address, Address.val_ofWord]
  omega

theorem eq_ofByte (w : Word) : w = ofByte (w.nibble 3).val w.x w.low := by
  have digits := w.val_nibbles
  apply UInt16.toNat.inj
  rw [toNat_ofByte (w.nibble 3).isLt, toNat_low, index_x]
  omega

theorem eq_ofPair (w : Word) : w = ofPair (w.nibble 3).val w.x w.y (w.nibble 0).val := by
  have digits := w.val_nibbles
  apply UInt16.toNat.inj
  rw [toNat_ofPair (w.nibble 3).isLt (w.nibble 0).isLt, index_x, index_y]
  omega

end Word

/-! ## Writing and reading -/

theorem Combination.code_lt (how : Combination) : how.code < 16 := by
  cases how <;> decide

@[simp] theorem Combination.ofCode?_code (how : Combination) : ofCode? how.code = some how := by
  cases how <;> rfl

theorem Combination.code_of_ofCode? {n : Nat} {how : Combination} (h : ofCode? n = some how) :
    how.code = n := by
  unfold ofCode? at h
  split at h <;> simp_all <;> subst h <;> rfl

namespace Instruction

/-- Whether the word of an instruction stands for that instruction: two system calls are spelled
like other instructions. -/
def IsProper : Instruction → Prop
  | system target => target.val ≠ 0x0E0 ∧ target.val ≠ 0x0EE
  | _ => True

theorem decode?_encode {i : Instruction} (h : i.IsProper) : decode? i.encode = some i := by
  cases i with
  | system target =>
    obtain ⟨h₁, h₂⟩ := h
    simp [encode, decode?, Word.fields_ofAddress, h₁, h₂]
  | clearScreen | ret => decide
  | jump | call | loadIndex | jumpPast => simp [encode, decode?, Word.fields_ofAddress]
  | combine how x y =>
    have fields := Word.fields_ofPair (show 0x8 < 16 by decide) how.code_lt x y
    simp [encode, decode?, fields]
  | draw x y height =>
    have fields := Word.fields_ofPair (show 0xD < 16 by decide) height.isLt x y
    simp [encode, decode?, fields, Fin.ext_iff]
  | skipIfSame x y =>
    have fields := Word.fields_ofPair (show 0x5 < 16 by decide) (show 0 < 16 by decide) x y
    simp [encode, decode?, fields]
  | skipUnlessSame x y =>
    have fields := Word.fields_ofPair (show 0x9 < 16 by decide) (show 0 < 16 by decide) x y
    simp [encode, decode?, fields]
  | _ => simp [encode, decode?, Word.fields_ofByte, ofKeyTest?, ofSingle?]

theorem decode?_of_call {w : Word} (call : (w.nibble 3).val = 0x2) :
    decode? w = some (.call w.address) := by
  simp [decode?, call]

theorem encode_of_decode? {w : Word} {i : Instruction} (h : decode? w = some i) :
    i.encode = w := by
  have byAddress := w.eq_ofAddress
  have byByte := w.eq_ofByte
  have byPair := w.eq_ofPair
  unfold decode? at h
  split at h <;> rename_i group <;> try rw [group] at byAddress byByte byPair
  · split at h
    · next taken => rw [Word.ofAddress, taken] at byAddress; cases h; exact byAddress.symm
    split at h
    · next taken => rw [Word.ofAddress, taken] at byAddress; cases h; exact byAddress.symm
    · cases h; exact byAddress.symm
  · cases h; exact byAddress.symm
  · cases h; exact byAddress.symm
  · cases h; exact byByte.symm
  · cases h; exact byByte.symm
  · split at h
    · next zero => rw [zero] at byPair; cases h; exact byPair.symm
    · cases h
  · cases h; exact byByte.symm
  · cases h; exact byByte.symm
  · obtain ⟨how, code, rfl⟩ := Option.map_eq_some_iff.1 h
    rw [← Combination.code_of_ofCode? code] at byPair
    exact byPair.symm
  · split at h
    · next zero => rw [zero] at byPair; cases h; exact byPair.symm
    · cases h
  · cases h; exact byAddress.symm
  · cases h; exact byAddress.symm
  · cases h; exact byByte.symm
  · cases h; exact byPair.symm
  · have low : w.low = UInt8.ofNat w.low.toNat := UInt8.ofNat_toNat.symm
    unfold ofKeyTest? at h
    split at h <;> rename_i byte
    · rw [byte] at low; rw [low] at byByte; cases h; exact byByte.symm
    · rw [byte] at low; rw [low] at byByte; cases h; exact byByte.symm
    · cases h
  · have low : w.low = UInt8.ofNat w.low.toNat := UInt8.ofNat_toNat.symm
    unfold ofSingle? at h
    split at h <;> rename_i byte
    all_goals first
      | cases h; done
      | rw [byte] at low; rw [low] at byByte; cases h; exact byByte.symm
  · cases h

end Instruction

end Chip8
