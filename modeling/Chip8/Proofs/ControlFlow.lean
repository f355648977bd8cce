import Chip8.Proofs.Footprint

/-!
# Control flow

Where a step goes on, and what it leaves on the call stack, follow from the digits of the word at the
program counter and the machine before it, whether the word is an instruction or not and however long
it waits for a key. Main statement: `control_of_word`.
-/

namespace Chip8

/-! ## Words by where they lead -/

namespace Word

def skips (w : Word) (p : Processor) : Bool :=
  let x := p.v.get w.x
  let down := p.keypad.isDown (.ofNat (x.toNat % 16))
  match (w.nibble 3).val with
  | 0x3 => x == w.low
  | 0x4 => x != w.low
  | 0x5 => (w.nibble 0).val == 0 && x == p.v.get w.y
  | 0x9 => (w.nibble 0).val == 0 && x != p.v.get w.y
  | 0xE => (w.low == 0x9E && down) || (w.low == 0xA1 && !down)
  | _ => false

/-- The address behind a word at the program counter, or behind the next one. -/
def onward (w : Word) (p : Processor) : Address :=
  .ofNat (p.pc.val + if w.skips p then 4 else 2)

/-- Where a word at the program counter leads. -/
def leadsTo (w : Word) (p : Processor) : Address :=
  match (w.nibble 3).val with
  | 0x0 => if w = 0x00EE then (p.stack.frames.getLast?.getD 0).address else w.onward p
  | 0x1 | 0x2 => w.address
  | 0xB => .ofNat (w.address.val + (p.v.get .first).toNat)
  | _ => w.onward p

/-- The frames that a word at the program counter leaves. -/
def leaves (w : Word) (p : Processor) : List Word :=
  let frames := p.stack.frames
  match (w.nibble 3).val with
  | 0x0 => if w = 0x00EE then frames.dropLast else frames
  | 0x2 =>
    if frames.length < 16 then frames ++ [(Address.ofNat (p.pc.val + 2)).toWord] else frames
  | _ => frames

variable {w : Word} {p : Processor}

theorem decode?_of_skips (skips : w.skips p) : Instruction.decode? w ≠ none := by
  unfold Word.skips at skips
  unfold Instruction.decode?
  split at skips
  · next digit => simp [digit]
  · next digit => simp [digit]
  · next digit => simp_all
  · next digit => simp_all
  · next digit =>
    rw [digit]
    simp only [Bool.or_eq_true, Bool.and_eq_true, beq_iff_eq] at skips
    rcases skips with ⟨low, -⟩ | ⟨low, -⟩
    · rw [low]
      simp [Instruction.ofKeyTest?]
    · rw [low]
      simp [Instruction.ofKeyTest?]
  · cases skips

theorem onward_of_not_skips (still : w.skips p = false) : w.onward p = p.pc.advance 2 := by
  rw [onward, still]
  rfl

/-- In the other groups a word goes on behind itself, unless it returns. -/
theorem leadsTo_of_straight
    (straight : (w.nibble 3).val ∉ [0x1, 0x2, 0x3, 0x4, 0x5, 0x9, 0xB, 0xE])
    (stays : w ≠ 0x00EE) : w.leadsTo p = p.pc.advance 2 := by
  have still : w.skips p = false := by
    unfold skips
    split <;> simp_all
  rw [← onward_of_not_skips still]
  unfold leadsTo
  split <;> simp_all

theorem leadsTo_of_undecoded (undecoded : Instruction.decode? w = none) :
    w.leadsTo p = p.pc.advance 2 := by
  have still : w.skips p = false := by
    by_contra skips
    exact decode?_of_skips (by simpa using skips) undecoded
  rw [← onward_of_not_skips still]
  unfold leadsTo
  unfold Instruction.decode? at undecoded
  split
  · next digit =>
    rw [if_neg]
    rintro rfl
    cases undecoded
  · next digit => simp [digit] at undecoded
  · next digit => simp [digit] at undecoded
  · next digit => simp [digit] at undecoded
  · rfl

theorem ne_of_decode? {i : Instruction} (decoded : Instruction.decode? w = some i)
    (other : i ≠ .ret) : w ≠ 0x00EE := by
  rintro rfl
  cases decoded
  exact other rfl

end Word

/-! ## Instructions -/

namespace Processor

theorem pc_skipIf {p : Processor} {w : Word} {condition : Bool} (same : w.skips p = condition) :
    ({ p with pc := p.pc.advance 2 }.skipIf condition).pc = w.onward p := by
  rw [skipIf_eq, Word.onward, same]
  cases condition
  · rfl
  · exact Address.advance_advance p.pc 2 2

theorem pc_execute {i : Instruction} {w : Word} (p : Processor)
    (decoded : Instruction.decode? w = some i) :
    ({ p with pc := p.pc.advance 2 }.execute i).processor.pc = w.leadsTo p := by
  obtain rfl := Instruction.encode_of_decode? decoded
  cases i with
  | ret => exact congrArg Word.address p.stack.pop_fst
  | jump target | call target | jumpPast target =>
    simp [Word.leadsTo, Instruction.encode, Word.fields_ofAddress, execute, Address.advance]
  | skipIfByte x byte | skipUnlessByte x byte =>
    have fields := Word.fields_ofByte (show 0x3 < 16 by decide) x byte
    have fields' := Word.fields_ofByte (show 0x4 < 16 by decide) x byte
    simp only [Word.leadsTo, Instruction.encode, fields, fields']
    apply pc_skipIf
    simp [Word.skips, fields, fields']
  | skipIfSame x y | skipUnlessSame x y =>
    have fields := Word.fields_ofPair (show 0x5 < 16 by decide) (show 0 < 16 by decide) x y
    have fields' := Word.fields_ofPair (show 0x9 < 16 by decide) (show 0 < 16 by decide) x y
    simp only [Word.leadsTo, Instruction.encode, fields, fields']
    apply pc_skipIf
    simp [Word.skips, fields, fields']
  | skipIfKey x | skipUnlessKey x =>
    have fields := Word.fields_ofByte (show 0xE < 16 by decide) x 0x9E
    have fields' := Word.fields_ofByte (show 0xE < 16 by decide) x 0xA1
    simp only [Word.leadsTo, Instruction.encode, fields, fields']
    apply pc_skipIf
    simp [Word.skips, fields, fields', keyIn, Key.ofNat, Numeral.lastDigit]
  | clearScreen => exact (Word.leadsTo_of_straight (by decide) (by decide)).symm
  | storeUpTo x | loadUpTo x =>
    simp only [execute, passTransfer_eq]
    rw [Word.leadsTo_of_straight _ (Word.ne_of_decode? decoded (by simp))]
    simp [Instruction.encode, Word.fields_ofByte]
  | _ =>
    refine (Word.leadsTo_of_straight ?_ (Word.ne_of_decode? decoded (by simp))).symm
    simp [Instruction.encode, Word.fields_ofAddress, Word.fields_ofByte, Word.fields_ofPair,
      Combination.code_lt]

end Processor

/-! ## Steps -/

namespace Machine

def SkipsOn (m : Machine) (w : Word) : Prop :=
  (m.writeWord m.pc w).step.pc = .ofNat (m.pc.val + 4)

theorem pc_issue (m : Machine) : m.issue.pc = m.nextWord.leadsTo m.toProcessor := by
  cases decoded : Instruction.decode? m.nextWord with
  | none =>
    rw [issue_of_undecoded decoded, Word.leadsTo_of_undecoded decoded]
    rfl
  | some i =>
    rw [issue_of_decode decoded]
    exact m.toProcessor.pc_execute decoded

theorem frames_issue (m : Machine) : m.issue.stack.frames = m.nextWord.leaves m.toProcessor := by
  have level (flat : ¬ m.nextWord.Nests) : m.issue.stack.frames = m.stack.frames :=
    congrArg CallStack.frames (m.change_issue.stack_eq flat)
  unfold Word.leaves
  split
  · next digit =>
    split
    · next returns =>
      have decoded : Instruction.decode? m.nextWord = some .ret := by rw [returns]; decide
      rw [issue_of_decode decoded]
      exact m.stack.frames_pop
    · next stays =>
      apply level
      rintro (call | returns)
      · omega
      · exact stays returns
  · next digit =>
    rw [issue_of_decode (Instruction.decode?_of_call digit)]
    exact m.stack.frames_push _
  · next other other' =>
    apply level
    rintro (call | returns)
    · exact other' call
    · exact other (by rw [returns]; decide)

theorem pc_step (m : Machine) : m.step.pc = m.nextWord.leadsTo m.toProcessor := by
  obtain ⟨v, core⟩ := m.step_eq_withCore
  rw [core]
  exact m.pc_issue

theorem frames_step (m : Machine) : m.step.stack.frames = m.nextWord.leaves m.toProcessor := by
  obtain ⟨v, core⟩ := m.step_eq_withCore
  rw [core]
  exact m.frames_issue

theorem skipsOn_iff (m : Machine) {w : Word}
    (tests : (w.nibble 3).val ∈ [0x3, 0x4, 0x5, 0x9, 0xE]) :
    m.SkipsOn w ↔ w.skips m.toProcessor := by
  have placed : (m.writeWord m.pc w).nextWord = w := Memory.readWord_writeWord _ _ _
  have onward : w.leadsTo (m.writeWord m.pc w).toProcessor = w.onward m.toProcessor := by
    unfold Word.leadsTo
    split
    · next digit => simp [digit] at tests
    · next digit => simp [digit] at tests
    · next digit => simp [digit] at tests
    · next digit => simp [digit] at tests
    · rfl
  unfold SkipsOn
  rw [pc_step, placed, onward, Word.onward, Fin.ext_iff]
  cases w.skips m.toProcessor
  · simp
    omega
  · simp

theorem skipsOn_iff_not (m : Machine) {w w' : Word}
    (tests : (w.nibble 3).val ∈ [0x3, 0x4, 0x5, 0x9, 0xE])
    (tests' : (w'.nibble 3).val ∈ [0x3, 0x4, 0x5, 0x9, 0xE])
    (opposite : w.skips m.toProcessor = !w'.skips m.toProcessor) :
    m.SkipsOn w ↔ ¬ m.SkipsOn w' := by
  rw [m.skipsOn_iff tests, m.skipsOn_iff tests', opposite]
  simp

end Machine

/-- **Control flow.** One step goes on where the word at the program counter leads, and leaves on the
call stack what the word says, whatever word it is. Of two words that test opposites, exactly one
skips. -/
theorem control_of_word (m : Machine) :
    (let w := Word.ofBytes (m.memory.read m.pc) (m.memory.read (.ofNat (m.pc.val + 1)))
     m.step.pc = w.leadsTo m.toProcessor ∧ m.step.stack.frames = w.leaves m.toProcessor) ∧
    ∀ (x y : Register) (b : Byte),
      (m.SkipsOn (.ofByte 0x3 x b) ↔ ¬ m.SkipsOn (.ofByte 0x4 x b)) ∧
      (m.SkipsOn (.ofPair 0x5 x y 0) ↔ ¬ m.SkipsOn (.ofPair 0x9 x y 0)) ∧
      (m.SkipsOn (.ofByte 0xE x 0x9E) ↔ ¬ m.SkipsOn (.ofByte 0xE x 0xA1)) := by
  refine ⟨⟨m.pc_step, m.frames_step⟩, ?_⟩
  intro x y b
  refine ⟨?_, ?_, ?_⟩
  · have same := Word.fields_ofByte (show 0x3 < 16 by decide) x b
    have other := Word.fields_ofByte (show 0x4 < 16 by decide) x b
    apply m.skipsOn_iff_not
    · simp [same]
    · simp [other]
    · simp [Word.skips, same, other, bne]
  · have same := Word.fields_ofPair (show 0x5 < 16 by decide) (show 0 < 16 by decide) x y
    have other := Word.fields_ofPair (show 0x9 < 16 by decide) (show 0 < 16 by decide) x y
    apply m.skipsOn_iff_not
    · simp [same]
    · simp [other]
    · simp [Word.skips, same, other, bne]
  · have down := Word.fields_ofByte (show 0xE < 16 by decide) x 0x9E
    have up := Word.fields_ofByte (show 0xE < 16 by decide) x 0xA1
    apply m.skipsOn_iff_not
    · simp [down]
    · simp [up]
    · simp [Word.skips, down, up]

example :
    (0x3000 : Word).leadsTo { Processor.start 0 false 0 with pc := .ofNat 0xFFE } = .ofNat 2 := by
  decide

end Chip8
