import Chip8.Instruction.Encoding
import Chip8.Proofs.History

/-!
# Programs that ask nothing of the peripherals

Two machines with the same core stay so for as long as the first executes no word that looks at the
keypad, at the delay timer or for a key: keys, time and frontends do not leak into what programs
compute with. Main statement: `sameCore_steps`.
-/

namespace Chip8

namespace Word

/-- The words `Ex9E`, `ExA1`, `Fx07` and `Fx0A`. -/
def LooksOut (w : Word) : Prop :=
  ((w.nibble 3).val = 0xE ∧ (w.low = 0x9E ∨ w.low = 0xA1)) ∨
    ((w.nibble 3).val = 0xF ∧ (w.low = 0x07 ∨ w.low = 0x0A))

instance : DecidablePred LooksOut := fun w =>
  inferInstanceAs (Decidable (((w.nibble 3).val = 0xE ∧ (w.low = 0x9E ∨ w.low = 0xA1)) ∨
    ((w.nibble 3).val = 0xF ∧ (w.low = 0x07 ∨ w.low = 0x0A))))

theorem looksOut_encode (x : Register) :
    LooksOut (Instruction.skipIfKey x).encode ∧ LooksOut (Instruction.skipUnlessKey x).encode ∧
      LooksOut (Instruction.readDelay x).encode ∧ LooksOut (Instruction.awaitKey x).encode := by
  simp [LooksOut, Instruction.encode, fields_ofByte]

end Word

namespace Processor

/-- Two processors that differ in keypad and timers at most, and in whether the screen was shown. -/
structure SameCore (p p' : Processor) : Prop where
  v : p.v = p'.v
  index : p.index = p'.index
  pc : p.pc = p'.pc
  stack : p.stack = p'.stack
  memory : p.memory = p'.memory
  screen : p.screen = p'.screen
  random : p.random = p'.random
  lastRandom : p.lastRandom = p'.lastRandom
  advancesIndex : p.advancesIndex = p'.advancesIndex

theorem SameCore.execute {p p' : Processor} (same : SameCore p p') {i : Instruction}
    (inward : ¬ i.encode.LooksOut) :
    SameCore (p.execute i).processor (p'.execute i).processor := by
  obtain ⟨v, index, pc, stack, memory, screen, redraw, keypad, timers, random, last, advances⟩ := p
  obtain ⟨_, _, _, _, _, _, redraw', keypad', timers', _, _, _⟩ := p'
  obtain ⟨rfl, rfl, rfl, rfl, rfl, rfl, rfl, rfl, rfl⟩ := same
  cases i with
  | skipIfKey x => exact absurd (Word.looksOut_encode x).1 inward
  | skipUnlessKey x => exact absurd (Word.looksOut_encode x).2.1 inward
  | readDelay x => exact absurd (Word.looksOut_encode x).2.2.1 inward
  | awaitKey x => exact absurd (Word.looksOut_encode x).2.2.2 inward
  | skipIfByte | skipUnlessByte | skipIfSame | skipUnlessSame | storeUpTo | loadUpTo =>
    simp only [Processor.execute, skipIf_eq, passTransfer_eq]
    constructor <;> rfl
  | _ => constructor <;> rfl

end Processor

namespace Machine

/-- Two machines that differ at most in their peripherals and in the notices given. -/
structure SameCore (m m' : Machine) : Prop
    extends Processor.SameCore m.toProcessor m'.toProcessor where
  fault : m.fault = m'.fault

def executed : Nat → Machine → List Word
  | 0, _ => []
  | n + 1, m => if m.fault.isSome then [] else m.nextWord :: executed n m.step

theorem step_of_inward {m : Machine} (inward : ¬ m.nextWord.LooksOut) :
    m.step = m.issue.service := by
  apply step_of_unawaited
  apply awaited_eq_none
  intro x next
  rw [← Instruction.encode_of_decode? next] at inward
  exact inward (Word.looksOut_encode x).2.2.2

namespace SameCore

variable {m m' : Machine}

theorem nextWord (same : SameCore m m') : m.nextWord = m'.nextWord := by
  unfold Machine.nextWord
  rw [same.memory, same.pc]

theorem fetched (same : SameCore m m') : SameCore m.fetched m'.fetched :=
  { same with pc := congrArg (·.advance 2) same.pc }

theorem issue (same : SameCore m m') (inward : ¬ m.nextWord.LooksOut) :
    SameCore m.issue m'.issue := by
  have word := same.nextWord
  cases next : Instruction.decode? m.nextWord with
  | none =>
    have next' := word ▸ next
    rw [issue_of_undecoded next, issue_of_undecoded next', word, same.pc]
    have fault := congrArg (Option.or · (some ⟨m'.nextWord, m'.pc⟩)) same.fault
    exact { same.fetched with fault := fault }
  | some i =>
    have next' := word ▸ next
    rw [issue_of_decode next, issue_of_decode next']
    rw [← Instruction.encode_of_decode? next] at inward
    exact ⟨same.fetched.toSameCore.execute inward, same.fault⟩

theorem service (same : SameCore m m') : SameCore m.service m'.service := by
  obtain ⟨⟨v, index, pc, stack, memory, screen, random, lastRandom, advancesIndex⟩, fault⟩ := same
  rw [service_eq_withCore m, service_eq_withCore m']
  exact ⟨⟨v, index, pc, stack, memory, screen, random, lastRandom, advancesIndex⟩, fault⟩

theorem step (same : SameCore m m') (inward : ¬ m.nextWord.LooksOut) :
    SameCore m.step m'.step := by
  rw [step_of_inward inward, step_of_inward (same.nextWord ▸ inward)]
  exact (same.issue inward).service

end SameCore

/-- **Peripherals do not interfere.** Machines that differ in keypad, timers, clock, frontend and the
like execute the same words and end up with the same core, if none of the words looks out. -/
theorem sameCore_steps {m m' : Machine} (same : SameCore m m') (n : Nat)
    (inward : ∀ w ∈ executed n m, ¬ w.LooksOut) :
    SameCore (steps n m) (steps n m') ∧ executed n m = executed n m' := by
  induction n generalizing m m' with
  | zero => exact ⟨same, rfl⟩
  | succ n ih =>
    simp only [steps, executed, ← same.fault, ← same.nextWord] at inward ⊢
    split
    · exact ⟨same, rfl⟩
    · next sound =>
      rw [if_neg sound] at inward
      have stepped := same.step (inward _ (List.mem_cons_self ..))
      obtain ⟨last, words⟩ := ih stepped fun w later => inward w (List.mem_cons_of_mem _ later)
      exact ⟨last, congrArg (_ :: ·) words⟩

def quiet : Machine :=
  (start {} 0).loadWords [0x6A02, 0xDAB5, 0x2200]

def disturb (m : Machine) : Machine :=
  { ((m.press (.ofNat 7)).setDelay 9).attach { pending := [{ elapsed := 50000 }, .farewell] } with
    keyWait := .press, closing := true }

theorem sameCore_steps_disturb :
    executed 3 quiet.disturb = [0x6A02, 0xDAB5, 0x2200] ∧
      SameCore (steps 3 quiet) (steps 3 quiet.disturb) := by
  have same : ∀ m : Machine, SameCore m m.disturb := by
    intro m
    exact ⟨⟨rfl, rfl, rfl, rfl, rfl, rfl, rfl, rfl, rfl⟩, rfl⟩
  have words : executed 3 quiet = [0x6A02, 0xDAB5, 0x2200] := by decide +kernel
  have inward : ∀ w ∈ executed 3 quiet, ¬ w.LooksOut := by
    rw [words]
    simp only [List.forall_mem_cons]
    exact ⟨by decide, by decide, by decide, List.forall_mem_nil _⟩
  obtain ⟨last, alike⟩ := sameCore_steps (same quiet) 3 inward
  exact ⟨alike.symm.trans words, last⟩

end Machine

end Chip8
