import Mathlib.Data.List.DropRight
import Chip8.Proofs.History

/-!
# The recorded fault

A machine has one place for the first word that was no instruction. A later one leaves it alone, and
only a load empties it; so what is on record can be told from the history since the last load. Main
statement: `first_fault_recorded`.
-/

namespace Chip8

namespace Moment

def loads (t : Moment) : Bool :=
  match t.action with
  | .host (.loadWords _) _ | .host (.loadRom _) _ => true
  | _ => false

def fault? (t : Moment) : Option Fault :=
  match t.action, Instruction.decode? t.before.nextWord with
  | .issue, none => some ⟨t.before.nextWord, t.before.pc⟩
  | _, _ => none

end Moment

/-- The first fault since the last load. -/
def firstFault? (past : List Moment) : Option Fault :=
  (past.rtakeWhile fun t => !t.loads).findSome? Moment.fault?

theorem firstFault?_concat (past : List Moment) (t : Moment) :
    firstFault? (past ++ [t]) =
      if t.loads then none else (firstFault? past).or t.fault? := by
  unfold firstFault?
  rw [List.rtakeWhile_concat]
  cases t.loads with
  | true => rfl
  | false =>
    simp only [Bool.not_false, if_true, Bool.false_eq_true, if_false]
    rw [List.findSome?_append, List.findSome?_singleton]

namespace Machine

theorem fault_issue (m : Machine) :
    m.issue.fault = m.fault.or (Moment.fault? ⟨m, .issue⟩) := by
  unfold Moment.fault?
  cases next : Instruction.decode? m.nextWord with
  | none =>
    rw [issue_of_undecoded next]
    rfl
  | some i =>
    rw [issue_of_decode next]
    exact (Option.or_none).symm

theorem step_of_undecoded {m : Machine} (next : Instruction.decode? m.nextWord = none) :
    m.step = Machine.service
      { m with
        pc := m.pc.advance 2
        fault := m.fault.or (some ⟨m.nextWord, m.pc⟩)
        log := .invalid ⟨m.nextWord, m.pc⟩ :: .executing m.pc m.nextWord :: m.log } := by
  unfold step perform
  rw [next]
  rfl

theorem runFor_of_fault {m : Machine} {f : Fault} (faulty : m.fault = some f) (bound : Nat) :
    runFor (bound + 1) m = (some (.fault f), m) := by
  unfold runFor
  rw [faulty]

end Machine

theorem Moment.fault_after (t : Moment) :
    t.after.fault = if t.loads then none else t.before.fault.or t.fault? := by
  obtain ⟨m, a⟩ := t
  cases a with
  | host op single =>
    cases op with
    | service | observeClose | step | steps | run | debug => cases single
    | loadWords _ | loadRom _ => rfl
    | _ => exact (Option.or_none).symm
  | issue => exact m.fault_issue
  | service => exact m.fault_service.trans (Option.or_none).symm
  | look | store | note => exact (Option.or_none).symm

/-- **The first fault is recorded, and kept.** At every moment of a run the record holds the first
fault since the last load. While there is one, a run of a given length does nothing at all and a run
to the end returns it at once; and a step at a word that is no instruction passes over it, puts it on
record if there is none, and services the peripherals. -/
theorem first_fault_recorded (settings : Settings) (now : Nat) (ops : List Operation) :
    let start := Machine.start settings now
    ((start.afterAll ops).fault = firstFault? (start.history ops) ∧
      ∀ past t rest, start.history ops = past ++ t :: rest → t.before.fault = firstFault? past) ∧
    ∀ m : Machine,
      (∀ f, m.fault = some f →
        (∀ n, Machine.steps n m = m ∧ m.actions (.steps n) = []) ∧
        ∀ bound, Machine.runFor (bound + 1) m = (some (.fault f), m)) ∧
      (Instruction.decode? m.nextWord = none →
        m.step = Machine.service
          { m with
            pc := m.pc.advance 2
            fault := m.fault.or (some ⟨m.nextWord, m.pc⟩)
            log := .invalid ⟨m.nextWord, m.pc⟩ :: .executing m.pc m.nextWord :: m.log }) := by
  intro start
  have recorded : ∀ actions, (start.play actions).fault = firstFault? (start.moments actions) := by
    intro actions
    apply Machine.moments_induction (P := fun past m => m.fault = firstFault? past) rfl
    intro past m a same
    rw [firstFault?_concat, ← same]
    exact Moment.fault_after ⟨m, a⟩
  refine ⟨⟨?_, ?_⟩, ?_⟩
  · rw [← Machine.play_allActions]
    exact recorded (start.allActions ops)
  · intro past t rest split
    obtain ⟨front, back, rfl, before, -⟩ := Machine.moments_split split
    rw [before]
    exact recorded front
  · intro m
    refine ⟨?_, Machine.step_of_undecoded⟩
    intro f faulty
    have stopped : m.fault.isSome := by rw [faulty]; rfl
    refine ⟨fun n => ⟨Machine.steps_of_fault stopped n, ?_⟩, Machine.runFor_of_fault faulty⟩
    cases n with
    | zero => rfl
    | succ n => exact if_pos stopped

def faulty : List Operation :=
  [.loadWords [0xFFFF, 0xFFFE], .step, .step]

theorem first_fault_recorded_faulty :
    let first := (Machine.start {} 0).afterAll (faulty.take 2)
    let last := (Machine.start {} 0).afterAll faulty
    first.step.pc = first.pc.advance 2 ∧
      firstFault? ((Machine.start {} 0).history faulty) = some ⟨0xFFFF, .start⟩ ∧
      Machine.steps 5 last = last ∧
      Machine.runFor 1 last = (some (.fault ⟨0xFFFF, .start⟩), last) := by
  intro first last
  obtain ⟨⟨recorded, -⟩, always⟩ := first_fault_recorded {} 0 faulty
  have undecoded : Instruction.decode? first.nextWord = none := by decide +kernel
  have fault : last.fault = some ⟨0xFFFF, .start⟩ := by decide +kernel
  obtain ⟨stays, stops⟩ := (always last).1 _ fault
  have passes : ∀ m : Machine, Instruction.decode? m.nextWord = none →
      m.step.pc = m.pc.advance 2 := by
    intro m next
    rw [(always m).2 next, Machine.pc_service]
  exact ⟨passes first undecoded, recorded.symm.trans fault, (stays 5).1, stops 0⟩

end Chip8
