import Chip8.Machine.Step

/-!
# Runs of a machine

A run of a given length stops early once a fault is on record. A run to the end stops at a fault or
at a close; it is bounded by a number of steps, as a program may go on for ever. Main statement: runs
of a given length one after the other are one run.
-/

namespace Chip8.Machine

def steps : Nat → Machine → Machine
  | 0, m => m
  | n + 1, m => if m.fault.isSome then m else steps n m.step

/-- Steps until a fault is on record or a close is seen, in that order of precedence, and says which
it was; no answer means that the bound was reached. -/
def runFor : Nat → Machine → Option Halt × Machine
  | 0, m => (none, m)
  | bound + 1, m =>
    match m.fault with
    | some f => (some (.fault f), m)
    | none =>
      let observed := m.observeClose
      if observed.closing then (some .closed, observed) else runFor bound observed.step

theorem steps_of_fault {m : Machine} (h : m.fault.isSome) (n : Nat) : steps n m = m := by
  cases n <;> simp [steps, h]

theorem steps_add (a b : Nat) (m : Machine) : steps (a + b) m = steps b (steps a m) := by
  induction a generalizing m with
  | zero => simp [steps]
  | succ a ih =>
    rw [Nat.add_right_comm, steps, steps]
    split
    · next stopped => rw [steps_of_fault stopped]
    · exact ih m.step

end Chip8.Machine
