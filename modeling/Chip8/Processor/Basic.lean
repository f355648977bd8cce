import Chip8.CallStack
import Chip8.Key
import Chip8.Memory
import Chip8.Random.Source
import Chip8.Register
import Chip8.Screen
import Chip8.Timers

/-!
# The processor

All that an instruction can read or change: registers, memory, call stack, screen, keypad, timers
and the source of random bytes.
-/

namespace Chip8

structure Processor where
  v : Registers
  index : Address
  pc : Address
  stack : CallStack
  memory : Memory
  screen : Screen
  /-- Whether the screen may differ from what was shown last. -/
  redraw : Bool
  keypad : Keypad
  timers : Timers
  random : Random.Source
  lastRandom : Byte
  advancesIndex : Bool
  deriving DecidableEq

namespace Processor

def start (seed : UInt64) (advancesIndex : Bool) (now : Nat) : Processor where
  v := .zero
  index := .zero
  pc := .start
  stack := .empty
  memory := .initial
  screen := .blank
  redraw := false
  keypad := .idle
  timers := .start now
  random := .ofSeed seed
  lastRandom := 0
  advancesIndex := advancesIndex

def setRegister (p : Processor) (x : Register) (b : Byte) : Processor :=
  { p with v := p.v.set x b }

def drawRandom (p : Processor) : Processor :=
  { p with random := p.random.advance, lastRandom := p.random.peek }

def skipIf (p : Processor) (condition : Bool) : Processor :=
  if condition then { p with pc := p.pc.advance 2 } else p

theorem skipIf_eq (p : Processor) (condition : Bool) :
    p.skipIf condition = { p with pc := if condition then p.pc.advance 2 else p.pc } := by
  cases condition <;> rfl

end Processor

end Chip8
