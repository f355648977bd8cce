import Chip8.CommandLine.Host
import Chip8.CommandLine.Options
import Chip8.Debugger.Session

/-!
# The program

From options to an exit: make a machine, load its ROM, run it unless the debugger is wanted at once,
and end in the debugger. Time passes while the program runs: the clock is read before each step and
before each line is carried out. No window can be opened, so a run ends at a fault; it is bounded by a
number of steps, as a program may go on for ever.
-/

namespace Chip8.CommandLine

open Debugger (Command Session)

inductive Failure where
  /-- There is neither a ROM nor the wish to debug. -/
  | usage
  | rom (rom : UnreadableRom)
  | input
  deriving DecidableEq

namespace Failure

def message : Failure → String
  | usage => "expected a rom or --debug"
  | rom unread => unread.message
  | input => "terminal: " ++ Debugger.notTextMessage

def exitCode : Failure → Nat
  | usage => 2
  | rom _ | input => 1

end Failure

structure Outcome where
  output : String := ""
  notices : List Notice := []
  failure : Option Failure := none

def Outcome.exitCode (r : Outcome) : Nat :=
  (r.failure.map Failure.exitCode).getD 0

def Outcome.ofSession (s : Session) : Outcome where
  output := s.output
  notices := s.machine.notices
  failure := if s.ending = some .notText then some .input else none

def announce (o : Options) (m : Machine) : Machine :=
  if o.headless then m else m.report [.noWindow]

/-- The command of a line, if the line can be read and is not blank. -/
def command? (line : List Byte) : Option Command :=
  match (Text.decode? line).map Command.ofLine with
  | some (.ok (some c)) => some c
  | _ => none

section

variable {m : Type → Type} [Monad m] (host : Host m)

/-! ## Making a machine -/

@[specialize] def boot (o : Options) : m (Except Failure Machine) :=
  if o.rom.isNone && !o.debug then return .error .usage
  else do
    let entropy ← host.entropy
    let now ← host.now
    let machine := Machine.start (o.settings entropy) now
    match o.rom with
    | none => return .ok machine
    | some path =>
      match ← host.file path with
      | .error cause => return .error (.rom ⟨path, cause⟩)
      | .ok bytes => return .ok (Debugger.loadFile machine path bytes)

/-! ## Running it -/

/-- Reads the clock, which never goes back. -/
@[specialize] def atTime (machine : Machine) : m Machine := do
  let now ← host.now
  return machine.advanceClock (now - machine.clock)

/-- A run to the end. There is no answer if the bound is reached. -/
@[specialize] def operate : Nat → Machine → m (Option (Halt × Machine))
  | 0, _ => return none
  | bound + 1, machine => do
    let shown ← host.note machine
    let ready ← atTime host shown
    match Machine.runFor 1 ready with
    | (some reason, last) => return some (reason, last)
    | (none, next) => operate bound next

@[specialize] def steps : Nat → Machine → m Machine
  | 0, machine => return machine
  | count + 1, machine =>
    if machine.fault.isSome then return machine
    else do
      let shown ← host.note machine
      let ready ← atTime host shown
      steps count ready.step

/-! ## Debugging it -/

/-- The reader for a line, which knows the file that the line asks for. -/
@[specialize] def readerFor (line : List Byte) : m Reader :=
  match command? line with
  | some (.rom path) => do
    let answer ← host.file path
    return fun _ => answer
  | _ => return fun _ => .error .notFound

/-- Takes a line. Time passes between the steps that it asks for. -/
@[specialize] def take (s : Session) (line : List Byte) : m Session :=
  match command? line with
  | some (.step count) => do
    let stepped ← steps host count s.machine
    let ready ← atTime host stepped
    return s.proceed (Debugger.faultText stepped) ready
  | _ => do
    let read ← readerFor host line
    let ready ← atTime host s.machine
    return { s with machine := ready }.feed read line

@[specialize] def display (s : Session) : m Session := do
  let output ← host.print s.output
  let machine ← host.note s.machine
  return { s with output := output, machine := machine }

@[specialize] def converse : Nat → Session → m (Option Session)
  | 0, _ => return none
  | bound + 1, s => do
    let shown ← display host s
    if shown.ending.isSome then return some shown
    else
      let line ← host.line
      if line.isEmpty then
        let last ← display host shown.finish
        return some last
      else
        let next ← take host shown line
        converse bound next

@[specialize] def debug (lines : Nat) (machine : Machine) : m (Option Outcome) := do
  let ended ← converse host lines (Session.start machine)
  return ended.map Outcome.ofSession

/-! ## The whole -/

@[specialize] def afterRun (lines : Nat) : Option (Halt × Machine) → m (Option Outcome)
  | none => return none
  | some (.closed, last) => do
    let shown ← host.note (last.report [.windowClosed])
    return some { notices := shown.notices }
  | some (reason, last) => debug host lines (last.report [.debugging reason])

/-- The program, in no more than so many steps of its run and lines of its session. -/
@[specialize] def program (bound lines : Nat) (o : Options) : m (Option Outcome) := do
  match ← boot host o with
  | .error failure => return some { failure := some failure }
  | .ok ready =>
    let machine := announce o ready
    if o.debug then debug host lines machine
    else
      let ended ← operate host bound machine
      afterRun host lines ended

end

/-- The program on a script, and what is left of the script. All lines are within bounds. -/
def play (bound : Nat) (o : Options) (read : Reader) (entropy : UInt64) (clock : Clock)
    (input : List Byte) : Option Outcome × Script :=
  let lines := Text.lines input
  (program (.scripted read entropy clock) bound (lines.length + 1) o).run ⟨0, lines⟩

def run (bound : Nat) (o : Options) (read : Reader) (entropy : UInt64) (clock : Clock)
    (input : List Byte) : Option Outcome :=
  (play bound o read entropy clock input).1

end Chip8.CommandLine
