import Chip8.Frontend
import Chip8.Processor.Execution

/-!
# The machine

A processor together with what surrounds it: a frontend, the clock, the record of the first word that
was no instruction, a request to close, and the notices given so far. This module holds what a host
may look at and change between instructions.
-/

namespace Chip8

inductive KeyWait where
  | press
  /-- Once the key that was seen down is up again. -/
  | release
  deriving DecidableEq

structure Settings where
  keyWait : KeyWait := .release
  /-- Whether a bulk transfer moves the index past the last byte. -/
  advancesIndex : Bool := true
  seed : UInt64 := 0
  deriving DecidableEq

structure Machine extends Processor where
  keyWait : KeyWait
  /-- The first word that was no instruction, since a program was loaded. -/
  fault : Option Fault := none
  frontend : Option Frontend := none
  detached : Option Frontend := none
  /-- Whether a close was asked for, by the host or, once that was seen, by the frontend. -/
  closing : Bool := false
  clock : Nat := 0
  log : List Notice := []
  deriving DecidableEq

namespace Machine

def start (settings : Settings) (now : Nat) : Machine where
  toProcessor := .start settings.seed settings.advancesIndex now
  keyWait := settings.keyWait
  clock := now

def report (m : Machine) (notices : List Notice) : Machine :=
  { m with log := notices.reverse ++ m.log }

def notices (m : Machine) : List Notice :=
  m.log.reverse

/-! ## Loading -/

def restart (m : Machine) : Machine :=
  { m with pc := .start, fault := none }

def loadWords (m : Machine) (words : List Word) : Machine :=
  ({ m with memory := m.memory.loadWords words }.report [.wordsLoaded words.length]).restart

def loadRom (m : Machine) (rom : List Byte) : Machine :=
  let notices := Notice.ofRom rom ++ [.romLoaded (Memory.fitting rom).length]
  ({ m with memory := m.memory.loadRom rom }.report notices).restart

/-! ## Looking and patching -/

def write (m : Machine) (a : Address) (b : Byte) : Machine :=
  { m with memory := m.memory.write a b }

def writeWord (m : Machine) (a : Address) (w : Word) : Machine :=
  { m with memory := m.memory.writeWord a w }

def setRegister (m : Machine) (x : Register) (b : Byte) : Machine :=
  { m with v := m.v.set x b }

def setPc (m : Machine) (a : Address) : Machine :=
  { m with pc := a }

def setIndex (m : Machine) (a : Address) : Machine :=
  { m with index := a }

def setDelay (m : Machine) (b : Byte) : Machine :=
  { m with timers.delay := b }

def setSound (m : Machine) (b : Byte) : Machine :=
  { m with timers.sound := b }

def setLastRandom (m : Machine) (b : Byte) : Machine :=
  { m with lastRandom := b }

def push (m : Machine) (a : Address) : Machine :=
  { m with stack := m.stack.push a.toWord }.report (Notice.ofPush m.stack a.toWord)

def pop (m : Machine) : Machine :=
  { m with stack := m.stack.pop.2 }

def drawRandom (m : Machine) : Machine :=
  { m with toProcessor := m.toProcessor.drawRandom }

/-- Changes the screen, which then counts as changed whatever the change was. -/
def changeScreen (m : Machine) (change : Screen → Screen) : Machine :=
  { m with screen := change m.screen, redraw := true }

def press (m : Machine) (k : Key) : Machine :=
  { m with keypad := m.keypad.press k }

def release (m : Machine) (k : Key) : Machine :=
  { m with keypad := m.keypad.release k }

def clearKeys (m : Machine) : Machine :=
  { m with keypad := .idle }

/-! ## The frontend -/

def hasFrontend (m : Machine) : Bool :=
  m.frontend.isSome

def attach (m : Machine) (f : Frontend) : Machine :=
  { m with frontend := some f, redraw := true }

def detach (m : Machine) : Machine :=
  { m with frontend := none, detached := m.frontend.or m.detached }

def lastFrontend? (m : Machine) : Option Frontend :=
  m.frontend.or m.detached

def requestClose (m : Machine) : Machine :=
  { m with closing := true }

/-- Looks whether the frontend asks to close. A request stays once it is seen. -/
def observeClose (m : Machine) : Machine :=
  { m with closing := m.closing || m.frontend.any Frontend.closed }

def advanceClock (m : Machine) (elapsed : Nat) : Machine :=
  { m with clock := m.clock + elapsed }

end Machine

end Chip8
