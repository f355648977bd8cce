import Chip8.Machine.Basic
import Chip8.RomFile

/-!
# Hosts

What the program asks of the outside: entropy, the time, files, lines of input, and a place to print.
A script is an outside that is known ahead of time, so that a program which is run on it is a function.
-/

namespace Chip8.CommandLine

structure Host (m : Type → Type) where
  entropy : m UInt64
  now : m Nat
  file (path : String) : m (Except ReadError (List Byte))
  /-- The next line of input, which is empty only where the input ends. -/
  line : m (List Byte)
  /-- Prints a text and gives what is kept of it. -/
  print (text : String) : m String
  /-- Shows the notices of a machine, which may then forget them. -/
  note (machine : Machine) : m Machine

/-! ## Scripts -/

structure Clock where
  reading : Nat → Nat

/-- A clock at rest. -/
instance (n : Nat) : OfNat Clock n :=
  ⟨⟨fun _ => n⟩⟩

structure Script where
  readings : Nat
  lines : List (List Byte)

def Script.read (s : Script) : Script :=
  { s with readings := s.readings + 1 }

/-- Nothing that is shown is forgotten. -/
def Host.scripted (read : Reader) (entropy : UInt64) (clock : Clock) : Host (StateM Script) where
  entropy := pure entropy
  now s := (clock.reading s.readings, s.read)
  file path := pure (read path)
  line s := (s.lines.headD [], { s with lines := s.lines.tail })
  print := pure
  note := pure

end Chip8.CommandLine
