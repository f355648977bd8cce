import Chip8.Word

/-!
# Why a machine stops

A machine stops at a word that is no instruction, or because someone asked it to close.
-/

namespace Chip8

/-- A word that is no instruction, and the address it was fetched from. -/
structure Fault where
  word : Word
  address : Address
  deriving DecidableEq

def Fault.text (f : Fault) : String :=
  "invalid opcode " ++ f.word.text ++ " at " ++ f.address.text

inductive Halt where
  | fault (fault : Fault)
  | closed
  deriving DecidableEq

def Halt.text : Halt → String
  | .fault f => f.text
  | .closed => "closed"

end Chip8
