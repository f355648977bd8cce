/-!
# Names that a person typed wrong

Registers and keys are named by a person at a prompt. A name that stands for none is kept as it was
typed, so that the message can quote it.
-/

namespace Chip8

inductive UnknownName where
  | register (text : String)
  | key (text : String)
  deriving DecidableEq

def UnknownName.message : UnknownName → String
  | .register text => "unknown register `" ++ text ++ "`"
  | .key text => "unknown key `" ++ text ++ "`"

end Chip8
