import Chip8.Register
import Chip8.Key
import Chip8.RomFile
import Chip8.Screen
import Chip8.Text.Blank

/-!
# Debugger commands

One line of input holds one command: its name and its operands, separated by blanks; what follows
the last operand is ignored. A line is read in full before anything is carried out, so that a line
that cannot be read does nothing.
-/

namespace Chip8.Debugger

inductive Assignment where
  | pc (value : Word)
  | index (value : Word)
  | lastRandom (value : Byte)
  | delay (value : Byte)
  | sound (value : Byte)
  | register (x : Register) (value : Byte)
  deriving DecidableEq

inductive Command where
  | registers
  | set (assignment : Assignment)
  | memory (first last : Word)
  /-- Without a first address the listing starts shortly before the program counter. -/
  | listing (first : Option Word) (last : Word)
  | step (count : Nat)
  | stack
  | push (address : Word)
  | pop
  | random
  /-- Hold this key and no other, or none. -/
  | press (key : Option Key)
  | display
  | window (opened : Bool)
  | clear
  | fill
  | pixel (x y : Nat)
  | rom (path : String)
  | help
  | exit
  deriving DecidableEq

inductive CommandError where
  | unknownCommand (name : String)
  | missing (operand : String)
  | notNumber (text : String)
  | offScreen (x y : Nat)
  | unknownMode (text : String)
  | unknownName (name : UnknownName)
  | noWindow
  | unreadable (rom : UnreadableRom)
  deriving DecidableEq

def CommandError.message : CommandError → String
  | unknownCommand name => "unknown command `" ++ name ++ "`, try `help`"
  | missing operand => "missing " ++ operand
  | notNumber text => "`" ++ text ++ "` is not a number"
  | offScreen x y =>
    "pixel (" ++ Numeral.decimal x ++ ", " ++ Numeral.decimal y ++ ") is off screen"
  | unknownMode text => "unknown screen mode `" ++ text ++ "`, expected on or off"
  | unknownName name => name.message
  | noWindow => "window: built without the `window` feature"
  | unreadable rom => rom.message

/-! ## Numbers -/

def withoutMark : List Char → List Char
  | '0' :: 'x' :: digits => digits
  | digits => digits

def readHex (limit : Nat) (text : String) : Except CommandError Nat :=
  match Numeral.read? 16 limit (withoutMark text.toList) with
  | some n => .ok n
  | none => .error (.notNumber text)

def readWord (text : String) : Except CommandError Word :=
  (readHex 0xFFFF text).map UInt16.ofNat

def readByte (text : String) : Except CommandError Byte :=
  (readHex 0xFF text).map UInt8.ofNat

def readDecimal (text : String) : Except CommandError Nat :=
  match Numeral.read? 10 Numeral.maxLong text.toList with
  | some n => .ok n
  | none => .error (.notNumber text)

def readWordOr (default : Word) : Option String → Except CommandError Word
  | none => .ok default
  | some text => readWord text

/-! ## Operands -/

def require (operand : String) : Option String → Except CommandError String
  | none => .error (.missing operand)
  | some text => .ok text

def readRegister (text : String) : Except CommandError Register :=
  (Register.read text).mapError .unknownName

def readKey (text : String) : Except CommandError Key :=
  (Key.read text).mapError .unknownName

def upper (text : String) : String :=
  String.ofList (text.toList.map Char.toUpper)

/-- Reads what to set; names other than those of registers come first. -/
def Assignment.read (name value : String) : Except CommandError Assignment :=
  match upper name with
  | "PC" => (readWord value).map .pc
  | "I" => (readWord value).map .index
  | "R" => (readByte value).map .lastRandom
  | "DT" => (readByte value).map .delay
  | "ST" => (readByte value).map .sound
  | _ => do
    let x ← readRegister name
    let b ← readByte value
    return .register x b

def readHeld (text : String) : Except CommandError (Option Key) :=
  if upper text = "NONE" then .ok none else (readKey text).map some

def readMode : Option String → Except CommandError Bool
  | none | some "on" => .ok true
  | some "off" => .ok false
  | some text => .error (.unknownMode text)

def Command.read (name : String) (operands : List String) : Except CommandError Command :=
  let first := operands[0]?
  let second := operands[1]?
  match name with
  | "regs" => .ok registers
  | "set" => do
    let target ← require "register" first
    let value ← require "value" second
    return set (← Assignment.read target value)
  | "mem" => do
    let a ← readWordOr Address.start.toWord first
    let b ← readWordOr 0 second
    return memory a b
  | "dasm" => do
    let a ← first.mapM readWord
    let b ← readWordOr 0 second
    return listing a b
  | "si" => do
    let count ← first.mapM readDecimal
    return step (count.getD 1)
  | "stk" => .ok stack
  | "push" => do
    let a ← readWordOr 0 first
    return push a
  | "pop" => .ok pop
  | "rnd" => .ok random
  | "press" => do
    let key ← require "key" first
    return press (← readHeld key)
  | "display" => .ok display
  | "screen" => do
    let opened ← readMode first
    return window opened
  | "clear" => .ok clear
  | "full" => .ok fill
  | "pixel" => do
    let x ← readDecimal (← require "x" first)
    let y ← readDecimal (← require "y" second)
    if x < Screen.width ∧ y < Screen.height then return pixel x y else throw (.offScreen x y)
  | "rom" => do
    let path ← require "path" first
    return rom path
  | "help" => .ok help
  | "exit" => .ok exit
  | _ => .error (.unknownCommand name)

def Command.ofLine (line : String) : Except CommandError (Option Command) :=
  match Text.words line with
  | [] => .ok none
  | name :: operands => (Command.read name operands).map some

/-! ## Names -/

def Command.name : Command → String
  | registers => "regs"
  | set _ => "set"
  | memory .. => "mem"
  | listing .. => "dasm"
  | step _ => "si"
  | stack => "stk"
  | push _ => "push"
  | pop => "pop"
  | random => "rnd"
  | press _ => "press"
  | display => "display"
  | window _ => "screen"
  | clear => "clear"
  | fill => "full"
  | pixel .. => "pixel"
  | rom _ => "rom"
  | help => "help"
  | exit => "exit"

theorem bind_eq_ok {ε α β : Type} {x : Except ε α} {f : α → Except ε β} {b : β} :
    x >>= f = .ok b ↔ ∃ a, x = .ok a ∧ f a = .ok b := by
  rcases x with e | a <;> simp [bind, Except.bind]

theorem Command.name_of_read {name : String} {operands : List String} {c : Command}
    (told : Command.read name operands = .ok c) : c.name = name := by
  unfold Command.read at told
  split at told
  -- The cases have from none to three operands to read; a pixel is also checked for its place.
  all_goals simp only [bind_eq_ok, pure, Except.pure, Except.ok.injEq, reduceCtorEq] at told
  case h_15 =>
    obtain ⟨_, -, _, -, _, -, _, -, placed⟩ := told
    split at placed <;> cases placed
    rfl
  case h_2 =>
    obtain ⟨_, -, _, -, _, -, rfl⟩ := told
    rfl
  case h_3 | h_4 | h_10 =>
    obtain ⟨_, -, _, -, rfl⟩ := told
    rfl
  case h_5 | h_7 | h_12 | h_16 =>
    obtain ⟨_, -, rfl⟩ := told
    rfl
  all_goals
    subst told
    rfl

theorem Command.ofLine_of_words {line name : String} {operands : List String}
    (words : Text.words line = name :: operands) :
    Command.ofLine line = (Command.read name operands).map some := by
  unfold Command.ofLine
  rw [words]

theorem Command.head?_words_of_ofLine {line : String} {c : Command}
    (parsed : Command.ofLine line = .ok (some c)) : (Text.words line).head? = some c.name := by
  unfold Command.ofLine at parsed
  split at parsed
  · cases parsed
  · next name operands words =>
    rcases told : Command.read name operands with e | d <;> rw [told] at parsed <;> cases parsed
    rw [words, List.head?_cons, Command.name_of_read told]

end Chip8.Debugger
