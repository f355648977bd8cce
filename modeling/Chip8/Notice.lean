import Chip8.CallStack
import Chip8.Halt
import Chip8.Instruction.Notation
import Chip8.Memory

/-!
# Notices

What a machine and its command line report while they work. A notice is data; its level and its
wording are functions of it, and a verbosity selects the notices that are shown.
-/

namespace Chip8

inductive Level where
  | error
  | warn
  | info
  | debug
  | trace
  deriving DecidableEq

namespace Level

def rank : Level → Nat
  | error => 0
  | warn => 1
  | info => 2
  | debug => 3
  | trace => 4

def name : Level → String
  | error => "ERROR"
  | warn => "WARN"
  | info => "INFO"
  | debug => "DEBUG"
  | trace => "TRACE"

end Level

/-- The least serious level that is shown, or nothing at all. -/
abbrev Verbosity := Option Level

def Verbosity.shows (v : Verbosity) (level : Level) : Bool :=
  v.any fun least => level.rank ≤ least.rank

inductive Notice where
  | executing (address : Address) (word : Word)
  | invalid (fault : Fault)
  | systemIgnored (target : Address)
  | returnDropped (address : Word)
  /-- Nothing could ever press the key that an instruction waits for. -/
  | waitSkipped (x : Register)
  | romTruncated (size fitting : Nat)
  | romLoaded (size : Nat)
  | wordsLoaded (count : Nat)
  | fileLoaded (size : Nat) (path : String)
  | noWindow
  | debugging (reason : Halt)
  | windowClosed
  deriving DecidableEq

namespace Notice

def level : Notice → Level
  | executing .. => .trace
  | invalid .. => .error
  | systemIgnored .. | returnDropped .. | waitSkipped .. | noWindow | debugging .. => .warn
  | romTruncated .. | romLoaded .. | wordsLoaded .. => .debug
  | fileLoaded .. | windowClosed => .info

def message : Notice → String
  | executing address word => address.text ++ "  " ++ word.text ++ "  " ++ word.disassembly
  | invalid fault => fault.text
  | systemIgnored target => "ignoring SYS " ++ target.text
  | returnDropped address =>
    "stack overflow, dropping return address " ++ Numeral.hex 3 address.toNat
  | waitSkipped x =>
    "no key held and no frontend attached, skipping wait for " ++ x.name
  | romTruncated size fitting =>
    "rom is " ++ Numeral.decimal size ++ " bytes, truncating to the " ++
      Numeral.decimal fitting ++ " that fit"
  | romLoaded size => "loaded " ++ Numeral.decimal size ++ " byte rom"
  | wordsLoaded count => "loaded " ++ Numeral.decimal count ++ " word program"
  | fileLoaded size path => "loaded " ++ Numeral.decimal size ++ " bytes from " ++ path
  | noWindow => "built without the `window` feature, running headless"
  | debugging reason => reason.text ++ ", entering the debug shell"
  | windowClosed => "window closed"

def line (n : Notice) : String :=
  n.level.name ++ " " ++ n.message

def ofPush (s : CallStack) (address : Word) : List Notice :=
  if s.isFull then [returnDropped address] else []

def ofRom (rom : List Byte) : List Notice :=
  let fitting := (Memory.fitting rom).length
  if fitting < rom.length then [romTruncated rom.length fitting] else []

end Notice

def Verbosity.lines (v : Verbosity) (notices : List Notice) : List String :=
  (notices.filter fun n => v.shows n.level).map Notice.line

end Chip8
