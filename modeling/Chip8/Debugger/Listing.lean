import Chip8.Machine.Run

/-!
# What the debugger prints

The parts of a machine as text. Dumps and listings are computed as rows first and written out after,
so that what they cover can be told from the rows.
-/

namespace Chip8.Debugger

def closed (text : String) : String :=
  text ++ "\n"

/-! ## Registers -/

def registerField (m : Machine) (x : Register) : String :=
  x.name ++ ": " ++ (m.v.get x).text

def registerLine (m : Machine) (first : Nat) : String :=
  String.intercalate "\t" ((List.range 4).map fun k => registerField m (.ofNat (first + k)))

def keyField (m : Machine) : String :=
  match m.keypad.lowest? with
  | some k => k.name
  | none => "NONE"

def registerText (m : Machine) : String :=
  String.join ([0, 4, 8, 12].map fun first => closed (registerLine m first)) ++
    closed ("PC: " ++ Numeral.hex 4 m.pc.val ++ "\t I: " ++ Numeral.hex 4 m.index.val) ++
    closed ("SP: " ++ Numeral.hex 2 m.stack.size ++ "\t\t R: " ++ m.lastRandom.text) ++
    closed ("DT: " ++ m.timers.delay.text ++ "\t\tST: " ++ m.timers.sound.text) ++
    closed ("Key: " ++ keyField m)

/-! ## Memory -/

/-- The bounds of a dump, cut down to whole rows. A range that is not ascending gives four rows. -/
def dumpBounds (first last : Word) : Nat × Nat :=
  let start := first.address.val / 16 * 16
  let stop := if start < last.toNat then last.toNat else start + 0x40
  (start, min stop Memory.size / 16 * 16)

def dumpRows (m : Memory) (start stop : Nat) : List (Nat × List Byte) :=
  (List.range ((stop - start) / 16)).map fun k =>
    (start + 16 * k, m.readAll (Address.ofNat (start + 16 * k)) 16)

def dumpHead : String :=
  " hex  " ++ String.join ((List.range 16).map fun k => " " ++ Numeral.hex 1 k ++ " ")

def dumpRow (row : Nat × List Byte) : String :=
  "\n " ++ Numeral.hex 2 (row.1 / 16) ++ "0  " ++
    String.join (row.2.map fun b => b.text ++ " ")

def dumpText (m : Memory) (first last : Word) : String :=
  let (start, stop) := dumpBounds first last
  closed (dumpHead ++ String.join ((dumpRows m start stop).map dumpRow))

/-! ## Instructions -/

/-- The bounds of a listing. A range that is not ascending gives eight words. -/
def listingBounds (m : Machine) (first : Option Word) (last : Word) : Nat × Nat :=
  let start := (first.map fun w => w.address.val).getD (m.pc.val - 4)
  let stop := if start < last.toNat then last.toNat else start + 0x10
  (start, min stop Memory.size)

structure ListingLine where
  address : Nat
  current : Bool
  word : Word
  deriving DecidableEq

def listingLines (m : Machine) (start stop : Nat) : List ListingLine :=
  (List.range ((stop - start + 1) / 2)).map fun k =>
    let address := start + 2 * k
    ⟨address, address == m.pc.val, m.memory.readWord (Address.ofNat address)⟩

def ListingLine.text (line : ListingLine) : String :=
  Numeral.hex 3 line.address ++ (if line.current then " [=]" else "") ++ "\t" ++
    line.word.text ++ "\t" ++ line.word.disassembly

def listingText (m : Machine) (first : Option Word) (last : Word) : String :=
  let (start, stop) := listingBounds m first last
  String.join ((listingLines m start stop).map fun line => closed line.text)

/-! ## Stack and screen -/

def stackText (m : Machine) : String :=
  let plates := m.stack.frames.reverse.map fun a => closed ("| " ++ Numeral.hex 3 a.toNat ++ " |")
  (if m.stack.isEmpty then closed "|     |" else String.join plates) ++ closed "+-----+"

def screenText (m : Machine) : String :=
  closed m.screen.picture

/-! ## Fixed texts -/

def banner : String :=
  closed "Interactive debug shell!"

def prompt (m : Machine) : String :=
  m.pc.text ++ "> "

def farewell : String :=
  closed "exiting..."

def helpText : String :=
  String.join ([
    "Available commands",
    "  regs                 Print all registers",
    "  set [reg] [value]    Set value of register (V0..VF, PC, I, R, DT, ST)",
    "  mem [begin] [end]    Print memory",
    "  dasm [begin] [end]   Disassemble instructions",
    "  si [count]           Execute instructions",
    "  stk                  Print the stack",
    "  push [addr]          Push an address to the stack",
    "  pop                  Pop an address from the stack",
    "  rnd                  Generate a random byte",
    "  press [key|NONE]     Press a key",
    "  display              Display screen state in terminal",
    "  screen [on|off]      Open or close the window",
    "  clear                Clear all pixels on screen",
    "  full                 Fill all pixels on screen",
    "  pixel [x] [y]        Toggle pixel at (x, y)",
    "  rom [path]           Load rom into memory",
    "  exit                 Exit",
    "  help                 Print this menu"].map closed)

end Chip8.Debugger
