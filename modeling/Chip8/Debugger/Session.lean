import Chip8.Debugger.Command
import Chip8.Debugger.Listing
import Chip8.Text.Line

/-!
# Debugger sessions

A session reads one command a line until it is told to exit, until the input ends, or until a line is
not text. After each line the peripherals are serviced, whether the command was carried out or not.
Main statements: a session takes its lines one after the other, and once it has ended it takes none.
-/

namespace Chip8.Debugger

/-! ## Carrying out a command -/

def Assignment.apply (a : Assignment) (m : Machine) : Machine :=
  match a with
  | pc value => m.setPc value.address
  | index value => m.setIndex value.address
  | lastRandom value => m.setLastRandom value
  | delay value => m.setDelay value
  | sound value => m.setSound value
  | register x value => m.setRegister x value

def holdOnly (m : Machine) : Option Key → Machine
  | none => m.clearKeys
  | some k => m.clearKeys.press k

def faultText (m : Machine) : String :=
  match m.fault with
  | none => ""
  | some f => closed ("halted on invalid opcode " ++ f.word.text)

def loadFile (m : Machine) (path : String) (rom : List Byte) : Machine :=
  (m.loadRom rom).report [.fileLoaded (Memory.fitting rom).length path]

def Command.run (c : Command) (read : Reader) (m : Machine) :
    Except CommandError (String × Machine) :=
  match c with
  | registers => .ok (registerText m, m)
  | set assignment => .ok ("", assignment.apply m)
  | memory first last => .ok (dumpText m.memory first last, m)
  | listing first last => .ok (listingText m first last, m)
  | step count =>
    let after := Machine.steps count m
    .ok (faultText after, after)
  | stack => .ok (stackText m, m)
  | push address => .ok ("", m.push address.address)
  | pop => .ok (closed (Numeral.hex 3 m.stack.top.toNat), m.pop)
  | random =>
    let after := m.drawRandom
    .ok (closed after.lastRandom.text, after)
  | press key => .ok ("", holdOnly m key)
  | display => .ok (screenText m, m)
  | window true => if m.hasFrontend then .ok ("", m) else .error .noWindow
  | window false => .ok ("", m.detach)
  | clear => .ok ("", m.changeScreen fun _ => .blank)
  | fill => .ok ("", m.changeScreen fun _ => .filled)
  | pixel x y => .ok ("", m.changeScreen fun s => s.toggle x y)
  | rom path =>
    match read.rom path with
    | .error unread => .error (.unreadable unread)
    | .ok bytes =>
      let size := Numeral.decimal (Memory.fitting bytes).length
      .ok (closed ("loaded " ++ size ++ " bytes"), loadFile m path bytes)
  | help => .ok (helpText, m)
  | exit => .ok ("", m)

inductive Reply where
  | answer (text : String) (machine : Machine)
  | leave

def errorText (e : CommandError) : String :=
  closed ("error: " ++ e.message)

/-- The reply to a line. A command that fails leaves the machine alone. -/
def reply (read : Reader) (m : Machine) (line : String) : Reply :=
  match Command.ofLine line with
  | .error e => .answer (errorText e) m
  | .ok none => .answer "" m
  | .ok (some .exit) => .leave
  | .ok (some c) =>
    match c.run read m with
    | .error e => .answer (errorText e) m
    | .ok (text, after) => .answer text after

theorem reply_of_command {read : Reader} {m : Machine} {line : String} {c : Command}
    (parsed : Command.ofLine line = .ok (some c)) (staying : c ≠ .exit) :
    reply read m line =
      match c.run read m with
      | .error e => .answer (errorText e) m
      | .ok (text, after) => .answer text after := by
  unfold reply
  rw [parsed]
  cases c <;> first | exact absurd rfl staying | rfl

/-! ## Sessions -/

inductive Ending where
  | done
  | notText
  deriving DecidableEq

def notTextMessage : String :=
  "stream did not contain valid UTF-8"

structure Session where
  machine : Machine
  output : String
  ending : Option Ending := none

namespace Session

def start (m : Machine) : Session where
  machine := m
  output := banner ++ prompt m

def leave (s : Session) : Session :=
  { s with output := s.output ++ farewell, ending := some .done }

def proceed (s : Session) (text : String) (m : Machine) : Session :=
  let serviced := m.service
  { s with machine := serviced, output := s.output ++ text ++ prompt serviced }

def take (read : Reader) (s : Session) (line : String) : Session :=
  match reply read s.machine line with
  | .leave => s.leave
  | .answer text m => s.proceed text m

def feed (read : Reader) (s : Session) (line : List Byte) : Session :=
  if s.ending.isSome then s
  else
    match Text.decode? line with
    | none => { s with ending := some .notText }
    | some text => s.take read text

/-- Closes a session that is still open when the input ends. -/
def finish (s : Session) : Session :=
  if s.ending.isSome then s else s.leave

def feedAll (read : Reader) (s : Session) (lines : List (List Byte)) : Session :=
  lines.foldl (feed read) s

def run (read : Reader) (m : Machine) (input : List Byte) : Session :=
  ((start m).feedAll read (Text.lines input)).finish

theorem machine_finish (s : Session) : s.finish.machine = s.machine := by
  unfold finish
  split <;> rfl

theorem feedAll_append (read : Reader) (s : Session) (front back : List (List Byte)) :
    s.feedAll read (front ++ back) = (s.feedAll read front).feedAll read back :=
  List.foldl_append

theorem feed_of_answer {read : Reader} {s : Session} {line : List Byte} {text answer : String}
    {m : Machine} (opened : s.ending = none) (decodes : Text.decode? line = some text)
    (replied : reply read s.machine text = .answer answer m) :
    s.feed read line = s.proceed answer m := by
  unfold feed take
  simp only [opened, decodes, replied]
  rfl

theorem feed_of_ended (read : Reader) {s : Session} (ended : s.ending.isSome) (line : List Byte) :
    s.feed read line = s := by
  simp [feed, ended]

theorem feedAll_of_ended (read : Reader) {s : Session} (ended : s.ending.isSome)
    (lines : List (List Byte)) : s.feedAll read lines = s := by
  induction lines with
  | nil => rfl
  | cons line lines ih => simpa [feedAll, feed_of_ended read ended] using ih

end Session

end Chip8.Debugger
