import Chip8.CommandLine.Run

/-!
# The executable

The host that the program runs on: arguments, files, the clock, the terminal.
-/

namespace Chip8.Main

open CommandLine (Host Options OptionError Failure)

def now : IO Nat := do
  return (← IO.monoNanosNow) / 1000

def entropy : IO UInt64 := do
  let bytes ← IO.getRandomBytes 8
  return bytes.foldl (fun n b => n * 256 + b.toUInt64) 0

def readError : IO.Error → ReadError
  | .noFileOrDirectory .. => .notFound
  | .inappropriateType _ code _ => if code = 20 then .notDirectory else .isDirectory
  | .permissionDenied _ code _ => .refused "Permission denied" code.toNat
  | e => .refused (toString e) 0

def readFile (path : String) : IO (Except ReadError (List Byte)) := do
  try
    let bytes ← IO.FS.readBinFile path
    return .ok bytes.toList
  catch e => return .error (readError e)

partial def readLine (input : IO.FS.Stream) (line : List Byte) : IO (List Byte) := do
  match (← input.read 1).toList with
  | [] => return line.reverse
  | b :: _ =>
    if b = Text.lineFeed then return (b :: line).reverse else readLine input (b :: line)

def print (text : String) : IO String := do
  let output ← IO.getStdout
  output.putStr text
  output.flush
  return ""

def note (o : Options) (m : Machine) : IO Machine := do
  for line in Verbosity.lines (some o.level) m.notices do
    IO.eprintln line
  return { m with log := [] }

def system (o : Options) : Host IO where
  entropy := entropy
  now := now
  file := readFile
  line := do readLine (← IO.getStdin) []
  print := print
  note := note o

def usage : String :=
  "Usage: chip8 [--debug] [--headless] [--press-only] [--no-index-increment] [--seed N] [-v] [ROM]"

def fail (f : Failure) : IO UInt32 := do
  IO.eprintln ("ERROR " ++ f.message)
  if f = .usage then IO.println usage
  return UInt32.ofNat f.exitCode

def refuse (e : OptionError) : IO UInt32 := do
  match e with
  | .helpWanted => IO.println usage
  | .versionWanted => IO.println "chip8 0.1.0"
  | _ => IO.eprintln usage
  return UInt32.ofNat e.exitCode

/-- More steps and lines than there is time for. -/
def limit : Nat := 1000000000000000000

def run (o : Options) : IO UInt32 := do
  match ← CommandLine.program (system o) limit limit o with
  | some outcome =>
    match outcome.failure with
    | some failure => fail failure
    | none => return 0
  | none => return 1

end Chip8.Main

def main (args : List String) : IO UInt32 := do
  match Chip8.CommandLine.Options.ofArgs args with
  | .ok o => Chip8.Main.run o
  | .error e => Chip8.Main.refuse e
