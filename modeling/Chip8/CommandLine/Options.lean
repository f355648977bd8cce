import Chip8.Machine.Basic

/-!
# Command line options

Arguments are read from left to right. A flag takes effect at once. The value of an option and the
path of a ROM are only noted when they are met; they are settled, which may fail, by the next flag
that is known, by the next path, or by the end of the arguments. An argument that is itself an error
comes before anything that is not settled yet.
-/

namespace Chip8.CommandLine

structure Options where
  rom : Option String := none
  debug : Bool := false
  headless : Bool := false
  pressOnly : Bool := false
  noIndexIncrement : Bool := false
  seed : Option UInt64 := none
  /-- How often more notices were asked for. -/
  verbose : Nat := 0
  deriving DecidableEq

inductive OptionError where
  | unknownArgument
  | notNumber
  | missingValue
  | emptyPath
  | repeated
  | needlessValue
  | helpWanted
  | versionWanted
  deriving DecidableEq

/-- Help and version are answers and no failures. -/
def OptionError.exitCode : OptionError → Nat
  | helpWanted | versionWanted => 0
  | _ => 2

/-! ## What a flag is -/

inductive Flag where
  | debug
  | headless
  | pressOnly
  | noIndexIncrement
  | verbose
  | help
  | version
  deriving DecidableEq

inductive LongName where
  | flag (flag : Flag)
  | seed
  deriving DecidableEq

def LongName.ofString? : String → Option LongName
  | "debug" => some (.flag .debug)
  | "headless" => some (.flag .headless)
  | "press-only" => some (.flag .pressOnly)
  | "no-index-increment" => some (.flag .noIndexIncrement)
  | "verbose" => some (.flag .verbose)
  | "help" => some (.flag .help)
  | "version" => some (.flag .version)
  | "seed" => some .seed
  | _ => none

def Flag.ofLetter? : Char → Option Flag
  | 'v' => some .verbose
  | 'h' => some .help
  | 'V' => some .version
  | _ => none

/-- Lets a flag take effect. All but the count of `verbose` may be given once. -/
def Options.raise (o : Options) : Flag → Except OptionError Options
  | .debug => if o.debug then .error .repeated else .ok { o with debug := true }
  | .headless => if o.headless then .error .repeated else .ok { o with headless := true }
  | .pressOnly => if o.pressOnly then .error .repeated else .ok { o with pressOnly := true }
  | .noIndexIncrement =>
    if o.noIndexIncrement then .error .repeated else .ok { o with noIndexIncrement := true }
  | .verbose => .ok { o with verbose := min (o.verbose + 1) 255 }
  | .help => .error .helpWanted
  | .version => .error .versionWanted

def Options.plant (o : Options) (text : String) : Except OptionError Options :=
  if o.seed.isSome then .error .repeated
  else
    match Numeral.read? 10 Numeral.maxLong text.toList with
    | none => .error .notNumber
    | some n => .ok { o with seed := some (UInt64.ofNat n) }

/-! ## Reading arguments -/

inductive Pending where
  | nothing
  | seedName
  | seedValue (text : String)
  | path (path : String)
  deriving DecidableEq

structure Scan where
  options : Options := {}
  pending : Pending := .nothing
  hasPath : Bool := false
  /-- Whether everything else is a path, whatever it starts with. -/
  trailing : Bool := false
  deriving DecidableEq

namespace Scan

def settle (s : Scan) : Except OptionError Scan :=
  match s.pending with
  | .nothing => .ok s
  | .seedName => .error .missingValue
  | .seedValue text => do
    let o ← s.options.plant text
    return { s with options := o, pending := .nothing }
  | .path path =>
    if path = "" then .error .emptyPath
    else .ok { s with options := { s.options with rom := some path }, pending := .nothing }

def flag (s : Scan) (f : Flag) : Except OptionError Scan := do
  let settled ← s.settle
  let o ← settled.options.raise f
  return { settled with options := o }

def long (s : Scan) (name : String) (value : Option String) : Except OptionError Scan :=
  match LongName.ofString? name, value with
  | none, _ => .error .unknownArgument
  | some (.flag _), some _ => .error .needlessValue
  | some (.flag f), none => s.flag f
  | some .seed, none => do
    let settled ← s.settle
    return { settled with pending := .seedName }
  | some .seed, some text => do
    let settled ← s.settle
    let o ← settled.options.plant text
    return { settled with options := o }

def letters (s : Scan) (cs : List Char) : Except OptionError Scan :=
  cs.foldlM (fun s c =>
    match Flag.ofLetter? c with
    | none => .error .unknownArgument
    | some f => s.flag f) s

def plain (s : Scan) (arg : String) : Except OptionError Scan :=
  if s.pending = .seedName ∧ s.trailing = false then .ok { s with pending := .seedValue arg }
  else if s.hasPath then .error .unknownArgument
  else do
    let settled ← s.settle
    return { settled with pending := .path arg, hasPath := true }

def splitEquals (cs : List Char) : List Char × Option (List Char) :=
  match cs.dropWhile (· != '=') with
  | [] => (cs, none)
  | _ :: value => (cs.takeWhile (· != '='), some value)

def meet (s : Scan) (arg : String) : Except OptionError Scan :=
  if s.trailing then s.plain arg
  else
    match arg.toList with
    | ['-', '-'] => .ok { s with trailing := true }
    | '-' :: '-' :: cs =>
      let (name, value) := splitEquals cs
      s.long (String.ofList name) (value.map String.ofList)
    | '-' :: c :: cs => s.letters (c :: cs)
    | _ => s.plain arg

end Scan

def Options.ofArgs (args : List String) : Except OptionError Options := do
  let last ← args.foldlM Scan.meet {}
  let settled ← last.settle
  return settled.options

/-! ## What the options mean -/

def Options.level (o : Options) : Level :=
  match o.verbose with
  | 0 => .warn
  | 1 => .info
  | 2 => .debug
  | _ => .trace

/-- How the machine is made; `entropy` is the seed if none was given. -/
def Options.settings (o : Options) (entropy : UInt64) : Settings where
  keyWait := if o.pressOnly then .press else .release
  advancesIndex := !o.noIndexIncrement
  seed := o.seed.getD entropy

end Chip8.CommandLine
