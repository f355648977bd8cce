import Chip8.Debugger.Session

/-!
# Lines that change nothing

A session reads a line in full and carries it out after. Here a line is carried out while it is read:
operands are looked up and read between changes, and a change stays even if the line fails later on.
The two come to the same, so a line that fails has changed nothing by then. Main statement:
`line_without_change`.
-/

namespace Chip8.Debugger

/-! ## Attempts -/

/-- A piece of work on a machine that may fail half way; what was changed before stays changed. -/
abbrev Attempt (α : Type) := ExceptT CommandError (StateM Machine) α

namespace Attempt

def on {α : Type} (a : Attempt α) (m : Machine) : Except CommandError α × Machine :=
  a.run.run m

def check {α : Type} (x : Except CommandError α) : Attempt α :=
  ExceptT.mk (pure x)

def assign (name value : String) : Attempt Unit :=
  match upper name with
  | "PC" => do
    let w ← check (readWord value)
    modify fun m => m.setPc w.address
  | "I" => do
    let w ← check (readWord value)
    modify fun m => m.setIndex w.address
  | "R" => do
    let b ← check (readByte value)
    modify fun m => m.setLastRandom b
  | "DT" => do
    let b ← check (readByte value)
    modify fun m => m.setDelay b
  | "ST" => do
    let b ← check (readByte value)
    modify fun m => m.setSound b
  | _ => do
    let x ← check (readRegister name)
    let b ← check (readByte value)
    modify fun m => m.setRegister x b

def turnWindow (mode : Option String) : Attempt Unit :=
  match mode with
  | none | some "on" => do
    let m ← get
    check (if m.hasFrontend then .ok () else .error .noWindow)
  | some "off" => modify Machine.detach
  | some text => throw (.unknownMode text)

/-- Carries a command out as its operands are read. Gives the text printed, or none to exit. -/
def command (read : Reader) (name : String) (operands : List String) : Attempt (Option String) :=
  let first := operands[0]?
  let second := operands[1]?
  match name with
  | "regs" => return registerText (← get)
  | "set" => do
    let target ← check (require "register" first)
    let value ← check (require "value" second)
    assign target value
    return ""
  | "mem" => do
    let a ← check (readWordOr Address.start.toWord first)
    let b ← check (readWordOr 0 second)
    return dumpText (← get).memory a b
  | "dasm" => do
    let a ← check (first.mapM readWord)
    let b ← check (readWordOr 0 second)
    return listingText (← get) a b
  | "si" => do
    let count ← check (first.mapM readDecimal)
    modify (Machine.steps (count.getD 1))
    return faultText (← get)
  | "stk" => return stackText (← get)
  | "push" => do
    let a ← check (readWordOr 0 first)
    modify fun m => m.push a.address
    return ""
  | "pop" => do
    let top := (← get).stack.top
    modify Machine.pop
    return closed (Numeral.hex 3 top.toNat)
  | "rnd" => do
    modify Machine.drawRandom
    return closed (← get).lastRandom.text
  | "press" => do
    let key ← check (require "key" first)
    if upper key = "NONE" then
      modify Machine.clearKeys
    else
      let k ← check (readKey key)
      modify Machine.clearKeys
      modify fun m => m.press k
    return ""
  | "display" => return screenText (← get)
  | "screen" => do
    turnWindow first
    return ""
  | "clear" => do
    modify fun m => m.changeScreen fun _ => .blank
    return ""
  | "full" => do
    modify fun m => m.changeScreen fun _ => .filled
    return ""
  | "pixel" => do
    let x ← check (readDecimal (← check (require "x" first)))
    let y ← check (readDecimal (← check (require "y" second)))
    if Screen.width ≤ x ∨ Screen.height ≤ y then
      throw (.offScreen x y)
    modify fun m => m.changeScreen fun s => s.toggle x y
    return ""
  | "rom" => do
    let path ← check (require "path" first)
    let bytes ← check ((read.rom path).mapError .unreadable)
    modify fun m => m.loadRom bytes
    let size := (Memory.fitting bytes).length
    modify fun m => m.report [.fileLoaded size path]
    return closed ("loaded " ++ Numeral.decimal size ++ " bytes")
  | "help" => return helpText
  | "exit" => return none
  | _ => throw (.unknownCommand name)

def line (read : Reader) (text : String) : Attempt (Option String) :=
  match Text.words text with
  | [] => return ""
  | name :: operands => command read name operands

/-! ## Reading first -/

def outcome (read : Reader) (m : Machine) :
    Except CommandError Command → Except CommandError (Option String) × Machine
  | .error e => (.error e, m)
  | .ok .exit => (.ok none, m)
  | .ok c =>
    match c.run read m with
    | .error e => (.error e, m)
    | .ok (text, after) => (.ok text, after)

theorem check_bind {α : Type} {read : Reader} {m : Machine} {x : Except CommandError α}
    {later : α → Attempt (Option String)} {rest : α → Except CommandError Command}
    (agree : ∀ a, (later a).on m = outcome read m (rest a)) :
    (check x >>= later).on m = outcome read m (x >>= rest) := by
  rcases x with e | a
  · rfl
  · exact agree a

theorem assign_eq (name value : String) :
    assign name value = (do
      let a ← check (Assignment.read name value)
      modify a.apply) := by
  unfold assign
  split
  case h_1 _ named | h_2 _ named =>
    unfold Assignment.read
    rw [named]
    rcases readWord value with _ | _ <;> rfl
  case h_3 _ named | h_4 _ named | h_5 _ named =>
    unfold Assignment.read
    rw [named]
    rcases readByte value with _ | _ <;> rfl
  case h_6 =>
    have reads : Assignment.read name value = (do
        let x ← readRegister name
        let b ← readByte value
        return .register x b) := by
      unfold Assignment.read
      split <;> first | contradiction | rfl
    rw [reads]
    rcases readRegister name with _ | _
    · rfl
    · rcases readByte value with _ | _ <;> rfl

theorem turnWindow_eq (mode : Option String) :
    turnWindow mode = (do
      let opened ← check (readMode mode)
      if opened then
        let m ← get
        check (if m.hasFrontend then .ok () else .error .noWindow)
      else
        modify Machine.detach) := by
  unfold turnWindow
  split
  case h_4 text on off =>
    have reads : readMode (some text) = .error (.unknownMode text) := by
      unfold readMode
      split <;> first | contradiction | simp_all
    rw [reads]
    rfl
  all_goals rfl

theorem command_eq (read : Reader) (m : Machine) (name : String) (operands : List String) :
    (command read name operands).on m = outcome read m (Command.read name operands) := by
  unfold command
  simp only
  split
  all_goals
    unfold Command.read
    simp only
  -- set
  case h_2 =>
    apply check_bind
    intro target
    apply check_bind
    intro value
    rw [assign_eq]
    rcases Assignment.read target value with _ | _ <;> rfl
  -- mem, dasm
  case h_3 | h_4 =>
    apply check_bind
    intro a
    apply check_bind
    intro b
    rfl
  -- si, push
  case h_5 | h_7 =>
    apply check_bind
    intro a
    rfl
  -- press
  case h_10 =>
    apply check_bind
    intro key
    unfold readHeld
    split
    · rfl
    · rcases readKey key with _ | _ <;> rfl
  -- screen
  case h_12 =>
    rw [turnWindow_eq]
    rcases readMode operands[0]? with _ | _ | _
    · rfl
    · rfl
    · show _ = outcome read m (.ok (.window true))
      unfold outcome Command.run
      show (do check (if m.hasFrontend then .ok () else .error .noWindow); return some "").on m = _
      by_cases attached : m.hasFrontend <;> simp only [attached] <;> rfl
  -- pixel
  case h_15 =>
    apply check_bind
    intro text
    apply check_bind
    intro x
    apply check_bind
    intro text'
    apply check_bind
    intro y
    by_cases inside : x < Screen.width ∧ y < Screen.height
    · rw [if_pos inside, if_neg (by omega)]
      rfl
    · rw [if_neg inside, if_pos (by omega)]
      rfl
  -- rom
  case h_16 =>
    apply check_bind
    intro path
    show _ = outcome read m (.ok (.rom path))
    unfold outcome Command.run
    simp only
    rcases read.rom path with _ | _ <;> rfl
  all_goals rfl

theorem outcome_of_ne_exit (read : Reader) (m : Machine) {c : Command} (staying : c ≠ .exit) :
    outcome read m (.ok c) =
      match c.run read m with
      | .error e => (.error e, m)
      | .ok (text, after) => (.ok text, after) := by
  cases c <;> first | exact absurd rfl staying | rfl

theorem line_of_words {read : Reader} {text name : String} {operands : List String}
    (words : Text.words text = name :: operands) (m : Machine) :
    (line read text).on m = outcome read m (Command.read name operands) := by
  unfold line
  rw [words]
  exact command_eq read m name operands

/-- The reply to a line is what carrying it out came to. -/
theorem reply_eq (read : Reader) (m : Machine) (text : String) :
    reply read m text =
      match (line read text).on m with
      | (.error e, after) => .answer (errorText e) after
      | (.ok none, _) => .leave
      | (.ok (some answer), after) => .answer answer after := by
  rcases words : Text.words text with _ | ⟨name, operands⟩
  · unfold reply Command.ofLine line
    rw [words]
    rfl
  have parsed := Command.ofLine_of_words words
  rw [line_of_words words]
  rcases told : Command.read name operands with e | c <;> rw [told] at parsed
  · unfold reply
    rw [parsed]
    rfl
  · by_cases leaving : c = .exit
    · subst leaving
      unfold reply
      rw [parsed]
      rfl
    · rw [reply_of_command parsed leaving, outcome_of_ne_exit read m leaving]
      rcases c.run read m with _ | _ <;> rfl

/-! ## Lines that change nothing -/

def showing : List String :=
  ["regs", "mem", "dasm", "stk", "display", "help"]

theorem run_of_showing (read : Reader) (m : Machine) {c : Command} (shows : c.name ∈ showing) :
    c ≠ .exit ∧ ∃ text, c.run read m = .ok (text, m) := by
  cases c
  case registers | memory | listing | stack | display | help => exact ⟨nofun, _, rfl⟩
  all_goals simp [showing, Command.name] at shows

theorem line_unchanged (read : Reader) (m : Machine) {text : String}
    (mild : (∃ e, ((line read text).on m).1 = .error e) ∨ Text.words text = [] ∨
      ∃ name ∈ showing, (Text.words text).head? = some name) :
    ∃ result, (line read text).on m = (result, m) ∧ result ≠ .ok none := by
  rcases words : Text.words text with _ | ⟨name, operands⟩
  · refine ⟨.ok "", ?_, nofun⟩
    unfold line
    rw [words]
    rfl
  -- With all operands read, only the command itself can still fail.
  rw [line_of_words words] at mild ⊢
  rcases told : Command.read name operands with e | c <;> rw [told] at mild
  · exact ⟨.error e, rfl, nofun⟩
  rcases mild with ⟨e, failed⟩ | blank | ⟨shown, shows, named⟩
  · have staying : c ≠ .exit := by
      rintro rfl
      cases failed
    rw [outcome_of_ne_exit read m staying] at failed ⊢
    rcases ran : c.run read m with e' | _
    · exact ⟨.error e', rfl, nofun⟩
    · rw [ran] at failed
      cases failed
  · simp [words] at blank
  · have same : c.name = shown := by
      rw [Command.name_of_read told]
      simpa [words] using named
    obtain ⟨staying, answer, ran⟩ := run_of_showing read m (same ▸ shows)
    rw [outcome_of_ne_exit read m staying, ran]
    exact ⟨.ok answer, rfl, nofun⟩

end Attempt

/-- **A line that fails changes nothing.** Nor does a blank line, or one that only asks to be shown
something: even carried out as it is read, it leaves the machine as it was. What is left to happen is
that an answer is printed and the peripherals are serviced; the session goes on with the next line. -/
theorem line_without_change (read : Reader) {s : Session} {line : List Byte} {text : String}
    (opened : s.ending = none) (decodes : Text.decode? line = some text)
    (mild : (∃ e, ((Attempt.line read text).on s.machine).1 = .error e) ∨ Text.words text = [] ∨
      ∃ name ∈ Attempt.showing, (Text.words text).head? = some name) :
    ((Attempt.line read text).on s.machine).2 = s.machine ∧
      ∃ answer : String,
        (∀ e, ((Attempt.line read text).on s.machine).1 = .error e → answer = errorText e) ∧
        ∀ later, s.feedAll read (line :: later) =
          Session.feedAll read
            ⟨s.machine.service, s.output ++ answer ++ prompt s.machine.service, none⟩ later := by
  obtain ⟨result, left, staying⟩ := Attempt.line_unchanged read s.machine mild
  have replied := Attempt.reply_eq read s.machine text
  rw [left] at replied ⊢
  have goes (answer : String) (same : reply read s.machine text = .answer answer s.machine)
      (later : List (List Byte)) :
      s.feedAll read (line :: later) =
        Session.feedAll read
          ⟨s.machine.service, s.output ++ answer ++ prompt s.machine.service, none⟩ later := by
    show Session.feedAll read (s.feed read line) later = _
    rw [Session.feed_of_answer opened decodes same, Session.proceed, opened]
  refine ⟨rfl, ?_⟩
  rcases result with e | _ | answer
  · refine ⟨errorText e, ?_, goes _ replied⟩
    rintro _ ⟨⟩
    rfl
  · exact absurd rfl staying
  · exact ⟨answer, nofun, goes _ replied⟩

theorem line_without_change_unknown_key :
    let held := (Machine.start {} 0).press ⟨5⟩
    ((Attempt.line (fun _ => .error .notFound) "press zz\n").on held).1 =
        .error (.unknownName (.key "zz")) ∧
      (Session.feedAll (fun _ => .error .notFound) (.start held)
        [Text.encode "press zz\n".toList]).machine = held.service ∧
      held.service.keypad.held = [⟨5⟩] := by
  intro held
  have failed : ((Attempt.line (fun _ => .error .notFound) "press zz\n").on held).1 =
      .error (.unknownName (.key "zz")) := rfl
  have decodes : Text.decode? (Text.encode "press zz\n".toList) = some "press zz\n" := by decide
  obtain ⟨-, _, -, goes⟩ :=
    line_without_change (fun _ => .error .notFound) (s := .start held) rfl decodes
      (.inl ⟨_, failed⟩)
  refine ⟨failed, ?_, by decide +kernel⟩
  rw [goes []]
  rfl

end Chip8.Debugger
