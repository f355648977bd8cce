import Chip8.CommandLine.Run
import Chip8.Proofs.Headless
import Chip8.Proofs.Sessions

/-!
# Ways through the program

The program opens no window, and neither a run nor a session attaches a frontend or asks for a close.
So whatever the clock shows, nothing but a fault ends its run, and it comes to the debugger, which is
left in one of two ways. Main statement: `program_outcome`.
-/

namespace Chip8

/-! ## Lines of a session -/

namespace Debugger

/-- A line that is not text is met before one that says to exit. -/
def Breaks (lines : List (List Byte)) : Prop :=
  ∃ front line back, lines = front ++ line :: back ∧ Text.decode? line = none ∧
    ∀ earlier ∈ front, ∃ text, Text.decode? earlier = some text ∧
      (Text.words text).head? ≠ some "exit"

theorem breaks_cons {line : List Byte} {lines : List (List Byte)} :
    Breaks (line :: lines) ↔ Text.decode? line = none ∨
      Breaks lines ∧ ∃ text, Text.decode? line = some text ∧
        (Text.words text).head? ≠ some "exit" := by
  constructor
  · rintro ⟨front, bad, back, split, undecoded, stays⟩
    cases front with
    | nil =>
      obtain ⟨rfl, -⟩ := List.cons.inj split
      exact Or.inl undecoded
    | cons first front =>
      obtain ⟨rfl, rest⟩ := List.cons.inj split
      rw [List.forall_mem_cons] at stays
      exact Or.inr ⟨⟨front, bad, back, rest, undecoded, stays.2⟩, stays.1⟩
  · rintro (undecoded | ⟨⟨front, bad, back, rest, undecoded, stays⟩, first⟩)
    · exact ⟨[], line, lines, rfl, undecoded, by simp⟩
    · refine ⟨line :: front, bad, back, by rw [rest]; rfl, undecoded, ?_⟩
      rw [List.forall_mem_cons]
      exact ⟨first, stays⟩

theorem reply_of_exit (read : Reader) (m : Machine) {line : String}
    (exits : (Text.words line).head? = some "exit") : reply read m line = .leave := by
  have parsed : Command.ofLine line = .ok (some .exit) := by
    unfold Command.ofLine
    split
    · next blank => simp [blank] at exits
    · next name operands words =>
      rw [words, List.head?_cons, Option.some.injEq] at exits
      rw [exits]
      rfl
  unfold reply
  rw [parsed]

theorem reply_congr {read read' : Reader} {line : String}
    (agree : ∀ path, Command.ofLine line = .ok (some (.rom path)) → read path = read' path)
    (m : Machine) : reply read m line = reply read' m line := by
  unfold reply
  split
  · rfl
  · rfl
  · rfl
  · next c _ parsed =>
    have same : c.run read m = c.run read' m := by
      cases c with
      | rom path =>
        simp only [Command.run, Reader.rom, agree path parsed]
      | window wanted => cases wanted <;> rfl
      | _ => rfl
    rw [same]

namespace Session

variable {s : Session} {line : List Byte}

theorem feed_congr {read read' : Reader}
    (agree : ∀ text path, Text.decode? line = some text →
      Command.ofLine text = .ok (some (.rom path)) → read path = read' path) :
    s.feed read line = s.feed read' line := by
  unfold feed take
  split
  · rfl
  · split
    · rfl
    · next text decodes =>
      rw [reply_congr (fun path => agree text path decodes)]

/-- A session is told by its machine and its ending how it goes on. -/
theorem machine_feed (read : Reader) (opened : s.ending = none) (line : List Byte) :
    (s.feed read line).machine = ((start s.machine).feed read line).machine := by
  have bare (s : Session) (opened : s.ending = none) :
      (s.feed read line).machine = (feed read ⟨s.machine, "", none⟩ line).machine := by
    have split : s = below s.output ⟨s.machine, "", none⟩ := by
      unfold below
      rw [String.append_empty, ← opened]
    conv_lhs => rw [split, feed_below, machine_below]
  rw [bare s opened, bare (start s.machine) rfl]
  rfl

theorem machine_run_of_line (read : Reader) (m : Machine) (single : Text.lines line = [line]) :
    (run read m line).machine = ((start m).feed read line).machine := by
  unfold run
  rw [single, machine_finish]
  rfl

inductive Left (line : List Byte) (next : Session) : Prop where
  | broken (undecoded : Text.decode? line = none) (ending : next.ending = some .notText)
  | done (text : String) (decodes : Text.decode? line = some text)
      (exits : (Text.words text).head? = some "exit") (ending : next.ending = some .done)
  | opened (text : String) (decodes : Text.decode? line = some text)
      (stays : (Text.words text).head? ≠ some "exit") (ending : next.ending = none)

theorem left_feed (read : Reader) (opened : s.ending = none) (line : List Byte) :
    Left line (s.feed read line) := by
  cases decodes : Text.decode? line with
  | none =>
    refine .broken decodes ?_
    unfold feed
    rw [opened, decodes]
    rfl
  | some text =>
    by_cases exits : (Text.words text).head? = some "exit"
    · refine .done text decodes exits ?_
      unfold feed take
      rw [opened, decodes]
      simp only [reply_of_exit read s.machine exits]
      rfl
    · refine .opened text decodes exits ?_
      obtain ⟨answer, after, replied⟩ := answer_of_stays read s.machine exits
      rw [feed_of_answer opened decodes replied]
      exact opened

theorem output_feed (read : Reader) (s : Session) (line : List Byte) :
    ∃ rest, (s.feed read line).output = s.output ++ rest := by
  have bare : s = below s.output ⟨s.machine, "", s.ending⟩ := by
    unfold below
    rw [String.append_empty]
  have split := feed_below read s.output ⟨s.machine, "", s.ending⟩ line
  rw [← bare] at split
  exact ⟨_, congrArg Session.output split⟩

end Session

end Debugger

namespace CommandLine

open Debugger (Command Session Breaks banner prompt)
open Debugger.Session (Left)

/-! ## Laps -/

def atReading (clock : Clock) (reading : Nat) (m : Machine) : Machine :=
  m.advanceClock (clock.reading reading - m.clock)

def lap (clock : Clock) (op : Operation) (reading : Nat) (m : Machine) : List Operation :=
  [.advanceClock (clock.reading reading - m.clock), op]

def laps (clock : Clock) (op : Operation) : Nat → Nat → Machine → List Operation
  | _, 0, _ => []
  | reading, count + 1, m =>
    let first := lap clock op reading m
    first ++ laps clock op (reading + 1) count (m.afterAll first)

theorem afterAll_append (m : Machine) (front back : List Operation) :
    m.afterAll (front ++ back) = (m.afterAll front).afterAll back :=
  List.foldl_append

theorem invites_lap {clock : Clock} {op : Operation} (own : op.invites = false) {reading : Nat}
    {m : Machine} : ∀ op' ∈ lap clock op reading m, op'.invites = false := by
  unfold lap
  simp only [List.forall_mem_cons, List.not_mem_nil]
  exact ⟨rfl, own, by simp⟩

theorem invites_laps {clock : Clock} {op : Operation} (own : op.invites = false) {reading count : Nat}
    {m : Machine} : ∀ op' ∈ laps clock op reading count m, op'.invites = false := by
  induction count generalizing reading m with
  | zero => exact List.forall_mem_nil _
  | succ count ih =>
    unfold laps
    rw [List.forall_mem_append]
    exact ⟨invites_lap own, ih⟩

/-! ## Sessions in which time passes -/

/-- A session takes a line, from one number of readings to another. -/
inductive TakesLine (clock : Clock) (read : Reader) (line : List Byte) (reading : Nat) (s : Session) :
    Nat → List Operation → Session → Prop where
  | whole (other : ∀ count, command? line ≠ some (.step count)) :
      TakesLine clock read line reading s (reading + 1) (lap clock (.debug read line) reading s.machine)
        ({ s with machine := atReading clock reading s.machine }.feed read line)
  /-- The clock is read before each step and before the service at the end. -/
  | stepwise {count taken : Nat} {stepped : Machine} (asked : command? line = some (.step count))
      (within : taken ≤ count)
      (ran : stepped = s.machine.afterAll (laps clock (.steps 1) reading taken s.machine))
      (stopped : taken < count → stepped.fault.isSome) :
      TakesLine clock read line reading s (reading + taken + 1)
        (laps clock (.steps 1) reading taken s.machine ++
          lap clock .service (reading + taken) stepped)
        (s.proceed (Debugger.faultText stepped) (atReading clock (reading + taken) stepped))

inductive Converses (clock : Clock) (read : Reader) :
    Nat → Session → List (List Byte) → List Operation → Session → Prop where
  | ended {reading : Nat} {s : Session} {lines : List (List Byte)} (finished : s.ending.isSome) :
      Converses clock read reading s lines [] s
  | closed {reading : Nat} {s : Session} (opened : s.ending = none) :
      Converses clock read reading s [] [] s.finish
  | line {reading later : Nat} {s next last : Session} {line : List Byte}
      {lines : List (List Byte)} {ops ops' : List Operation} (opened : s.ending = none)
      (takes : TakesLine clock read line reading s later ops next)
      (rest : Converses clock read later next lines ops' last) :
      Converses clock read reading s (line :: lines) (ops ++ ops') last

section

variable {clock : Clock} {read : Reader} {line : List Byte} {reading later : Nat}
  {s next last : Session} {ops : List Operation} {lines : List (List Byte)}

theorem TakesLine.invites (takes : TakesLine clock read line reading s later ops next) :
    ∀ op ∈ ops, op.invites = false := by
  cases takes with
  | whole other => exact invites_lap rfl
  | stepwise =>
    rw [List.forall_mem_append]
    exact ⟨invites_laps rfl, invites_lap rfl⟩

theorem TakesLine.machine_eq (takes : TakesLine clock read line reading s later ops next)
    (opened : s.ending = none) (single : Text.lines line = [line]) :
    next.machine = s.machine.afterAll ops := by
  cases takes with
  | whole other =>
    rw [Debugger.Session.machine_feed read (by exact opened)]
    exact (Debugger.Session.machine_run_of_line read _ single).symm
  | stepwise asked within ran stopped =>
    rw [afterAll_append, ← ran]
    rfl

theorem ofLine_of_command? {c : Command} (asked : command? line = some c) :
    ∃ text, Text.decode? line = some text ∧ Command.ofLine text = .ok (some c) := by
  unfold command? at asked
  split at asked
  · next c' parsed =>
    cases asked
    exact Option.map_eq_some_iff.1 parsed
  · cases asked

theorem TakesLine.left (takes : TakesLine clock read line reading s later ops next)
    (opened : s.ending = none) : Left line next := by
  cases takes with
  | whole other => exact Debugger.Session.left_feed read (by exact opened) line
  | stepwise asked =>
    obtain ⟨text, decodes, told⟩ := ofLine_of_command? asked
    refine .opened text decodes ?_ opened
    rw [Command.head?_words_of_ofLine told]
    simp [Command.name]

theorem TakesLine.output (takes : TakesLine clock read line reading s later ops next) :
    ∃ rest, next.output = s.output ++ rest := by
  cases takes with
  | whole other => exact Debugger.Session.output_feed read _ line
  | stepwise =>
    unfold Debugger.Session.proceed
    exact ⟨_, String.append_assoc ..⟩

theorem Converses.invites (converses : Converses clock read reading s lines ops last) :
    ∀ op ∈ ops, op.invites = false := by
  induction converses with
  | ended | closed => exact List.forall_mem_nil _
  | line opened takes rest ih =>
    rw [List.forall_mem_append]
    exact ⟨takes.invites, ih⟩

theorem Converses.machine_eq (converses : Converses clock read reading s lines ops last)
    (single : ∀ line ∈ lines, Text.lines line = [line]) :
    last.machine = s.machine.afterAll ops := by
  induction converses with
  | ended => rfl
  | closed => exact Debugger.Session.machine_finish _
  | line opened takes rest ih =>
    rw [List.forall_mem_cons] at single
    rw [ih single.2, takes.machine_eq opened single.1, afterAll_append]

theorem Converses.output (converses : Converses clock read reading s lines ops last) :
    ∃ rest, last.output = s.output ++ rest := by
  induction converses with
  | ended => exact ⟨"", (String.append_empty).symm⟩
  | closed opened =>
    unfold Debugger.Session.finish
    rw [opened]
    exact ⟨_, rfl⟩
  | line opened takes rest ih =>
    obtain ⟨first, output⟩ := takes.output
    obtain ⟨more, outputs⟩ := ih
    exact ⟨first ++ more, by rw [outputs, output, String.append_assoc]⟩

theorem Converses.ending (converses : Converses clock read reading s lines ops last)
    (opened : s.ending = none) :
    last.ending = some .notText ∧ Breaks lines ∨ last.ending = some .done ∧ ¬ Breaks lines := by
  induction converses with
  | ended finished => simp [opened] at finished
  | closed =>
    right
    refine ⟨by simp [Debugger.Session.finish, Debugger.Session.leave, opened], ?_⟩
    rintro ⟨front, line, back, split, -⟩
    simp at split
  | line _ takes rest ih =>
    rw [Debugger.breaks_cons]
    rcases takes.left opened with ⟨undecoded, ending⟩ | ⟨text, decodes, exits, ending⟩ |
      ⟨text, decodes, stays, ending⟩
    · left
      cases rest with
      | ended => exact ⟨ending, Or.inl undecoded⟩
      | closed open' | line open' => simp [ending] at open'
    · right
      cases rest with
      | ended => exact ⟨ending, by simp [decodes, exits]⟩
      | closed open' | line open' => simp [ending] at open'
    · simpa [decodes, stays] using ih ending

end

/-! ## The program on a script -/

theorem run_bind {α β : Type} (x : StateM Script α) (f : α → StateM Script β) (s : Script) :
    (x >>= f).run s = (f (x.run s).1).run (x.run s).2 := rfl

section

variable (read : Reader) (entropy : UInt64) {clock : Clock} {m : Machine} {script : Script}

theorem run_operate_succ (bound : Nat) :
    (operate (.scripted read entropy clock) (bound + 1) m).run script =
      match Machine.runFor 1 (atReading clock script.readings m) with
      | (some reason, last) => (some (reason, last), script.read)
      | (none, next) => (operate (.scripted read entropy clock) bound next).run script.read := by
  have split : (operate (.scripted read entropy clock) (bound + 1) m).run script =
      (match Machine.runFor 1 (atReading clock script.readings m) with
        | (some reason, last) => pure (some (reason, last))
        | (none, next) => operate (.scripted read entropy clock) bound next :
        StateM Script _).run script.read := rfl
  rw [split]
  rcases Machine.runFor 1 (atReading clock script.readings m) with ⟨_ | reason, last⟩ <;> rfl

theorem runFor_atReading_of_fault {f : Fault} (faulty : m.fault = some f) (reading : Nat) :
    Machine.runFor 1 (atReading clock reading m) = (some (.fault f), atReading clock reading m) :=
  Machine.runFor_of_fault (by exact faulty) 0

theorem runFor_atReading_of_sound (alone : m.Alone) (sound : m.fault = none) (reading : Nat) :
    Machine.runFor 1 (atReading clock reading m) = (none, (atReading clock reading m).step) := by
  have alone : (atReading clock reading m).Alone := alone.advanceClock _
  rw [alone.runFor_one, show (atReading clock reading m).fault = none from sound]

theorem run_operate_of_fault {f : Fault} (faulty : m.fault = some f) (bound : Nat) :
    (operate (.scripted read entropy clock) (bound + 1) m).run script =
      (some (.fault f, atReading clock script.readings m), script.read) := by
  rw [run_operate_succ, runFor_atReading_of_fault faulty]

theorem run_operate_of_sound (alone : m.Alone) (sound : m.fault = none) (bound : Nat) :
    (operate (.scripted read entropy clock) (bound + 1) m).run script =
      (operate (.scripted read entropy clock) bound (atReading clock script.readings m).step).run
        script.read := by
  rw [run_operate_succ, runFor_atReading_of_sound alone sound]

theorem lap_run_of_fault {f : Fault} (faulty : m.fault = some f) (reading : Nat) :
    m.afterAll (lap clock (.run 1) reading m) = atReading clock reading m :=
  congrArg Prod.snd (runFor_atReading_of_fault faulty reading)

theorem lap_run_of_sound (alone : m.Alone) (sound : m.fault = none) (reading : Nat) :
    m.afterAll (lap clock (.run 1) reading m) = (atReading clock reading m).step :=
  congrArg Prod.snd (runFor_atReading_of_sound alone sound reading)

theorem run_operate_of_some {bound : Nat} {h : Halt} {last : Machine} {left : Script}
    (alone : m.Alone) (told : m.AtFault)
    (ended : (operate (.scripted read entropy clock) bound m).run script = (some (h, last), left)) :
    ∃ f, ∃ count ≤ bound, h = .fault f ∧ last.fault = some f ∧ last.AtFault ∧
      last = m.afterAll (laps clock (.run 1) script.readings count m) ∧
      left = ⟨script.readings + count, script.lines⟩ := by
  induction bound generalizing m script with
  | zero => cases ended
  | succ bound ih =>
    cases faulty : m.fault with
    | some f =>
      rw [run_operate_of_fault read entropy faulty] at ended
      cases ended
      exact ⟨f, 1, by omega, rfl, faulty, told, (lap_run_of_fault faulty _).symm, rfl⟩
    | none =>
      rw [run_operate_of_sound read entropy alone faulty] at ended
      obtain ⟨f, count, within, rfl, recorded, there, ran, spent⟩ :=
        ih (alone.advanceClock _).step (Machine.atFault_step faulty) ended
      refine ⟨f, count + 1, by omega, rfl, recorded, there, ?_, ?_⟩
      · unfold laps
        rw [afterAll_append, lap_run_of_sound alone faulty]
        exact ran
      · rw [spent]
        simp [Script.read]
        omega

theorem run_operate_of_none {bound : Nat} {left : Script} (alone : m.Alone)
    (ended : (operate (.scripted read entropy clock) bound m).run script = (none, left)) :
    ∀ count < bound, (m.afterAll (laps clock (.run 1) script.readings count m)).fault = none := by
  induction bound generalizing m script with
  | zero => exact fun count below => absurd below (Nat.not_lt_zero count)
  | succ bound ih =>
    cases faulty : m.fault with
    | some f =>
      rw [run_operate_of_fault read entropy faulty] at ended
      cases ended
    | none =>
      rw [run_operate_of_sound read entropy alone faulty] at ended
      rintro (_ | count) below
      · exact faulty
      · unfold laps
        rw [afterAll_append, lap_run_of_sound alone faulty]
        exact ih (alone.advanceClock _).step ended count (Nat.lt_of_succ_lt_succ below)

theorem run_steps (count : Nat) :
    ∃ taken ≤ count, ∃ last,
      (steps (.scripted read entropy clock) count m).run script =
          (last, ⟨script.readings + taken, script.lines⟩) ∧
        last = m.afterAll (laps clock (.steps 1) script.readings taken m) ∧
        (taken < count → last.fault.isSome) := by
  induction count generalizing m script with
  | zero => exact ⟨0, Nat.le_refl 0, m, rfl, rfl, fun below => absurd below (Nat.lt_irrefl 0)⟩
  | succ count ih =>
    unfold steps
    split
    · next stopped => exact ⟨0, Nat.zero_le _, m, rfl, rfl, fun _ => stopped⟩
    · next sound =>
      obtain ⟨taken, within, last, left, ran, stops⟩ :=
        @ih (atReading clock script.readings m).step script.read
      have first : m.afterAll (lap clock (.steps 1) script.readings m) =
          (atReading clock script.readings m).step := if_neg sound
      refine ⟨taken + 1, by omega, last, ?_, ?_, fun below => stops (by omega)⟩
      · refine left.trans ?_
        rw [Nat.add_comm taken 1, ← Nat.add_assoc]
        rfl
      · unfold laps
        rw [afterAll_append, first]
        exact ran

theorem run_readerFor (clock : Clock) (script : Script) (line : List Byte) :
    ∃ known : Reader, (readerFor (.scripted read entropy clock) line).run script = (known, script) ∧
      ∀ path, command? line = some (.rom path) → known path = read path := by
  unfold readerFor
  split
  · next path asked =>
    refine ⟨fun _ => read path, rfl, ?_⟩
    intro path' same
    cases asked.symm.trans same
    rfl
  · next other => exact ⟨_, rfl, fun path asked => absurd asked (other path)⟩

theorem run_take (clock : Clock) (script : Script) (s : Session) (line : List Byte) :
    ∃ later ops next, (take (.scripted read entropy clock) s line).run script =
        (next, ⟨later, script.lines⟩) ∧
      TakesLine clock read line script.readings s later ops next := by
  unfold take
  split
  · next count asked =>
    obtain ⟨taken, within, stepped, left, ran, stopped⟩ :=
      @run_steps read entropy clock s.machine script count
    refine ⟨_, _, _, ?_, .stepwise asked within ran stopped⟩
    rw [run_bind, left]
    rfl
  · next other =>
    obtain ⟨known, left, knows⟩ := run_readerFor read entropy clock script line
    refine ⟨_, _, _, ?_, .whole other⟩
    rw [run_bind, left]
    refine congrArg (·, script.read) (Debugger.Session.feed_congr ?_)
    intro text path decodes told
    apply knows
    unfold command?
    rw [decodes, Option.map_some, told]

theorem run_converse (clock : Clock) {bound reading : Nat} {s : Session} {lines : List (List Byte)}
    (enough : lines.length < bound) (filled : ∀ line ∈ lines, line ≠ []) :
    ∃ last ops, ((converse (.scripted read entropy clock) bound s).run ⟨reading, lines⟩).1 =
        some last ∧
      Converses clock read reading s lines ops last := by
  induction bound generalizing reading s lines with
  | zero => exact absurd enough (Nat.not_lt_zero _)
  | succ bound ih =>
    rcases s with ⟨machine, output, _ | ending⟩
    · rcases lines with _ | ⟨_ | ⟨byte, line⟩, lines⟩
      · exact ⟨_, [], rfl, .closed rfl⟩
      · exact absurd rfl (filled [] (List.mem_cons_self ..))
      · rw [List.forall_mem_cons] at filled
        obtain ⟨later, ops, next, left, takes⟩ :=
          run_take read entropy clock ⟨reading, lines⟩ ⟨machine, output, none⟩ (byte :: line)
        obtain ⟨last, ops', ended, rest⟩ :=
          @ih later next lines (Nat.lt_of_succ_lt_succ enough) filled.2
        refine ⟨last, ops ++ ops', ?_, .line rfl takes rest⟩
        rw [← ended]
        show ((take (.scripted read entropy clock) ⟨machine, output, none⟩ (byte :: line) >>=
          converse (.scripted read entropy clock) bound).run ⟨reading, lines⟩).1 = _
        rw [run_bind, left]
    · exact ⟨_, [], rfl, .ended rfl⟩

end

/-! ## Ways through the program -/

/-- There is a ROM or the wish to debug, and a ROM can be read. -/
def CanStart (o : Options) (read : Reader) : Prop :=
  (o.rom = none → o.debug) ∧ ∀ path, o.rom = some path → ∃ bytes, read path = .ok bytes

structure Fresh (m : Machine) : Prop where
  alone : m.Alone
  pc : m.pc = .start
  sound : m.fault = none

theorem Fresh.announce {m : Machine} (fresh : Fresh m) (o : Options) : Fresh (announce o m) := by
  unfold CommandLine.announce
  split
  · exact fresh
  · exact ⟨⟨fresh.alone.headless, fresh.alone.opened⟩, fresh.pc, fresh.sound⟩

theorem Fresh.atFault {m : Machine} (fresh : Fresh m) : m.AtFault := by
  intro f faulty
  rw [fresh.sound] at faulty
  cases faulty

theorem Fresh.prompt {m : Machine} (fresh : Fresh m) : prompt m = "200> " := by
  unfold Debugger.prompt
  rw [fresh.pc]
  rfl

theorem prompt_of_atFault {m : Machine} {f : Fault} (told : m.AtFault) (faulty : m.fault = some f) :
    prompt m = Numeral.hex 3 ((f.address.val + 2) % 4096) ++ "> " := by
  unfold Debugger.prompt
  rw [(told f faulty).2.2]
  rfl

section

variable {o : Options} {read : Reader} (entropy : UInt64) (clock : Clock) (script : Script)

theorem run_boot_of_usage (romless : o.rom = none) (running : o.debug = false) :
    (boot (.scripted read entropy clock) o).run script = (.error .usage, script) := by
  unfold boot
  rw [romless, running]
  rfl

theorem run_boot_of_rom (read : Reader) {path : String} (rom : o.rom = some path) :
    (boot (.scripted read entropy clock) o).run script =
      (match read path with
        | .error cause => .error (.rom ⟨path, cause⟩)
        | .ok bytes =>
          .ok (Debugger.loadFile (.start (o.settings entropy) (clock.reading script.readings)) path
            bytes), script.read) := by
  have split : (boot (.scripted read entropy clock) o).run script =
      (match read path with
        | .error cause => pure (.error (.rom ⟨path, cause⟩))
        | .ok bytes =>
          pure (.ok (Debugger.loadFile
            (.start (o.settings entropy) (clock.reading script.readings)) path bytes)) :
        StateM Script _).run script.read := by
    unfold boot
    rw [rom]
    rfl
  rw [split]
  rcases read path with cause | bytes <;> rfl

theorem run_boot_of_canStart (can : CanStart o read) :
    ∃ ready, (boot (.scripted read entropy clock) o).run script = (.ok ready, script.read) ∧
      Fresh ready := by
  cases rom : o.rom with
  | none =>
    unfold boot
    rw [rom, can.1 rom]
    exact ⟨_, rfl, ⟨rfl, rfl⟩, rfl, rfl⟩
  | some path =>
    obtain ⟨bytes, readable⟩ := can.2 path rom
    rw [run_boot_of_rom entropy clock script read rom, readable]
    exact ⟨_, rfl, ⟨rfl, rfl⟩, rfl, rfl⟩

end

/-- How the debugger is entered that `m` is left to, and after how many readings of the clock: at once,
or after a run that put a fault on record. -/
inductive Enters (clock : Clock) (bound : Nat) (debug : Bool) (m : Machine) : Nat → Machine → Prop where
  | atOnce (wanted : debug) (first : prompt m = "200> ") : Enters clock bound debug m 1 m
  | afterRun {f : Fault} {count : Nat} {entered last : Machine} (unwanted : debug = false)
      (within : count ≤ bound) (ran : last = m.afterAll (laps clock (.run 1) 1 count m))
      (warned : entered = last.report [.debugging (.fault f)])
      (unseen : ∀ t ∈ m.history (laps clock (.run 1) 1 count m),
        t.before.frontend = none ∧ t.after.frontend = none)
      (recorded : entered.fault = some f) (undecoded : Instruction.decode? f.word = none)
      (word : entered.memory.readWord f.address = f.word)
      (first : prompt entered = Numeral.hex 3 ((f.address.val + 2) % 4096) ++ "> ") :
      Enters clock bound debug m (1 + count) entered

section

variable {bound : Nat} {o : Options} {read : Reader} {entropy : UInt64} {clock : Clock}
  {input : List Byte} {left : Script}

theorem play_of_error {failure : Failure}
    (booted : (boot (.scripted read entropy clock) o).run ⟨0, Text.lines input⟩ =
      (.error failure, left)) :
    play bound o read entropy clock input = (some { failure := some failure }, left) := by
  unfold play program
  rw [run_bind, booted]
  rfl

theorem play_of_booted (bound : Nat) {ready : Machine}
    (booted : (boot (.scripted read entropy clock) o).run ⟨0, Text.lines input⟩ = (.ok ready, left)) :
    play bound o read entropy clock input =
      (if o.debug then
        debug (.scripted read entropy clock) ((Text.lines input).length + 1) (announce o ready)
      else
        operate (.scripted read entropy clock) bound (announce o ready) >>=
          afterRun (.scripted read entropy clock) ((Text.lines input).length + 1)).run left := by
  unfold play program
  rw [run_bind, booted]

theorem play_of_ok (bound : Nat) {ready : Machine} {rest : List (List Byte)}
    (booted : (boot (.scripted read entropy clock) o).run ⟨0, Text.lines input⟩ =
      (.ok ready, ⟨1, rest⟩))
    (fresh : Fresh (announce o ready)) :
    (o.debug = false ∧ (play bound o read entropy clock input).1 = none ∧
        ∀ count < bound, ((announce o ready).afterAll
          (laps clock (.run 1) 1 count (announce o ready))).fault = none) ∨
      ∃ later entered, Enters clock bound o.debug (announce o ready) later entered ∧ entered.Alone ∧
        play bound o read entropy clock input =
          (debug (.scripted read entropy clock) ((Text.lines input).length + 1) entered).run
            ⟨later, rest⟩ := by
  rw [play_of_booted bound booted]
  cases wanted : o.debug with
  | true => exact Or.inr ⟨1, _, .atOnce rfl fresh.prompt, fresh.alone, rfl⟩
  | false =>
    rw [if_neg Bool.false_ne_true, run_bind]
    rcases ended : (operate (.scripted read entropy clock) bound (announce o ready)).run ⟨1, rest⟩
      with ⟨_ | ⟨h, last⟩, left⟩
    · exact Or.inl ⟨rfl, rfl, run_operate_of_none read entropy fresh.alone ended⟩
    · obtain ⟨f, count, within, rfl, recorded, told, ran, rfl⟩ :=
        run_operate_of_some read entropy fresh.alone fresh.atFault ended
      obtain ⟨undecoded, word, -⟩ := told f recorded
      have alone : last.Alone := by
        rw [ran]
        exact fresh.alone.afterAll (invites_laps rfl)
      exact Or.inr ⟨1 + count, last.report [.debugging (.fault f)],
        .afterRun rfl within ran rfl (fresh.alone.history (invites_laps rfl)) recorded undecoded word
          (prompt_of_atFault told recorded),
        ⟨alone.headless, alone.opened⟩, rfl⟩

theorem run_debug (later : Nat) (entered : Machine) :
    ∃ last ops, ((debug (.scripted read entropy clock) ((Text.lines input).length + 1) entered).run
        ⟨later, Text.lines input⟩).1 = some (.ofSession last) ∧
      Converses clock read later (.start entered) (Text.lines input) ops last := by
  obtain ⟨last, ops, ended, converses⟩ :=
    run_converse read entropy clock (Nat.lt_succ_self (Text.lines input).length)
      (fun _ => Text.ne_nil_of_mem_lines)
  refine ⟨last, ops, ?_, converses⟩
  unfold debug
  rw [run_bind]
  exact congrArg (Option.map Outcome.ofSession) ended

end

/-- A program that sets the delay and waits for it to run out, and then comes to a word that is no
instruction. -/
def delayRom : List Byte :=
  [0x60, 0x05, 0xF0, 0x15, 0xF0, 0x07, 0x30, 0x00, 0x12, 0x04, 0xFF, 0xFF]

def delayed : Machine :=
  announce { rom := some "rom" } (Debugger.loadFile (.start {} 0) "rom" delayRom)

/-- With the clock at rest the delay does not run out. -/
example : (run 14 { rom := some "rom" } (fun _ => .ok delayRom) 0 0 [0xFF]).isNone := by
  decide +kernel

end CommandLine

end Chip8
