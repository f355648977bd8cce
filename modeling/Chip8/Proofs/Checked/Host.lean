import Chip8.Operation
import Chip8.Proofs.Checked.Step

/-!
# Calls of a host

Each way in which a host can change a machine, with addresses that are any words. No list of calls
on a machine that was just made leaves the range or fails. Main statement: `reach_inRange`.
-/

namespace Chip8.Checked

open Debugger (Command Session Reply)

namespace Bare

/-! ## Loading -/

def start (settings : Settings) (now : Nat) : Option Bare := do
  let memory ← writeAll .blank 0x050 Font.sheet
  some {
    pc := 0x200, index := 0, depth := 0, slots := .replicate 16 0
    rest := { Machine.start settings now with memory := memory } }

def restart (b : Bare) : Bare :=
  { b with pc := 0x200, rest := b.rest.restart }

def loadWords (b : Bare) (words : List Word) : Option Bare := do
  let memory ← writeWords b.rest.memory 0x200 words
  let loaded := { b with rest := { b.rest with memory := memory } }
  some (loaded.report [.wordsLoaded words.length]).restart

def loadRom (b : Bare) (rom : List Byte) : Option Bare := do
  let memory ← copyTo b.rest.memory 0x200 (Memory.fitting rom)
  let loaded := { b with rest := { b.rest with memory := memory } }
  some (loaded.report (Notice.ofRom rom ++ [.romLoaded (Memory.fitting rom).length])).restart

theorem start_spec (settings : Settings) (now : Nat) :
    Shows (start settings now) (.start settings now) := by
  unfold start
  rw [writeAll_spec]
  refine .of_inRange ⟨?_, ?_, Nat.zero_le 16, ?_⟩ rfl
  · show (0x200 : Word) ≤ 0xFFF
    decide
  · show (0 : Word) ≤ 0xFFF
    decide
  · intro w member
    rw [Vector.toList_replicate] at member
    rw [List.eq_of_mem_replicate member]
    decide

theorem restart_spec {b : Bare} (inside : b.InRange) : Shows (some b.restart) b.view.restart := by
  have small : (0x200 : Word) ≤ 0xFFF := by decide
  exact .of_inRange ⟨small, inside.index, inside.depth, inside.slots⟩ rfl

theorem loadWords_spec {b : Bare} (inside : b.InRange) (words : List Word) :
    Shows (b.loadWords words) (b.view.loadWords words) := by
  unfold loadWords
  rw [writeWords_spec]
  exact restart_spec (inside.onto _)

theorem length_fitting_le (rom : List Byte) : 0x200 + (Memory.fitting rom).length ≤ 4096 := by
  have bound := Memory.length_fitting_le rom
  have room : Memory.room = 4096 - 0x200 := rfl
  omega

theorem loadRom_spec {b : Bare} (inside : b.InRange) (rom : List Byte) :
    Shows (b.loadRom rom) (b.view.loadRom rom) := by
  unfold loadRom
  rw [copyTo_spec _ _ _ (length_fitting_le rom)]
  exact restart_spec (inside.onto _)

/-! ## Sessions -/

def obeyed (read : Reader) (m : Machine) (c : Command) : Machine :=
  match c.run read m with
  | .error _ => m
  | .ok (_, after) => after

def loadFile (b : Bare) (path : String) : Except UnreadableRom (List Byte) → Option Bare
  | .error _ => some b
  | .ok rom => do
    let loaded ← b.loadRom rom
    some (loaded.report [.fileLoaded (Memory.fitting rom).length path])

def obey (b : Bare) (read : Reader) : Command → Option Bare
  | .set (.pc value) => some { b with pc := mask value }
  | .set (.index value) => some { b with index := mask value }
  | .step count => b.steps count
  | .stack => do
    let _ ← b.frames
    some b
  | .push address => b.push (mask address)
  | .pop => b.dropTop
  | .pixel x y => do
    let on ← lit b.rest.screen x y
    let screen ← set b.rest.screen x y !on
    some { b with rest := b.rest.changeScreen fun _ => screen }
  | .rom path => b.loadFile path (read.rom path)
  | c => some { b with rest := obeyed read b.rest c }

def feedAll (read : Reader) : List (List Byte) → Bare → Option Bare
  | [], b => some b
  | line :: lines, b =>
    match Text.decode? line with
    | none => some b
    | some text =>
      match Command.ofLine text with
      | .error _ | .ok none => feedAll read lines b.service
      | .ok (some .exit) => some b
      | .ok (some c) => do
        let after ← b.obey read c
        feedAll read lines after.service

theorem obeyed_rom (read : Reader) (m : Machine) (path : String) :
    obeyed read m (.rom path) =
      match read.rom path with
      | .error _ => m
      | .ok rom => Debugger.loadFile m path rom := by
  simp only [obeyed, Command.run]
  cases read.rom path <;> rfl

theorem obeyed_openWindow (read : Reader) (m : Machine) : obeyed read m (.window true) = m := by
  simp only [obeyed, Command.run]
  cases m.hasFrontend <;> rfl

theorem loadFile_spec {b : Bare} (inside : b.InRange) (path : String)
    (outcome : Except UnreadableRom (List Byte)) :
    Shows (b.loadFile path outcome)
      (match outcome with
      | .error _ => b.view
      | .ok rom => Debugger.loadFile b.view path rom) := by
  cases outcome with
  | error _ => exact .of_inRange inside rfl
  | ok rom =>
    refine (loadRom_spec inside rom).bind ?_
    intro loaded inside' shown
    exact .of_inRange (inside'.onto _)
      (congrArg (Machine.report · [.fileLoaded (Memory.fitting rom).length path]) shown)

theorem obey_spec {b : Bare} (inside : b.InRange) (read : Reader) (c : Command) :
    Shows (b.obey read c) (obeyed read b.view c) := by
  cases c with
  | set assignment =>
    cases assignment with
    | pc value => exact setPc_spec inside value
    | index value => exact setIndex_spec inside value
    | lastRandom _ | delay _ | sound _ | register _ _ => exact .of_inRange (inside.onto _) rfl
  | step count => exact steps_spec count inside
  | stack =>
    show Shows (b.frames.bind fun _ => some b) b.view
    rw [frames_spec inside]
    exact .of_inRange inside rfl
  | push address => exact pushMasked_spec inside address
  | pop => exact dropTop_spec inside
  | pixel x y =>
    show Shows ((lit b.rest.screen x y).bind fun on => (set b.rest.screen x y !on).bind fun screen =>
      some { b with rest := b.rest.changeScreen fun _ => screen }) _
    rw [lit_spec, Option.bind_some, set_spec]
    exact .of_inRange (inside.onto _) rfl
  | rom path =>
    rw [obeyed_rom]
    exact loadFile_spec inside path (read.rom path)
  | window opened =>
    cases opened with
    | true =>
      refine .of_inRange (inside.onto _) ?_
      rw [obeyed_openWindow, obeyed_openWindow]
    | false => exact .of_inRange (inside.onto _) rfl
  | press key => cases key <;> exact .of_inRange (inside.onto _) rfl
  | registers | memory _ _ | listing _ _ | random | display | clear | fill | help | exit =>
    exact .of_inRange (inside.onto _) rfl

theorem take_of_command {read : Reader} {s : Session} {text : String} {c : Command}
    (parsed : Command.ofLine text = .ok (some c)) (staying : c ≠ .exit) :
    (s.take read text).machine = (obeyed read s.machine c).service ∧
      (s.take read text).ending = s.ending := by
  rw [Session.take, Debugger.reply_of_command parsed staying, obeyed]
  cases c.run read s.machine <;> exact ⟨rfl, rfl⟩

theorem feedAll_cons_of_command {read : Reader} {line : List Byte} {text : String} {c : Command}
    (decoded : Text.decode? line = some text) (parsed : Command.ofLine text = .ok (some c))
    (staying : c ≠ .exit) (lines : List (List Byte)) (b : Bare) :
    feedAll read (line :: lines) b =
      (b.obey read c).bind fun after => feedAll read lines after.service := by
  simp only [feedAll, decoded, parsed]
  rfl

theorem feedAll_spec (read : Reader) (lines : List (List Byte)) {b : Bare} (inside : b.InRange)
    {s : Session} (opened : s.ending = none) (shown : s.machine = b.view) :
    Shows (feedAll read lines b) (s.feedAll read lines).machine := by
  induction lines generalizing b s with
  | nil => exact .of_inRange inside shown.symm
  | cons line lines ih =>
    show Shows _ (Session.feedAll read (s.feed read line) lines).machine
    unfold Session.feed
    rw [opened, if_neg (by decide)]
    cases decoded : Text.decode? line with
    | none =>
      rw [Session.feedAll_of_ended read rfl]
      simp only [feedAll, decoded]
      exact .of_inRange inside shown.symm
    | some text =>
      show Shows _ (Session.feedAll read (s.take read text) lines).machine
      -- A line without a command only services the peripherals.
      have idle : ∀ answer, Shows (feedAll read lines b.service)
          (Session.feedAll read (s.proceed answer s.machine) lines).machine := by
        intro answer
        refine ih (inside.onto _) opened ?_
        show s.machine.service = b.service.view
        rw [shown]
        exact service_onto b b.rest
      cases parsed : Command.ofLine text with
      | error e =>
        simp only [feedAll, decoded, parsed, Session.take, Debugger.reply]
        exact idle _
      | ok command =>
        cases command with
        | none =>
          simp only [feedAll, decoded, parsed, Session.take, Debugger.reply]
          exact idle _
        | some c =>
          by_cases leaving : c = .exit
          · subst leaving
            have left : s.take read text = s.leave := by
              simp only [Session.take, Debugger.reply, parsed]
            rw [left, Session.feedAll_of_ended read rfl]
            simp only [feedAll, decoded, parsed]
            exact .of_inRange inside shown.symm
          · obtain ⟨machine, ending⟩ := @take_of_command read s text c parsed leaving
            rw [feedAll_cons_of_command decoded parsed leaving]
            refine (obey_spec inside read c).bind ?_
            intro after inside' shown'
            refine ih (inside'.onto _) (ending.trans opened) ?_
            rw [machine, shown, ← shown']
            exact service_onto after after.rest

end Bare

/-! ## Calls -/

/-- What a host asks of a machine. -/
inductive Call where
  | loadWords (words : List Word)
  | loadRom (rom : List Byte)
  | write (a : Word) (b : Byte)
  | writeWord (a w : Word)
  | setRegister (x : Register) (b : Byte)
  | setPc (a : Word)
  | setIndex (a : Word)
  | setDelay (b : Byte)
  | setSound (b : Byte)
  | setLastRandom (b : Byte)
  | push (a : Word)
  | pop
  | drawRandom
  | changeScreen (change : Screen → Screen)
  | press (k : Key)
  | release (k : Key)
  | clearKeys
  | attach (f : Frontend)
  | detach
  | requestClose
  | observeClose
  | advanceClock (elapsed : Nat)
  | fetch
  | step
  | steps (n : Nat)
  | run (bound : Nat)
  | service
  | debug (read : Reader) (input : List Byte)

def Call.operation : Call → Operation
  | loadWords words => .loadWords words
  | loadRom rom => .loadRom rom
  | write a b => .write a.address b
  | writeWord a w => .writeWord a.address w
  | setRegister x b => .setRegister x b
  | setPc a => .setPc a.address
  | setIndex a => .setIndex a.address
  | setDelay b => .setDelay b
  | setSound b => .setSound b
  | setLastRandom b => .setLastRandom b
  | push a => .push a.address
  | pop => .pop
  | drawRandom => .drawRandom
  | changeScreen change => .changeScreen change
  | press k => .press k
  | release k => .release k
  | clearKeys => .clearKeys
  | attach f => .attach f
  | detach => .detach
  | requestClose => .requestClose
  | observeClose => .observeClose
  | advanceClock elapsed => .advanceClock elapsed
  | fetch => .fetch
  | step => .step
  | steps n => .steps n
  | run bound => .run bound
  | service => .service
  | debug read input => .debug read input

namespace Bare

/-- Answers a call. Those that name no address and no counter are left to the machine within. -/
def after (b : Bare) : Call → Option Bare
  | .loadWords words => b.loadWords words
  | .loadRom rom => b.loadRom rom
  | .write a byte => do
    let memory ← write b.rest.memory a byte
    some { b with rest := { b.rest with memory := memory } }
  | .writeWord a w => do
    let memory ← writeWord b.rest.memory a w
    some { b with rest := { b.rest with memory := memory } }
  | .setPc a => some { b with pc := mask a }
  | .setIndex a => some { b with index := mask a }
  | .push a => b.push (mask a)
  | .pop => b.dropTop
  | .fetch => do
    let (_, passed) ← b.fetch
    some passed
  | .step => b.step
  | .steps n => b.steps n
  | .run bound => b.runFor bound
  | .service => some b.service
  | .debug read input => feedAll read (Text.lines input) b
  | call => some { b with rest := b.rest.after call.operation }

def afterAll (b : Bare) : List Call → Option Bare
  | [] => some b
  | call :: calls => do
    let next ← b.after call
    next.afterAll calls

theorem after_spec {b : Bare} (inside : b.InRange) (call : Call) :
    Shows (b.after call) (b.view.after call.operation) := by
  cases call with
  | loadWords words => exact loadWords_spec inside words
  | loadRom rom => exact loadRom_spec inside rom
  | write a byte =>
    simp only [after, write_spec, Option.bind_eq_bind, Option.bind_some]
    exact .of_inRange (inside.onto _) rfl
  | writeWord a w =>
    simp only [after, writeWord_spec, Option.bind_eq_bind, Option.bind_some]
    exact .of_inRange (inside.onto _) rfl
  | setPc a => exact setPc_spec inside a
  | setIndex a => exact setIndex_spec inside a
  | push a => exact pushMasked_spec inside a
  | pop => exact dropTop_spec inside
  | fetch =>
    simp only [after, fetch_spec, Option.bind_eq_bind, Option.bind_some]
    exact passWord_spec inside
  | step => exact step_spec inside
  | steps n => exact steps_spec n inside
  | run bound => exact runFor_spec bound inside
  | service => exact service_spec inside
  | debug read input =>
    have fed := feedAll_spec read (Text.lines input) inside
      (show (Session.start b.view).ending = none from rfl) rfl
    rw [← Session.machine_finish] at fed
    exact fed
  | setRegister _ _ | setDelay _ | setSound _ | setLastRandom _ | drawRandom | changeScreen _
  | press _ | release _ | clearKeys | attach _ | detach | requestClose | observeClose
  | advanceClock _ => exact .of_inRange (inside.onto _) rfl

theorem afterAll_spec {b : Bare} (inside : b.InRange) (calls : List Call) :
    Shows (b.afterAll calls) (b.view.afterAll (calls.map Call.operation)) := by
  induction calls generalizing b with
  | nil => exact .of_inRange inside rfl
  | cons call calls ih =>
    refine (after_spec inside call).bind ?_
    intro next inside' shown
    have later := ih inside'
    rw [shown] at later
    exact later

/-- **No call leaves the range or fails.** Whatever a host asks of a machine that was just made, no
sum overflows and no index lies outside its array, both counters and every return address keep to
twelve bits, and the stack to sixteen frames. What is left is what the machine has. -/
theorem reach_inRange (settings : Settings) (now : Nat) (calls : List Call) :
    ∃ b : Bare, (start settings now).bind (afterAll · calls) = some b ∧
      b.pc ≤ 0xFFF ∧ b.index ≤ 0xFFF ∧ b.depth ≤ 16 ∧
      b.frames = some b.view.stack.frames ∧ (∀ w ∈ b.view.stack.frames, w ≤ 0xFFF) ∧
      b.view = (Machine.start settings now).afterAll (calls.map Call.operation) := by
  have reached : Shows ((start settings now).bind (afterAll · calls))
      ((Machine.start settings now).afterAll (calls.map Call.operation)) := by
    refine (start_spec settings now).bind ?_
    intro b inside shown
    rw [← shown]
    exact afterAll_spec inside calls
  obtain ⟨b, left, inside, shown⟩ := reached
  refine ⟨b, left, inside.pc, inside.index, inside.depth, frames_spec inside, ?_, shown⟩
  intro w live
  exact inside.slots w (List.mem_of_mem_take live)

end Bare

end Chip8.Checked
