import Mathlib.Data.List.Induction
import Chip8.Operation
import Chip8.Proofs.KeyWait

/-!
# Histories

An operation does one thing after the other: an action is one of these things, and the history of a
run lists its actions, each with the machine that it met. So a run can be asked about each service
inside a wait for a key and each instruction inside a session. Main statements:
`play_allActions`, `moments_induction`.
-/

namespace Chip8

def Operation.isSingle : Operation → Bool
  | .service | .observeClose | .step | .steps _ | .run _ | .debug _ _ => false
  | _ => true

inductive Action where
  | host (op : Operation) (single : op.isSingle)
  /-- A word is fetched and carried out, up to the wait that it may ask for. -/
  | issue
  | service
  | look
  /-- A wait for a key stores the key that it got. -/
  | store (x : Register) (k : Key)
  | note (notices : List Notice)

namespace Machine

/-! ## Actions -/

def awaited (m : Machine) : Option Register :=
  (Instruction.decode? m.nextWord).bind fun i => (m.fetched.toProcessor.execute i).awaits

def issue (m : Machine) : Machine :=
  match Instruction.decode? m.nextWord with
  | some i =>
    let effect := m.fetched.toProcessor.execute i
    { m.fetched with toProcessor := effect.processor }.report effect.notices
  | none => m.fetched.recordFault ⟨m.nextWord, m.pc⟩

theorem issue_of_decode {m : Machine} {i : Instruction}
    (next : Instruction.decode? m.nextWord = some i) :
    m.issue =
      { m.fetched with toProcessor := (m.fetched.toProcessor.execute i).processor }.report
        (m.fetched.toProcessor.execute i).notices := by
  unfold issue
  rw [next]

theorem issue_of_undecoded {m : Machine} (next : Instruction.decode? m.nextWord = none) :
    m.issue = m.fetched.recordFault ⟨m.nextWord, m.pc⟩ := by
  unfold issue
  rw [next]

theorem issue_of_handle {m : Machine} {e : Effect}
    (handled : m.fetched.toProcessor.handle? m.nextWord = some e) :
    m.issue = { m.fetched with toProcessor := e.processor }.report e.notices := by
  obtain ⟨i, next, rfl⟩ := Processor.exists_of_handle? handled
  exact issue_of_decode next

def act (m : Machine) : Action → Machine
  | .host op _ => m.after op
  | .issue => m.issue
  | .service => m.service
  | .look => m.observeClose
  | .store x k => m.setRegister x k.toByte
  | .note notices => m.report notices

def play (m : Machine) (actions : List Action) : Machine :=
  actions.foldl act m

theorem play_cons (m : Machine) (a : Action) (actions : List Action) :
    m.play (a :: actions) = (m.act a).play actions := rfl

theorem play_append (m : Machine) (front back : List Action) :
    m.play (front ++ back) = (m.play front).play back :=
  List.foldl_append

/-! ## The actions of a step -/

def pressActions (m : Machine) (x : Register) : List Action :=
  match m.keypad.lowest? with
  | some _ => []
  | none =>
    if _ : m.hasFrontend then
      .service :: .look :: if _ : m.turn.closing = false then m.turn.pressActions x else []
    else [.note [.waitSkipped x]]
termination_by m.pendingPolls
decreasing_by exact pendingPolls_service_lt ‹_› ‹_›

def releaseActions (m : Machine) (k : Key) : List Action :=
  if _ : m.hasFrontend ∧ m.keypad.isDown k then
    .service :: .look :: if _ : m.turn.closing = false then m.turn.releaseActions k else []
  else []
termination_by m.pendingPolls
decreasing_by exact pendingPolls_service_lt (And.left ‹_›) ‹_›

def waitActions (m : Machine) (x : Register) : List Action :=
  match m.awaitPress x with
  | (none, _) => m.pressActions x
  | (some k, pressed) =>
    m.pressActions x ++ .store x k ::
      match pressed.keyWait with
      | .press => []
      | .release => (pressed.setRegister x k.toByte).releaseActions k

def stepActions (m : Machine) : List Action :=
  .issue :: (match m.awaited with | none => [] | some x => m.issue.waitActions x) ++ [.service]

theorem pressActions_of_down {m : Machine} {k : Key} (down : m.keypad.lowest? = some k)
    (x : Register) : m.pressActions x = [] := by
  rw [pressActions, down]

theorem pressActions_of_attached {m : Machine} (idle : m.keypad.lowest? = none)
    (attached : m.hasFrontend) (x : Register) :
    m.pressActions x =
      .service :: .look :: if m.turn.closing = false then m.turn.pressActions x else [] := by
  rw [pressActions, idle]
  simp only [attached, dite_eq_ite, if_true]

theorem pressActions_of_headless {m : Machine} (idle : m.keypad.lowest? = none)
    (alone : m.hasFrontend = false) (x : Register) :
    m.pressActions x = [.note [.waitSkipped x]] := by
  rw [pressActions, idle]
  simp only [alone, Bool.false_eq_true, dite_false]

theorem releaseActions_of_attached {m : Machine} {k : Key} (attached : m.hasFrontend)
    (down : m.keypad.isDown k) :
    m.releaseActions k =
      .service :: .look :: if m.turn.closing = false then m.turn.releaseActions k else [] := by
  rw [releaseActions]
  simp only [attached, down, and_self, dite_eq_ite, if_true]

theorem releaseActions_of_up {m : Machine} {k : Key}
    (ends : ¬ (m.hasFrontend ∧ m.keypad.isDown k)) : m.releaseActions k = [] := by
  rw [releaseActions, dif_neg ends]

theorem play_pressActions (m : Machine) (x : Register) :
    m.play (m.pressActions x) = (m.awaitPress x).2 := by
  -- The actions are listed by the recursion of the wait itself.
  induction m using awaitPress.induct with
  | case1 m k down =>
    rw [awaitPress_of_down down, pressActions_of_down down]
    rfl
  | case2 m idle attached next opened ih =>
    replace opened : m.turn.closing = false := opened
    rw [awaitPress_of_attached idle attached, if_pos opened,
      pressActions_of_attached idle attached, if_pos opened]
    exact ih
  | case3 m idle attached next closed =>
    replace closed : ¬ m.turn.closing = false := closed
    rw [awaitPress_of_attached idle attached, if_neg closed,
      pressActions_of_attached idle attached, if_neg closed]
    rfl
  | case4 m idle alone =>
    replace alone : m.hasFrontend = false := by simpa using alone
    rw [awaitPress_of_headless idle alone, pressActions_of_headless idle alone]
    rfl

theorem play_releaseActions (m : Machine) (k : Key) :
    m.play (m.releaseActions k) = m.awaitRelease k := by
  induction m using awaitRelease.induct k with
  | case1 m down next opened ih =>
    replace opened : m.turn.closing = false := opened
    rw [awaitRelease_of_attached down.1 down.2, if_pos opened,
      releaseActions_of_attached down.1 down.2, if_pos opened]
    exact ih
  | case2 m down next closed =>
    replace closed : ¬ m.turn.closing = false := closed
    rw [awaitRelease_of_attached down.1 down.2, if_neg closed,
      releaseActions_of_attached down.1 down.2, if_neg closed]
    rfl
  | case3 m ends =>
    rw [awaitRelease_of_up ends, releaseActions_of_up ends]
    rfl

theorem play_waitActions (m : Machine) (x : Register) :
    m.play (m.waitActions x) = m.awaitKey x := by
  have pressing := m.play_pressActions x
  unfold waitActions awaitKey
  generalize m.awaitPress x = waited at pressing
  obtain ⟨_ | k, pressed⟩ := waited
  · exact pressing
  · simp only
    rw [play_append, pressing, play_cons]
    cases pressed.keyWait with
    | press => simp only; rfl
    | release => exact play_releaseActions _ k

theorem perform_eq_issue (m : Machine) :
    m.perform = match m.awaited with | none => m.issue | some x => m.issue.awaitKey x := by
  unfold perform issue awaited
  cases Instruction.decode? m.nextWord <;> rfl

/-- Registers apart, the core is what the word has left. -/
theorem step_eq_withCore (m : Machine) : ∃ v, m.step = m.step.withCore { m.issue with v := v } := by
  unfold step
  rw [perform_eq_issue, service_eq_withCore]
  cases m.awaited with
  | none => exact ⟨m.issue.v, rfl⟩
  | some x =>
    obtain ⟨v, core⟩ := m.issue.awaitKey_eq_withCore x
    refine ⟨v, ?_⟩
    simp only
    rw [core]
    rfl

theorem decode?_of_awaited {m : Machine} {x : Register} (waits : m.awaited = some x) :
    Instruction.decode? m.nextWord = some (.awaitKey x) := by
  unfold awaited at waits
  obtain ⟨i, next, asks⟩ := Option.bind_eq_some_iff.1 waits
  rw [next]
  cases i with
  | awaitKey y => exact congrArg (Option.map Instruction.awaitKey) asks
  | _ => cases asks

theorem awaited_eq_none {m : Machine}
    (other : ∀ x, Instruction.decode? m.nextWord ≠ some (.awaitKey x)) : m.awaited = none := by
  cases waits : m.awaited with
  | none => rfl
  | some x => exact absurd (decode?_of_awaited waits) (other x)

theorem step_of_unawaited {m : Machine} (waitless : m.awaited = none) :
    m.step = m.issue.service := by
  unfold step
  rw [perform_eq_issue, waitless]

theorem step_of_handle {m : Machine} {e : Effect}
    (handled : m.fetched.toProcessor.handle? m.nextWord = some e) (waitless : e.awaits = none) :
    m.step = ({ m.fetched with toProcessor := e.processor }.report e.notices).service := by
  have awaited : m.awaited = none := by
    obtain ⟨i, next, rfl⟩ := Processor.exists_of_handle? handled
    unfold Machine.awaited
    rw [next]
    exact waitless
  rw [step_of_unawaited awaited, issue_of_handle handled]

theorem play_stepActions (m : Machine) : m.play m.stepActions = m.step := by
  unfold stepActions step
  rw [perform_eq_issue, play_append, play_cons]
  cases m.awaited with
  | none => rfl
  | some x => exact congrArg service (m.issue.play_waitActions x)

/-! ## The actions of a run -/

def stepsActions : Nat → Machine → List Action
  | 0, _ => []
  | n + 1, m => if m.fault.isSome then [] else m.stepActions ++ stepsActions n m.step

def runActions : Nat → Machine → List Action
  | 0, _ => []
  | bound + 1, m =>
    if m.fault.isSome then []
    else
      .look :: if m.observeClose.closing then []
        else m.observeClose.stepActions ++ runActions bound m.observeClose.step

theorem play_stepsActions (n : Nat) (m : Machine) : m.play (stepsActions n m) = steps n m := by
  induction n generalizing m with
  | zero => rfl
  | succ n ih =>
    unfold stepsActions steps
    split
    · rfl
    · rw [play_append, play_stepActions]
      exact ih m.step

theorem play_runActions (bound : Nat) (m : Machine) :
    m.play (runActions bound m) = (runFor bound m).2 := by
  induction bound generalizing m with
  | zero => rfl
  | succ bound ih =>
    unfold runActions runFor
    cases m.fault with
    | some f => rfl
    | none =>
      simp only [Option.isSome_none, Bool.false_eq_true, if_false]
      rw [play_cons]
      show m.observeClose.play _ = _
      split
      · rfl
      · rw [play_append, play_stepActions]
        exact ih m.observeClose.step

end Machine

/-! ## The actions of a session -/

namespace Debugger

open Machine

def Assignment.actions : Assignment → List Action
  | pc value => [.host (.setPc value.address) rfl]
  | index value => [.host (.setIndex value.address) rfl]
  | lastRandom value => [.host (.setLastRandom value) rfl]
  | delay value => [.host (.setDelay value) rfl]
  | sound value => [.host (.setSound value) rfl]
  | register x value => [.host (.setRegister x value) rfl]

def Command.actions (c : Command) (read : Reader) (m : Machine) : List Action :=
  match c with
  | set assignment => assignment.actions
  | step count => stepsActions count m
  | push address => [.host (.push address.address) rfl]
  | pop => [.host .pop rfl]
  | random => [.host .drawRandom rfl]
  | press none => [.host .clearKeys rfl]
  | press (some k) => [.host .clearKeys rfl, .host (.press k) rfl]
  | window false => [.host .detach rfl]
  | clear => [.host (.changeScreen fun _ => .blank) rfl]
  | fill => [.host (.changeScreen fun _ => .filled) rfl]
  | pixel x y => [.host (.changeScreen fun s => s.toggle x y) rfl]
  | rom path =>
    match read.rom path with
    | .error _ => []
    | .ok bytes =>
      [.host (.loadRom bytes) rfl, .note [.fileLoaded (Memory.fitting bytes).length path]]
  | registers | memory _ _ | listing _ _ | stack | display | window true | help | exit => []

def lineActions (read : Reader) (m : Machine) (line : String) : List Action :=
  match Command.ofLine line with
  | .ok (some c) => c.actions read m
  | _ => []

def sessionActions (read : Reader) : List (List Byte) → Machine → List Action
  | [], _ => []
  | line :: lines, m =>
    match Text.decode? line with
    | none => []
    | some text =>
      match reply read m text with
      | .leave => []
      | .answer _ after => lineActions read m text ++ .service :: sessionActions read lines after.service

theorem play_commandActions (c : Command) (read : Reader) (m : Machine) :
    m.play (c.actions read m) =
      match c.run read m with
      | .error _ => m
      | .ok (_, after) => after := by
  cases c with
  | set assignment => cases assignment <;> rfl
  | step count => exact play_stepsActions count m
  | press key => cases key <;> rfl
  | window opened =>
    cases opened with
    | false => rfl
    | true => simp only [Command.run]; cases m.hasFrontend <;> rfl
  | rom path =>
    simp only [Command.actions, Command.run]
    cases read.rom path <;> rfl
  | registers | memory _ _ | listing _ _ | stack | push _ | pop | random | display | clear | fill
  | pixel _ _ | help | exit => rfl

theorem play_lineActions {read : Reader} {m after : Machine} {line text : String}
    (answered : reply read m line = .answer text after) :
    m.play (lineActions read m line) = after := by
  unfold reply at answered
  unfold lineActions
  split at answered
  · next parsed => rw [parsed]; cases answered; rfl
  · next parsed => rw [parsed]; cases answered; rfl
  · cases answered
  · next c _ parsed =>
    rw [parsed]
    simp only
    rw [play_commandActions c read m]
    split at answered <;> cases answered <;> simp only [*]

theorem play_sessionActions (read : Reader) (lines : List (List Byte)) {s : Session}
    (opened : s.ending = none) :
    s.machine.play (sessionActions read lines s.machine) = (s.feedAll read lines).machine := by
  induction lines generalizing s with
  | nil => rfl
  | cons line lines ih =>
    show _ = (Session.feedAll read (s.feed read line) lines).machine
    unfold sessionActions Session.feed
    rw [opened, if_neg (by decide)]
    cases Text.decode? line with
    | none => rw [Session.feedAll_of_ended read rfl]; rfl
    | some text =>
      simp only [Session.take]
      cases answered : reply read s.machine text with
      | leave => simp only; rw [Session.feedAll_of_ended read rfl]; rfl
      | answer answer after =>
        simp only
        rw [play_append, play_lineActions answered, play_cons]
        exact @ih (s.proceed answer after) opened

end Debugger

/-! ## Histories -/

structure Moment where
  before : Machine
  action : Action

def Moment.after (t : Moment) : Machine :=
  t.before.act t.action

namespace Machine

def actions (m : Machine) (op : Operation) : List Action :=
  if single : op.isSingle then [.host op single]
  else
    match op with
    | .service => [.service]
    | .observeClose => [.look]
    | .step => m.stepActions
    | .steps n => stepsActions n m
    | .run bound => runActions bound m
    | .debug read input => Debugger.sessionActions read (Text.lines input) m
    | _ => []

def allActions (m : Machine) : List Operation → List Action
  | [] => []
  | op :: ops => m.actions op ++ (m.after op).allActions ops

def moments (m : Machine) : List Action → List Moment
  | [] => []
  | a :: actions => ⟨m, a⟩ :: (m.act a).moments actions

def history (m : Machine) (ops : List Operation) : List Moment :=
  m.moments (m.allActions ops)

theorem play_actions (m : Machine) (op : Operation) : m.play (m.actions op) = m.after op := by
  unfold actions
  split
  · rfl
  · next compound =>
    cases op with
    | step => exact m.play_stepActions
    | steps n => exact play_stepsActions n m
    | run bound => exact play_runActions bound m
    | service | observeClose => rfl
    | debug read input =>
      have fed := Debugger.play_sessionActions read (Text.lines input)
        (show (Debugger.Session.start m).ending = none from rfl)
      exact fed.trans (Debugger.Session.machine_finish _).symm
    | _ => exact absurd rfl compound

theorem play_allActions (m : Machine) (ops : List Operation) :
    m.play (m.allActions ops) = m.afterAll ops := by
  induction ops generalizing m with
  | nil => rfl
  | cons op ops ih =>
    unfold allActions
    rw [play_append, play_actions]
    exact ih (m.after op)

theorem moments_append (m : Machine) (front back : List Action) :
    m.moments (front ++ back) = m.moments front ++ (m.play front).moments back := by
  induction front generalizing m with
  | nil => rfl
  | cons a front ih => exact congrArg (_ :: ·) (ih (m.act a))

theorem action_mem {m : Machine} {actions : List Action} {t : Moment}
    (member : t ∈ m.moments actions) : t.action ∈ actions := by
  induction actions generalizing m with
  | nil => cases member
  | cons a actions ih =>
    rcases List.mem_cons.1 member with rfl | later
    · exact List.mem_cons_self ..
    · exact List.mem_cons_of_mem a (ih later)

theorem history_cons (m : Machine) (op : Operation) (ops : List Operation) :
    m.history (op :: ops) = m.moments (m.actions op) ++ (m.after op).history ops := by
  unfold history
  rw [allActions, moments_append, play_actions]

theorem history_step_of_unawaited {m : Machine} (waitless : m.awaited = none)
    (ops : List Operation) :
    m.history (.step :: ops) = ⟨m, .issue⟩ :: ⟨m.issue, .service⟩ :: m.step.history ops := by
  have actions : m.actions .step = [.issue, .service] := by
    simp only [Machine.actions, Operation.isSingle, stepActions, waitless]
    rfl
  rw [history_cons, actions]
  rfl

/-- What is true at the start and kept by every action, with what came before, is true throughout. -/
theorem moments_induction {P : List Moment → Machine → Prop} {m : Machine} (start : P [] m)
    (next : ∀ past m a, P past m → P (past ++ [⟨m, a⟩]) (m.act a)) (actions : List Action) :
    P (m.moments actions) (m.play actions) := by
  -- The last action comes last in both, so the list is taken apart at its end.
  induction actions using List.reverseRecOn with
  | nil => exact start
  | append_singleton actions a ih =>
    rw [moments_append, play_append]
    exact next _ _ a ih

/-- What comes before a moment of a history is a history, and it leads to the moment. -/
theorem moments_split {m : Machine} {actions : List Action} {past rest : List Moment} {t : Moment}
    (split : m.moments actions = past ++ t :: rest) :
    ∃ front back, past = m.moments front ∧ t.before = m.play front ∧
      rest = t.after.moments back ∧ actions = front ++ t.action :: back := by
  induction past generalizing m actions with
  | nil =>
    cases actions with
    | nil => cases split
    | cons a back =>
      cases split
      exact ⟨[], back, rfl, rfl, rfl, rfl⟩
  | cons u past ih =>
    cases actions with
    | nil => cases split
    | cons a actions =>
      have parts := List.cons.inj split
      obtain ⟨front, back, same, before, after, whole⟩ := ih parts.2
      exact ⟨a :: front, back, by rw [← parts.1, same]; rfl, before, after,
        congrArg (a :: ·) whole⟩

theorem moments_keep {P : Machine → Prop} {m : Machine} {actions : List Action}
    {past rest : List Moment} {t : Moment} (split : m.moments actions = past ++ t :: rest)
    (start : P m) (keeps : ∀ u ∈ past, P u.before → P u.after) : P t.before := by
  induction past generalizing m actions with
  | nil =>
    cases actions with
    | nil => cases split
    | cons a back =>
      cases split
      exact start
  | cons u past ih =>
    cases actions with
    | nil => cases split
    | cons a actions =>
      obtain ⟨rfl, later⟩ := List.cons.inj split
      apply ih later
      · exact keeps _ (List.mem_cons_self ..) start
      · intro u member
        exact keeps u (List.mem_cons_of_mem _ member)

end Machine

end Chip8
