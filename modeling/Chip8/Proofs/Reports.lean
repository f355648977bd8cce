import Mathlib.Data.List.Basic
import Chip8.Proofs.Stepwise

/-!
# What a step reports

A step gives notice of the word that it carries out and, where it leaves something undone, of what
that was. The notices come from the word itself and from the wait for a key, and from nowhere else;
so those of a whole run tell its path, and every return address that was lost on it. Main statement:
`every_loss_reported`.
-/

namespace Chip8

namespace Machine

/-- What a step reports besides its word, told from the digits of the word. -/
def complaints (m : Machine) : List Notice :=
  let w := m.nextWord
  if (w.nibble 3).val = 0x0 ∧ w ≠ 0x00E0 ∧ w ≠ 0x00EE then [.systemIgnored w.address]
  else if (w.nibble 3).val = 0x2 ∧ m.stack.frames.length = 16 then
    [.returnDropped (Address.ofNat (m.pc.val + 2)).toWord]
  else if (w.nibble 3).val = 0xF ∧ w.low = 0x0A ∧ m.keypad.held = [] ∧ m.frontend = none then
    [.waitSkipped w.x]
  else if Instruction.decode? w = none then [.invalid ⟨w, m.pc⟩]
  else []

/-! ## Notices of the parts of a step -/

theorem log_awaitKey (m : Machine) (x : Register) : (m.awaitKey x).log = (m.noteSkipped x).log := by
  obtain ⟨first, second, key, -, -, waited⟩ := m.awaitKey_turns x
  rw [waited]
  exact log_turns (first + second) (m.noteSkipped x)

theorem notices_congr {m m' : Machine} (log : m'.log = m.log) : m'.notices = m.notices := by
  unfold notices
  rw [log]

theorem notices_report (m : Machine) (notices : List Notice) :
    (m.report notices).notices = m.notices ++ notices := by
  simp [Machine.notices, report]

def wordNotices (m : Machine) : List Notice :=
  match Instruction.decode? m.nextWord with
  | some i => (m.fetched.toProcessor.execute i).notices
  | none => [.invalid ⟨m.nextWord, m.pc⟩]

def waitNotices (m : Machine) : List Notice :=
  match m.awaited with
  | some x => if m.keypad.held = [] ∧ m.frontend = none then [.waitSkipped x] else []
  | none => []

theorem notices_issue (m : Machine) :
    m.issue.notices = m.notices ++ .executing m.pc m.nextWord :: m.wordNotices := by
  unfold issue wordNotices
  cases Instruction.decode? m.nextWord <;>
    simp [notices, fetched, recordFault, report, passWord]

theorem notices_noteSkipped (m : Machine) (x : Register) :
    (m.noteSkipped x).notices =
      m.notices ++ if m.keypad.held = [] ∧ m.frontend = none then [.waitSkipped x] else [] := by
  have idle : m.keypad.lowest? = none ↔ m.keypad.held = [] := by
    simp [Keypad.lowest?, Keypad.held]
  simp only [noteSkipped, idle, hasFrontend, Option.isSome_eq_false_iff, Option.isNone_iff_eq_none]
  split
  · rw [notices_report]
  · rw [List.append_nil]

variable {m : Machine}

theorem notices_step_eq (m : Machine) :
    m.step.notices =
      m.notices ++ .executing m.pc m.nextWord :: (m.wordNotices ++ m.waitNotices) := by
  unfold waitNotices
  cases waits : m.awaited with
  | none =>
    rw [step_of_unawaited waits, notices_congr m.issue.log_service, notices_issue, List.append_nil]
  | some x =>
    have performed : m.perform = m.issue.awaitKey x := by rw [perform_eq_issue, waits]
    have still : m.issue.keypad = m.keypad ∧ m.issue.frontend = m.frontend := by
      rw [issue_of_decode (decode?_of_awaited waits)]
      exact ⟨rfl, rfl⟩
    rw [step, notices_congr (log_service _), performed, notices_congr (log_awaitKey _ _),
      notices_noteSkipped, notices_issue, still.1, still.2]
    simp

/-! ## Notices told from the digits -/

theorem complaints_of_undecoded (next : Instruction.decode? m.nextWord = none) :
    m.complaints = [.invalid ⟨m.nextWord, m.pc⟩] := by
  have system : (m.nextWord.nibble 3).val ≠ 0x0 := by
    intro digit
    simp only [Instruction.decode?, digit] at next
    split_ifs at next
  have call : (m.nextWord.nibble 3).val ≠ 0x2 := by
    intro digit
    simp [Instruction.decode?_of_call digit] at next
  have wait : (m.nextWord.nibble 3).val = 0xF → m.nextWord.low ≠ 0x0A := by
    intro digit low
    simp [Instruction.decode?, digit, low, Instruction.ofSingle?] at next
  unfold complaints
  simp only [next, if_true]
  grind

theorem complaints_of_decode {i : Instruction} (next : Instruction.decode? m.nextWord = some i) :
    m.complaints = m.wordNotices ++ m.waitNotices := by
  have word := Instruction.encode_of_decode? next
  have awaits : m.awaited = (m.fetched.toProcessor.execute i).awaits := by simp [awaited, next]
  unfold complaints wordNotices waitNotices
  rw [← word] at next ⊢
  simp only [awaits, next, reduceCtorEq, if_false]
  cases i with
  | system target =>
    have other : Word.ofAddress 0 target ≠ 0x00E0 ∧ Word.ofAddress 0 target ≠ 0x00EE := by
      constructor <;> intro same <;> rw [Instruction.encode, same] at next <;> cases next
    simp [Instruction.encode, Processor.execute, Word.fields_ofAddress, other]
  | clearScreen | ret =>
    have digit : (Word.nibble 0x00E0 3).val = 0x0 ∧ (Word.nibble 0x00EE 3).val = 0x0 := by decide
    simp [Instruction.encode, Processor.execute, digit]
  | call target =>
    simp [Instruction.encode, Processor.execute, Word.fields_ofAddress, Notice.ofPush,
      CallStack.isFull_eq, CallStack.capacity]
    rfl
  | awaitKey x => simp [Instruction.encode, Processor.execute, Word.fields_ofByte]
  | combine how x y =>
    simp [Instruction.encode, Processor.execute, Word.fields_ofPair, Combination.code_lt]
  | _ =>
    simp [Instruction.encode, Processor.execute, Word.fields_ofAddress, Word.fields_ofByte,
      Word.fields_ofPair]

theorem complaints_eq (m : Machine) : m.complaints = m.wordNotices ++ m.waitNotices := by
  cases next : Instruction.decode? m.nextWord with
  | none =>
    rw [complaints_of_undecoded next]
    simp [wordNotices, waitNotices, awaited, next]
  | some i => exact complaints_of_decode next

theorem notices_step (m : Machine) :
    m.step.notices = m.notices ++ .executing m.pc m.nextWord :: m.complaints := by
  rw [notices_step_eq, complaints_eq]

theorem notices_iterate_step (n : Nat) (m : Machine) :
    (step^[n] m).notices = m.notices ++ (List.range n).flatMap fun i =>
      .executing (step^[i] m).pc (step^[i] m).nextWord :: (step^[i] m).complaints := by
  induction n with
  | zero => simp
  | succ n ih =>
    rw [Function.iterate_succ_apply', notices_step, ih, List.range_succ, List.flatMap_append]
    simp

/-! ## Words that lose a return address -/

theorem stack_issue_of_call (call : (m.nextWord.nibble 3).val = 0x2) :
    m.issue.stack = m.stack.push (Address.ofNat (m.pc.val + 2)).toWord := by
  rw [issue_of_decode (Instruction.decode?_of_call call)]
  rfl

theorem frames_issue_of_call (call : (m.nextWord.nibble 3).val = 0x2) :
    m.issue.stack.frames = m.stack.frames ↔ m.stack.frames.length = 16 := by
  rw [stack_issue_of_call call]
  exact m.stack.frames_push_eq_self _

def lostReturn? (m : Machine) : Option Word :=
  if (m.nextWord.nibble 3).val = 0x2 ∧ m.issue.stack.frames = m.stack.frames then
    some (Address.ofNat (m.pc.val + 2)).toWord
  else none

end Machine

/-! ## Wording -/

theorem Notice.line_of_step (a : Address) (w : Word) (x : Register) :
    (executing a w).line = "TRACE " ++ a.text ++ "  " ++ w.text ++ "  " ++ w.disassembly ∧
    (systemIgnored a).line = "WARN ignoring SYS " ++ a.text ∧
    (returnDropped (Address.ofNat (a.val + 2)).toWord).line =
      "WARN stack overflow, dropping return address " ++ Numeral.hex 3 ((a.val + 2) % 4096) ∧
    (waitSkipped x).line =
      "WARN no key held and no frontend attached, skipping wait for " ++ x.name ∧
    (invalid ⟨w, a⟩).line = "ERROR invalid opcode " ++ w.text ++ " at " ++ a.text := by
  refine ⟨?_, ?_, ?_, ?_, ?_⟩
  · show "TRACE" ++ " " ++ (a.text ++ "  " ++ w.text ++ "  " ++ w.disassembly) = _
    simp only [← String.append_assoc, String.reduceAppend]
  · show "WARN" ++ " " ++ ("ignoring SYS " ++ a.text) = _
    simp only [← String.append_assoc, String.reduceAppend]
  · show "WARN" ++ " " ++ ("stack overflow, dropping return address " ++ Numeral.hex 3 _) = _
    simp only [← String.append_assoc, String.reduceAppend, Address.toNat_toWord, Address.val_ofNat]
  · show "WARN" ++ " " ++ ("no key held and no frontend attached, skipping wait for " ++ x.name) = _
    simp only [← String.append_assoc, String.reduceAppend]
  · show "ERROR" ++ " " ++ ("invalid opcode " ++ w.text ++ " at " ++ a.text) = _
    simp only [← String.append_assoc, String.reduceAppend]

/-! ## Notices of a run -/

namespace Notice

def isTrace (n : Notice) : Bool :=
  n.level = .trace

def isOverflow : Notice → Bool
  | returnDropped _ => true
  | _ => false

/-- What is neither a trace nor an overflow. -/
def isAside (n : Notice) : Bool :=
  !n.isTrace && !n.isOverflow

theorem ofPush_eq (s : CallStack) (w : Word) :
    ofPush s w = if (s.push w).frames = s.frames then [returnDropped w] else [] := by
  simp [ofPush, s.isFull_eq, s.frames_push_eq_self w]

theorem all_isAside_ofRom (rom : List Byte) :
    (ofRom rom ++ [romLoaded (Memory.fitting rom).length]).all isAside := by
  unfold ofRom
  simp only
  split <;> rfl

theorem not_isTrace_of_isAside (n : Notice) (aside : n.isAside) : n.isTrace = false := by
  simp_all [isAside]

theorem not_isOverflow_of_isAside (n : Notice) (aside : n.isAside) : n.isOverflow = false := by
  simp_all [isAside]

theorem filter_of_aside {p : Notice → Bool} (apart : ∀ n, n.isAside → p n = false)
    {notices : List Notice} (aside : notices.all isAside) : notices.filter p = [] := by
  rw [List.all_eq_true] at aside
  rw [List.filter_eq_nil_iff]
  intro n member
  simp [apart n (aside n member)]

end Notice

def Action.notesAside : Action → Bool
  | .note notices => notices.all Notice.isAside
  | _ => true

theorem Machine.notesAside_of_mem {m : Machine} {ops : List Operation} {a : Action}
    (member : a ∈ m.allActions ops) : a.notesAside := by
  have made : Stepwise (fun a => a.notesAside) m (m.allActions ops) :=
    stepwise_of_host (fun _ _ => rfl) (fun _ inRun => by cases inRun <;> rfl) ops
  rcases made.mem member with aside | ⟨m', inner⟩
  · exact aside
  · rcases mem_stepActions inner with rfl | rfl | rfl | ⟨x, k, rfl⟩ | ⟨x, rfl⟩ <;> rfl

namespace Machine

theorem traces_wordNotices (m : Machine) : m.wordNotices.filter Notice.isTrace = [] := by
  have traceless : m.complaints.filter Notice.isTrace = [] := by
    unfold complaints
    simp only
    split_ifs <;> rfl
  rw [complaints_eq, List.filter_append, List.append_eq_nil_iff] at traceless
  exact traceless.1

theorem overflows_complaints (m : Machine) :
    m.complaints.filter Notice.isOverflow = (m.lostReturn?.map Notice.returnDropped).toList := by
  unfold lostReturn?
  by_cases call : (m.nextWord.nibble 3).val = 0x2
  · simp only [complaints, call, frames_issue_of_call call, Instruction.decode?_of_call call]
    split_ifs <;> simp_all [Notice.isOverflow]
  · simp only [complaints, call, false_and, if_false]
    split_ifs <;> simp [Notice.isOverflow]

theorem overflows_wordNotices (m : Machine) :
    m.wordNotices.filter Notice.isOverflow = (m.lostReturn?.map Notice.returnDropped).toList := by
  have waits : m.waitNotices.filter Notice.isOverflow = [] := by
    unfold waitNotices
    split
    · split <;> rfl
    · rfl
  rw [← overflows_complaints, complaints_eq, List.filter_append, waits, List.append_nil]

/-- Where each part of a run gives a kind of notice once at most, the notices tell the parts. -/
theorem filter_flatMap_reports {ι α : Type*} {p : Notice → Bool} {reports : ι → List Notice}
    {told? : ι → Option α} {notice : α → Notice} {parts : List ι}
    (each : ∀ t ∈ parts, (reports t).filter p = ((told? t).map notice).toList) :
    (parts.flatMap reports).filter p = (parts.filterMap told?).map notice := by
  rw [List.filter_flatMap, List.map_filterMap, List.filterMap_eq_flatMap_toList]
  exact List.flatMap_congr each

theorem overflows_iterate_step (n : Nat) (m : Machine) :
    (step^[n] m).notices.filter Notice.isOverflow = m.notices.filter Notice.isOverflow ++
      ((List.range n).filterMap fun i => (step^[i] m).lostReturn?).map .returnDropped := by
  rw [notices_iterate_step, List.filter_append]
  refine congrArg _ (filter_flatMap_reports fun i _ => ?_)
  exact (step^[i] m).overflows_complaints

end Machine

namespace Moment

def reports (t : Moment) : List Notice :=
  match t.action with
  | .host (.loadWords words) _ => [.wordsLoaded words.length]
  | .host (.loadRom rom) _ => Notice.ofRom rom ++ [.romLoaded (Memory.fitting rom).length]
  | .host (.push a) _ => Notice.ofPush t.before.stack a.toWord
  | .issue => .executing t.before.pc t.before.nextWord :: t.before.wordNotices
  | .note notices => notices
  | _ => []

def executed? (t : Moment) : Option (Address × Word) :=
  match t.action with
  | .issue => some (t.before.pc, t.before.nextWord)
  | _ => none

def lostReturn? (t : Moment) : Option Word :=
  match t.action with
  | .issue => t.before.lostReturn?
  | .host (.push a) _ =>
    if t.after.stack.frames = t.before.stack.frames then some a.toWord else none
  | _ => none

theorem notices_after (t : Moment) : t.after.notices = t.before.notices ++ t.reports := by
  obtain ⟨m, a⟩ := t
  cases a with
  | host op single =>
    cases op with
    | service | observeClose | step | steps | run | debug => cases single
    | loadWords words => exact m.notices_report _
    | loadRom rom => exact m.notices_report _
    | push a => exact m.notices_report _
    | _ => exact (List.append_nil _).symm
  | issue => exact m.notices_issue
  | service => exact (Machine.notices_congr m.log_service).trans (List.append_nil _).symm
  | look | store => exact (List.append_nil _).symm
  | note notices => exact m.notices_report notices

theorem traces_reports {t : Moment} (aside : t.action.notesAside) :
    t.reports.filter Notice.isTrace = (t.executed?.map fun (a, w) => .executing a w).toList := by
  obtain ⟨m, a⟩ := t
  cases a with
  | issue =>
    have word := m.traces_wordNotices
    simp [reports, executed?, Notice.isTrace, Notice.level, word]
  | note notices => exact Notice.filter_of_aside Notice.not_isTrace_of_isAside aside
  | host op single =>
    cases op with
    | push a =>
      show (Notice.ofPush m.stack a.toWord).filter Notice.isTrace = []
      unfold Notice.ofPush
      split <;> rfl
    | loadRom rom =>
      exact Notice.filter_of_aside Notice.not_isTrace_of_isAside (Notice.all_isAside_ofRom rom)
    | _ => rfl
  | _ => rfl

theorem overflows_reports {t : Moment} (aside : t.action.notesAside) :
    t.reports.filter Notice.isOverflow = (t.lostReturn?.map Notice.returnDropped).toList := by
  obtain ⟨m, a⟩ := t
  cases a with
  | issue => exact m.overflows_wordNotices
  | note notices => exact Notice.filter_of_aside Notice.not_isOverflow_of_isAside aside
  | host op single =>
    cases op with
    | push a =>
      show (Notice.ofPush m.stack a.toWord).filter _ =
        (Option.map _ (if (m.stack.push a.toWord).frames = m.stack.frames then _ else _)).toList
      rw [Notice.ofPush_eq]
      split <;> rfl
    | loadRom rom =>
      exact Notice.filter_of_aside Notice.not_isOverflow_of_isAside (Notice.all_isAside_ofRom rom)
    | _ => rfl
  | _ => rfl

end Moment

namespace Machine

theorem notices_play (m : Machine) (actions : List Action) :
    (m.play actions).notices = m.notices ++ (m.moments actions).flatMap Moment.reports := by
  induction actions generalizing m with
  | nil => exact (List.append_nil _).symm
  | cons a actions ih =>
    have first : (m.act a).notices = m.notices ++ Moment.reports ⟨m, a⟩ := Moment.notices_after ⟨m, a⟩
    rw [play_cons, ih, first, List.append_assoc]
    rfl

theorem filter_notices_afterAll {α : Type} {p : Notice → Bool} {told? : Moment → Option α}
    {notice : α → Notice}
    (each : ∀ t : Moment, t.action.notesAside → t.reports.filter p = ((told? t).map notice).toList)
    (m : Machine) (ops : List Operation) :
    (m.afterAll ops).notices.filter p =
      m.notices.filter p ++ ((m.history ops).filterMap told?).map notice := by
  rw [← play_allActions, notices_play, List.filter_append]
  refine congrArg _ (filter_flatMap_reports fun t member => ?_)
  exact each t (notesAside_of_mem (action_mem member))

/-- **Nothing is dropped silently.** A step gives notice of its word and, for what it leaves undone, of
nothing but that; each notice names what it is about. So over a run the traces tell which words were
carried out where, and the overflows tell which return addresses were lost. -/
theorem every_loss_reported (m : Machine) :
    m.step.notices = m.notices ++ .executing m.pc m.nextWord :: m.complaints ∧
    (∀ (a : Address) (w : Word) (x : Register),
      (Notice.executing a w).line =
        "TRACE " ++ a.text ++ "  " ++ w.text ++ "  " ++ w.disassembly ∧
      (Notice.systemIgnored a).line = "WARN ignoring SYS " ++ a.text ∧
      (Notice.returnDropped (Address.ofNat (a.val + 2)).toWord).line =
        "WARN stack overflow, dropping return address " ++ Numeral.hex 3 ((a.val + 2) % 4096) ∧
      (Notice.waitSkipped x).line =
        "WARN no key held and no frontend attached, skipping wait for " ++ x.name ∧
      (Notice.invalid ⟨w, a⟩).line = "ERROR invalid opcode " ++ w.text ++ " at " ++ a.text) ∧
    (∀ n, (step^[n] m).notices = m.notices ++ (List.range n).flatMap fun i =>
      .executing (step^[i] m).pc (step^[i] m).nextWord :: (step^[i] m).complaints) ∧
    (∀ n, (step^[n] m).notices.filter Notice.isOverflow = m.notices.filter Notice.isOverflow ++
      ((List.range n).filterMap fun i => (step^[i] m).lostReturn?).map .returnDropped) ∧
    ∀ ops,
      (m.afterAll ops).notices.filter Notice.isTrace = m.notices.filter Notice.isTrace ++
        ((m.history ops).filterMap Moment.executed?).map (fun (a, w) => .executing a w) ∧
      (m.afterAll ops).notices.filter Notice.isOverflow = m.notices.filter Notice.isOverflow ++
        ((m.history ops).filterMap Moment.lostReturn?).map .returnDropped := by
  refine ⟨m.notices_step, Notice.line_of_step, fun n => m.notices_iterate_step n,
    fun n => m.overflows_iterate_step n, ?_⟩
  intro ops
  exact ⟨filter_notices_afterAll (fun _ => Moment.traces_reports) m ops,
    filter_notices_afterAll (fun _ => Moment.overflows_reports) m ops⟩

end Machine

end Chip8
