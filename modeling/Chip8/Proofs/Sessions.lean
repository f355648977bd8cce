import Chip8.Debugger.Session

/-!
# Sessions in parts

Input that leaves a session open can be split off: what follows it is taken as by a session of its
own, on the machine that the first part left. Main statement: `run_in_parts`.
-/

namespace Chip8.Debugger

theorem answer_of_stays (read : Reader) (m : Machine) {line : String}
    (stays : (Text.words line).head? ≠ some "exit") :
    ∃ text after, reply read m line = .answer text after := by
  rcases parsed : Command.ofLine line with e | _ | c
  · exact ⟨errorText e, m, by rw [reply, parsed]⟩
  · exact ⟨"", m, by rw [reply, parsed]⟩
  have staying : c ≠ .exit := by
    rintro rfl
    exact stays (Command.head?_words_of_ofLine parsed)
  rw [reply_of_command parsed staying]
  rcases c.run read m with e | ⟨text, after⟩
  · exact ⟨_, _, rfl⟩
  · exact ⟨_, _, rfl⟩

namespace Session

/-! ## Text in front -/

def below (front : String) (s : Session) : Session :=
  { s with output := front ++ s.output }

def asking (m : Machine) : Session where
  machine := m
  output := prompt m

@[simp] theorem machine_below (front : String) (s : Session) :
    (s.below front).machine = s.machine := rfl

@[simp] theorem ending_below (front : String) (s : Session) :
    (s.below front).ending = s.ending := rfl

theorem start_eq_below (m : Machine) : start m = (asking m).below banner := rfl

theorem leave_below (front : String) (s : Session) :
    (s.below front).leave = s.leave.below front := by
  simp [leave, below, String.append_assoc]

theorem proceed_below (front : String) (s : Session) (text : String) (m : Machine) :
    (s.below front).proceed text m = (s.proceed text m).below front := by
  simp [proceed, below, String.append_assoc]

theorem feed_below (read : Reader) (front : String) (s : Session) (line : List Byte) :
    (s.below front).feed read line = (s.feed read line).below front := by
  unfold feed take
  rw [ending_below, machine_below]
  split
  · rfl
  · split
    · rfl
    · split
      · exact leave_below front s
      · exact proceed_below front s _ _

theorem feedAll_below (read : Reader) (front : String) (s : Session) (lines : List (List Byte)) :
    (s.below front).feedAll read lines = (s.feedAll read lines).below front := by
  unfold feedAll
  induction lines generalizing s with
  | nil => rfl
  | cons line lines ih => rw [List.foldl_cons, List.foldl_cons, feed_below, ih]

theorem finish_below (front : String) (s : Session) :
    (s.below front).finish = s.finish.below front := by
  unfold finish
  rw [ending_below]
  split
  · rfl
  · exact leave_below front s

/-! ## Input that leaves a session open -/

/-- Text of whole lines, none of which tells a session to exit. -/
structure Continues (input : List Byte) : Prop where
  text : (Text.decode? input).isSome
  closed : ∀ b ∈ input.getLast?, b = Text.lineFeed
  stays : ∀ line ∈ Text.lines input, ∀ text, Text.decode? line = some text →
    (Text.words text).head? ≠ some "exit"

theorem feed_asking (read : Reader) (front : String) (m : Machine) {line : List Byte} {text : String}
    (decodes : Text.decode? line = some text) (stays : (Text.words text).head? ≠ some "exit") :
    ∃ front' m', ((asking m).below front).feed read line = (asking m').below front' := by
  obtain ⟨answer, after, replied⟩ := answer_of_stays read m stays
  refine ⟨front ++ prompt m ++ answer, after.service, ?_⟩
  rw [feed_of_answer rfl decodes replied]
  rfl

theorem feedAll_asking (read : Reader) {lines : List (List Byte)}
    (text : ∀ line ∈ lines, (Text.decode? line).isSome)
    (stays : ∀ line ∈ lines, ∀ text, Text.decode? line = some text →
      (Text.words text).head? ≠ some "exit") (front : String) (m : Machine) :
    ∃ front' m', ((asking m).below front).feedAll read lines = (asking m').below front' := by
  -- Between two lines a session is a machine and its prompt, below what was printed before.
  induction lines generalizing front m with
  | nil => exact ⟨front, m, rfl⟩
  | cons line lines ih =>
    simp only [List.forall_mem_cons] at text stays
    obtain ⟨content, decodes⟩ := Option.isSome_iff_exists.1 text.1
    obtain ⟨front', m', asked⟩ := feed_asking read front m decodes (stays.1 content decodes)
    obtain ⟨last, m'', later⟩ := ih text.2 stays.2 front' m'
    refine ⟨last, m'', ?_⟩
    rw [← later, ← asked]
    rfl

theorem run_asking (read : Reader) (m : Machine) (input : List Byte) :
    run read m input = (((asking m).feedAll read (Text.lines input)).finish).below banner := by
  unfold run
  rw [start_eq_below, feedAll_below, finish_below]

/-- **Sessions compose.** Of the input that leaves a session open, only the machine counts for what
follows: the rest is taken as by a new session on that machine. The output is that of both, less the
prompt and the farewell that end the first and the banner that opens the second. If the rest starts
with a line that is not text, nothing comes after the prompt for that line. -/
theorem run_in_parts (read : Reader) (m : Machine) {first : List Byte} (continues : Continues first)
    (rest : List Byte) :
    let early := run read m first
    let late := run read early.machine rest
    let whole := run read m (first ++ rest)
    early.ending = some .done ∧ whole.machine = late.machine ∧ whole.ending = late.ending ∧
      ∃ front back, early.output = front ++ (prompt early.machine ++ farewell) ∧
        late.output = banner ++ back ∧ whole.output = front ++ back ∧
        ∀ line ∈ (Text.lines rest).head?, Text.decode? line = none →
          whole = ⟨early.machine, front ++ prompt early.machine, some .notText⟩ := by
  intro early late whole
  have texts (line : List Byte) (member : line ∈ Text.lines first) : (Text.decode? line).isSome :=
    Text.isSome_decode?_of_mem_lines continues.text member
  obtain ⟨front, m', asked⟩ := feedAll_asking read texts continues.stays banner m
  have left : early = ((asking m').below front).finish := by
    unfold early run
    rw [start_eq_below, asked]
  have all : whole = (((asking m').feedAll read (Text.lines rest)).finish).below front := by
    unfold whole run
    rw [Text.lines_append continues.closed, feedAll_append, start_eq_below, asked, feedAll_below,
      finish_below]
  have same : early.machine = m' := by rw [left, machine_finish]; rfl
  have last : late = (((asking m').feedAll read (Text.lines rest)).finish).below banner := by
    unfold late
    rw [same, run_asking]
  refine ⟨by rw [left]; rfl, by rw [all, last]; rfl, by rw [all, last]; rfl, front,
    ((asking m').feedAll read (Text.lines rest)).finish.output, ?_, by rw [last]; rfl,
    by rw [all]; rfl, ?_⟩
  · rw [same, left, ← String.append_assoc]
    rfl
  · intro line starts undecoded
    obtain ⟨others, split⟩ : ∃ others, Text.lines rest = line :: others :=
      List.head?_eq_some_iff.1 starts
    have ended : (asking m').feed read line = ⟨m', prompt m', some .notText⟩ := by
      unfold feed
      simp only [undecoded]
      rfl
    rw [all, same, split]
    show ((feedAll read ((asking m').feed read line) others).finish).below front = _
    rw [ended, feedAll_of_ended read rfl]
    rfl

theorem run_in_parts_cut :
    let early := run (fun _ => .error .notFound) (.start {} 0) (Text.encode "press 5\n".toList)
    let whole := run (fun _ => .error .notFound) (.start {} 0)
      (Text.encode "press 5\n".toList ++ [0xFF])
    early.machine.keypad.held = [⟨5⟩] ∧ whole.machine = early.machine ∧
      whole.ending = some .notText := by
  have only : Text.lines (Text.encode "press 5\n".toList) = [Text.encode "press 5\n".toList] := by
    decide
  have decodes : Text.decode? (Text.encode "press 5\n".toList) = some "press 5\n" := by decide
  have last : (Text.encode "press 5\n".toList).getLast? = some Text.lineFeed := by decide
  have continues : Continues (Text.encode "press 5\n".toList) := by
    refine ⟨by rw [decodes]; rfl, by rw [last]; simp, ?_⟩
    rw [only]
    simp only [List.mem_singleton, forall_eq, decodes, Option.some.injEq, forall_eq']
    decide
  obtain ⟨-, -, -, _, _, -, -, -, cut⟩ :=
    run_in_parts (fun _ => .error .notFound) (.start {} 0) continues [0xFF]
  have ended := cut [0xFF] (by decide) (by decide)
  refine ⟨by decide +kernel, ?_, ?_⟩
  · rw [ended]
  · rw [ended]

end Session

end Chip8.Debugger
