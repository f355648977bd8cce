import Chip8.Instruction.Encoding
import Chip8.Proofs.History

/-!
# Calls and their returns

The frame that a call pushes stays where it is until the stack is back at the height that it had
before the call; so what brings it back is a return, and to that call. Main statement:
`return_of_call`.
-/

namespace Chip8

namespace Moment

def PatchesStack (t : Moment) : Prop :=
  match t.action with
  | .host (.push _) _ | .host .pop _ => True
  | _ => False

theorem stack_after (t : Moment) :
    t.PatchesStack ∨ t.action = .issue ∨ t.after.stack = t.before.stack := by
  obtain ⟨m, a⟩ := t
  cases a with
  | host op single =>
    cases op with
    | push _ | pop => exact Or.inl trivial
    | service | observeClose | step | steps | run | debug => cases single
    | _ => exact Or.inr (Or.inr rfl)
  | issue => exact Or.inr (Or.inl rfl)
  | service => exact Or.inr (Or.inr m.stack_service)
  | look | store | note => exact Or.inr (Or.inr rfl)

end Moment

namespace Machine

/-! ## One step -/

theorem stack_issue (m : Machine) :
    m.issue.stack = m.stack ∨ (∃ w, m.issue.stack = m.stack.push w) ∨
      (Instruction.decode? m.nextWord = some .ret ∧ m.issue.stack = m.stack.pop.2 ∧
        m.issue.pc = m.stack.pop.1.address) := by
  cases next : Instruction.decode? m.nextWord with
  | none =>
    rw [issue_of_undecoded next]
    exact Or.inl rfl
  | some i =>
    rw [issue_of_decode next]
    cases i with
    | call target => exact Or.inr (Or.inl ⟨_, rfl⟩)
    | ret => exact Or.inr (Or.inr ⟨rfl, rfl, rfl⟩)
    | skipIfByte | skipUnlessByte | skipIfSame | skipUnlessSame | skipIfKey | skipUnlessKey
    | storeUpTo | loadUpTo =>
      simp only [Processor.execute, Processor.skipIf_eq, Processor.passTransfer_eq]
      exact Or.inl rfl
    | _ => exact Or.inl rfl

theorem stack_step (m : Machine) : m.step.stack = m.issue.stack := by
  obtain ⟨v, core⟩ := m.step_eq_withCore
  rw [core]
  rfl

/-! ## Runs -/

/-- The stack still holds some frames and, above them, the frame of a call. -/
def Holds (frames : List Word) (frame : Word) (m : Machine) : Prop :=
  frames ++ [frame] <+: m.stack.frames

variable {frames : List Word} {frame : Word} {m : Machine}

theorem Holds.issue (held : Holds frames frame m) (above : m.step.stack.size ≠ frames.length) :
    Holds frames frame m.issue := by
  unfold Holds at *
  rcases m.stack_issue with same | ⟨w, pushed⟩ | ⟨-, popped, -⟩
  · rw [same]
    exact held
  · rw [pushed, CallStack.frames_push]
    split
    · exact held.trans (List.prefix_append _ _)
    · exact held
  · rw [stack_step, ← CallStack.length_frames, popped, CallStack.frames_pop] at above
    rw [popped, CallStack.frames_pop]
    -- A return would bring the stack back to the height in question if the frame were on top.
    obtain ⟨rest, parts⟩ := held
    rcases List.eq_nil_or_concat rest with rfl | ⟨rest, w, rfl⟩
    · rw [← parts] at above
      simp at above
    · rw [← parts, List.concat_eq_append, ← List.append_assoc, List.dropLast_concat]
      exact List.prefix_append _ _

/-- What brings the stack back to the height below the frame is a return to it. -/
theorem Holds.returns (held : Holds frames frame m) (level : m.step.stack.size = frames.length) :
    Instruction.decode? m.nextWord = some .ret ∧ m.step.pc = frame.address ∧
      m.step.stack.frames = frames := by
  unfold Holds at held
  have height := held.length_le
  rw [List.length_append, List.length_singleton] at height
  rw [stack_step, ← CallStack.length_frames] at level
  rcases m.stack_issue with same | ⟨w, pushed⟩ | ⟨next, popped, back⟩
  · rw [same] at level
    omega
  · rw [pushed, CallStack.frames_push] at level
    split at level
    · rw [List.length_append] at level
      omega
    · omega
  · rw [popped, CallStack.frames_pop, List.length_dropLast] at level
    have whole : m.stack.frames = frames ++ [frame] := by
      apply (held.eq_of_length _).symm
      rw [List.length_append, List.length_singleton]
      omega
    have waitless : m.awaited = none := awaited_eq_none (by simp [next])
    refine ⟨next, ?_, ?_⟩
    · rw [step_of_unawaited waitless, pc_service, back, CallStack.pop_fst, whole]
      simp
    · rw [stack_step, popped, CallStack.frames_pop, whole, List.dropLast_concat]

theorem holds_of_call {target : Address}
    (next : Instruction.decode? m.nextWord = some (.call target))
    (room : m.stack.size < CallStack.capacity) :
    Holds m.stack.frames (m.pc.advance 2).toWord m.issue := by
  have pushed : m.issue.stack = m.stack.push (m.pc.advance 2).toWord := by
    rw [issue_of_decode next]
    rfl
  refine ⟨[], ?_⟩
  rw [pushed, CallStack.frames_push_of_lt _ _ room, List.append_nil]

/-- **Calls and returns match.** A call on a stack with room is followed by no step that brings the
stack back to its height but a return, which goes on behind the call and leaves the frames of
before, whatever was carried out in between. -/
theorem return_of_call {m : Machine} {ops : List Operation} {front mid back : List Moment}
    {call ret : Moment} {target : Address}
    (split : m.history ops = front ++ call :: (mid ++ ret :: back))
    (calls : call.action = .issue) (word : call.before.nextWord = (Instruction.call target).encode)
    (room : call.before.stack.size < CallStack.capacity)
    (unpatched : ∀ t ∈ mid, ¬ t.PatchesStack)
    (away : ∀ t ∈ mid, t.action = .issue → t.before.step.stack.size ≠ call.before.stack.size)
    (level : ret.before.step.stack.size = call.before.stack.size) :
    ret.before.nextWord = Instruction.ret.encode ∧
      ret.before.step.pc = call.before.pc.advance 2 ∧
      ret.before.step.stack.frames = call.before.stack.frames := by
  obtain ⟨-, later, -, -, rest, -⟩ := moments_split split
  rw [← CallStack.length_frames call.before.stack] at away level
  have start : Holds call.before.stack.frames (call.before.pc.advance 2).toWord call.after := by
    have next := word ▸ Instruction.decode?_encode (i := .call target) trivial
    unfold Moment.after
    rw [calls]
    exact holds_of_call next room
  have held : Holds call.before.stack.frames (call.before.pc.advance 2).toWord ret.before := by
    apply moments_keep rest.symm start
    intro t member held
    rcases t.stack_after with patches | issues | same
    · exact absurd patches (unpatched t member)
    · have kept := held.issue (away t member issues)
      rwa [Moment.after, issues]
    · unfold Holds
      rwa [same]
  obtain ⟨next, pc, frames⟩ := held.returns level
  refine ⟨(Instruction.encode_of_decode? next).symm, ?_, frames⟩
  rw [pc]
  exact Address.ofWord_toWord _

def nested : Machine :=
  (start {} 0).loadWords [0x2204, 0x1202, 0x2208, 0x00EE, 0x00EE]

theorem return_of_call_nested :
    nested.step.step.step.nextWord = Instruction.ret.encode ∧
      nested.step.step.step.step.pc = nested.pc.advance 2 ∧
      nested.step.step.step.step.stack.frames = nested.stack.frames := by
  have waitless : nested.awaited = none ∧ nested.step.awaited = none ∧
      nested.step.step.awaited = none ∧ nested.step.step.step.awaited = none := by decide +kernel
  have sizes : nested.stack.size = 0 ∧ nested.step.step.stack.size = 2 ∧
      nested.step.step.step.stack.size = 1 ∧ nested.step.step.step.step.stack.size = 0 := by
    decide +kernel
  have split := history_step_of_unawaited waitless.1 [.step, .step, .step]
  rw [history_step_of_unawaited waitless.2.1, history_step_of_unawaited waitless.2.2.1,
    history_step_of_unawaited waitless.2.2.2] at split
  let mid : List Moment :=
    [⟨nested.issue, .service⟩, ⟨nested.step, .issue⟩, ⟨nested.step.issue, .service⟩,
      ⟨nested.step.step, .issue⟩, ⟨nested.step.step.issue, .service⟩]
  have matched := @return_of_call nested [.step, .step, .step, .step] [] mid _ ⟨nested, .issue⟩
    ⟨nested.step.step.step, .issue⟩ (.ofNat 0x204) split rfl
  simp only at matched
  apply matched
  · decide +kernel
  · rw [sizes.1]
    decide
  · simp [mid, Moment.PatchesStack]
  · intro t member issues
    simp only [mid, List.mem_cons, List.not_mem_nil, or_false] at member
    rw [sizes.1]
    rcases member with rfl | rfl | rfl | rfl | rfl
    · cases issues
    · simp [sizes.2.1]
    · cases issues
    · simp [sizes.2.2.1]
    · cases issues
  · exact sizes.2.2.2.trans sizes.1.symm

end Machine

end Chip8
