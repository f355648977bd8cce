import Chip8.CallStack

/-!
# The call stack as a list

All that a call stack ever answers follows from the list of its live frames, which is a list with
room for sixteen words. So neither what a pop leaves in its slot nor what a full stack drops is seen
again, and pushes and pops that fit give each word back to its own pop. Main statement:
`answers_as_list`.
-/

namespace Chip8

namespace CallStack

inductive Call where
  | push (w : Word)
  | pop
  | top
  | isEmpty
  | isFull
  | size
  | frames
  deriving DecidableEq

inductive Answer where
  | done
  | word (w : Word)
  | flag (raised : Bool)
  | count (n : Nat)
  | words (ws : List Word)
  deriving DecidableEq

/-! ## Calls of a stack -/

def after (s : CallStack) : Call → CallStack
  | .push w => s.push w
  | .pop => s.pop.2
  | .top | .isEmpty | .isFull | .size | .frames => s

def answer (s : CallStack) : Call → Answer
  | .push _ => .done
  | .pop => .word s.pop.1
  | .top => .word s.top
  | .isEmpty => .flag s.isEmpty
  | .isFull => .flag s.isFull
  | .size => .count s.size
  | .frames => .words s.frames

def answers (s : CallStack) : List Call → List Answer
  | [] => []
  | c :: calls => s.answer c :: (s.after c).answers calls

/-! ## Calls of a list -/

def Call.leaves (live : List Word) : Call → List Word
  | push w => if live.length < 16 then live ++ [w] else live
  | pop => live.dropLast
  | top | isEmpty | isFull | size | frames => live

def Call.answer (live : List Word) : Call → Answer
  | push _ => .done
  | pop | top => .word (live.getLast?.getD 0)
  | isEmpty => .flag live.isEmpty
  | isFull => .flag (live.length == 16)
  | size => .count live.length
  | frames => .words live

def listAnswers (live : List Word) : List Call → List Answer
  | [] => []
  | c :: calls => c.answer live :: listAnswers (c.leaves live) calls

theorem frames_after (s : CallStack) (c : Call) : (s.after c).frames = c.leaves s.frames := by
  cases c with
  | push w => exact s.frames_push w
  | pop => exact s.frames_pop
  | _ => rfl

theorem answer_eq (s : CallStack) (c : Call) : s.answer c = c.answer s.frames := by
  cases c <;> simp [answer, Call.answer, pop_fst, top_eq, isEmpty_eq, isFull_eq, capacity]

theorem answers_eq (s : CallStack) (calls : List Call) :
    s.answers calls = listAnswers s.frames calls := by
  induction calls generalizing s with
  | nil => rfl
  | cons c calls ih => simp only [answers, listAnswers, answer_eq, ih, frames_after]

/-! ## Nested calls -/

/-- Pushes and pops in which each push has a pop of its own, behind those of all later pushes. -/
inductive Nesting where
  | nil
  | nest (w : Word) (inner later : Nesting)

namespace Nesting

def calls : Nesting → List Call
  | nil => []
  | nest w inner later => .push w :: inner.calls ++ .pop :: later.calls

def answers : Nesting → List Answer
  | nil => []
  | nest w inner later => .done :: inner.answers ++ .word w :: later.answers

def height : Nesting → Nat
  | nil => 0
  | nest _ inner later => max (inner.height + 1) later.height

theorem listAnswers_calls (n : Nesting) {live : List Word} (room : live.length + n.height ≤ 16)
    (calls : List Call) :
    listAnswers live (n.calls ++ calls) = n.answers ++ listAnswers live calls := by
  induction n generalizing live calls with
  | nil => rfl
  | nest w inner later first second =>
    simp only [height] at room
    have fits : live.length < 16 := by omega
    have inside := @first (live ++ [w]) (by simp; omega) (.pop :: (later.calls ++ calls))
    have behind := @second live (by omega) calls
    simp [Nesting.calls, answers, listAnswers, Call.leaves, Call.answer, fits, inside, behind]

end Nesting

/-- **A call stack is a bounded list.** From an empty one on, all answers are those of a list with room
for sixteen words. Stacks with the same live frames answer alike; a full stack answers as if nothing
had been pushed on it; and nested pushes and pops that fit give each word back to its own pop. -/
theorem answers_as_list :
    (∀ calls, empty.answers calls = listAnswers [] calls) ∧
    (∀ (s t : CallStack) calls, s.frames = t.frames → s.answers calls = t.answers calls) ∧
    (∀ (s : CallStack) w calls, s.isFull → s.answers (.push w :: calls) = .done :: s.answers calls) ∧
    ∀ (s : CallStack) (n : Nesting) calls, s.size + n.height ≤ 16 →
      s.answers (n.calls ++ calls) = n.answers ++ s.answers calls := by
  refine ⟨?_, ?_, ?_, ?_⟩
  · intro calls
    rw [answers_eq, frames_empty]
  · intro s t calls same
    rw [answers_eq, answers_eq, same]
  · intro s w calls full
    have dropped : s.push w = s := s.push_of_full w (by simpa [isFull, size] using full)
    simp only [answers, after, answer, dropped]
  · intro s n calls room
    rw [answers_eq, answers_eq]
    exact n.listAnswers_calls (by simpa using room) calls

def stale : CallStack :=
  (empty.push 0x202).pop.2

def full : CallStack :=
  (List.range 16).foldl (fun s k => s.push (.ofNat k)) empty

def routines : Nesting :=
  .nest 0x202 (.nest 0x304 .nil (.nest 0x306 .nil .nil)) .nil

/-- The word in the slot of `stale` is not seen again, nor one that is pushed on `full`, and the words
of `routines` come back in turn. -/
theorem answers_as_list_routines :
    stale ≠ empty ∧ stale.answers [.top, .push 5, .frames] = empty.answers [.top, .push 5, .frames] ∧
      full.answers [.push 99, .top, .size] = .done :: full.answers [.top, .size] ∧
      stale.answers (routines.calls ++ [.isEmpty]) =
        [.done, .done, .word 0x304, .done, .word 0x306, .word 0x202, .flag true] := by
  obtain ⟨-, alike, dropped, nested⟩ := answers_as_list
  refine ⟨by decide, alike stale empty _ (by decide), dropped full 99 _ (by decide), ?_⟩
  exact nested stale routines [.isEmpty] (by decide)

end CallStack

end Chip8
