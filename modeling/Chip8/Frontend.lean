import Chip8.Key
import Chip8.Screen

/-!
# Frontends

A frontend shows the screen, feeds the keypad and may ask to close. It is described ahead of time by
the polls still to come, so that what a machine does with it is a function. When no poll is left, the
person at the other end is taken to have gone, and the frontend asks to close.
-/

namespace Chip8

/-- What one poll brings, in the order of the fields. -/
structure Poll where
  elapsed : Nat := 0
  clear : Bool := false
  release : List Key := []
  press : List Key := []
  close : Bool := false
  deriving DecidableEq

def Poll.farewell : Poll :=
  { close := true }

def Poll.apply (p : Poll) (keypad : Keypad) : Keypad :=
  let cleared := if p.clear then .idle else keypad
  p.press.foldl .press (p.release.foldl .release cleared)

structure Frontend where
  pending : List Poll
  polls : Nat := 0
  /-- The screens that were shown, latest first, each with the number of polls made before. -/
  shown : List (Nat × Screen) := []
  closed : Bool := false
  deriving DecidableEq

namespace Frontend

def next (f : Frontend) : Poll :=
  f.pending.headD .farewell

def poll (f : Frontend) : Frontend :=
  { f with
    pending := f.pending.tail
    polls := f.polls + 1
    closed := f.closed || f.next.close }

def display (f : Frontend) (s : Screen) : Frontend :=
  { f with shown := (f.polls, s) :: f.shown }

theorem length_pending_poll_lt {f : Frontend} (h : f.poll.closed = false) :
    f.poll.pending.length < f.pending.length := by
  obtain ⟨pending, polls, shown, closed⟩ := f
  cases pending with
  | nil => simp [poll, next, Poll.farewell] at h
  | cons p rest => simp [poll]

end Frontend

end Chip8
