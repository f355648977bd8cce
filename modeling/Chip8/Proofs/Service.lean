import Mathlib.Logic.Function.Iterate
import Chip8.Machine.Run

/-!
# Services

The core of a machine is what programs compute with; the rest are its peripherals and its records.
A service works on the peripherals alone and reads nothing of the core but the screen, and a wait for
a key is a number of turns, each a service and a look for a close. What a turn leaves follows from
the script of the frontend: the polls still to come.
-/

namespace Chip8

namespace Machine

/-! ## Core and peripherals -/

def withCore (m c : Machine) : Machine :=
  { m with
    v := c.v, index := c.index, pc := c.pc, stack := c.stack, memory := c.memory
    screen := c.screen, random := c.random, lastRandom := c.lastRandom
    advancesIndex := c.advancesIndex, fault := c.fault }

@[simp] theorem hasFrontend_withCore (m c : Machine) :
    (m.withCore c).hasFrontend = m.hasFrontend := rfl

theorem service_withCore (m : Machine) {c : Machine} (screen : c.screen = m.screen) :
    (m.withCore c).service = m.service.withCore c := by
  cases hf : m.frontend with
  | none => simp [service, tick, poll, present, withCore, hf]
  | some f => cases hr : m.redraw <;> simp [service, tick, poll, present, withCore, hf, hr, screen]

theorem service_eq_withCore (m : Machine) : m.service = m.service.withCore m :=
  service_withCore m rfl

@[simp] theorem pc_service (m : Machine) : m.service.pc = m.pc := by
  rw [service_eq_withCore]; rfl

@[simp] theorem v_service (m : Machine) : m.service.v = m.v := by
  rw [service_eq_withCore]; rfl

@[simp] theorem index_service (m : Machine) : m.service.index = m.index := by
  rw [service_eq_withCore]; rfl

@[simp] theorem stack_service (m : Machine) : m.service.stack = m.stack := by
  rw [service_eq_withCore]; rfl

@[simp] theorem screen_service (m : Machine) : m.service.screen = m.screen := by
  rw [service_eq_withCore]; rfl

@[simp] theorem memory_service (m : Machine) : m.service.memory = m.memory := by
  rw [service_eq_withCore]; rfl

@[simp] theorem fault_service (m : Machine) : m.service.fault = m.fault := by
  rw [service_eq_withCore]; rfl

@[simp] theorem keyWait_service (m : Machine) : m.service.keyWait = m.keyWait := by
  cases hf : m.frontend with
  | none => simp [service, tick, poll, present, hf]
  | some f => cases hr : m.redraw <;> simp [service, tick, poll, present, hf, hr]

@[simp] theorem closing_service (m : Machine) : m.service.closing = m.closing := by
  cases hf : m.frontend with
  | none => simp [service, tick, poll, present, hf]
  | some f => cases hr : m.redraw <;> simp [service, tick, poll, present, hf, hr]

@[simp] theorem log_service (m : Machine) : m.service.log = m.log := by
  cases hf : m.frontend with
  | none => simp [service, tick, poll, present, hf]
  | some f => cases hr : m.redraw <;> simp [service, tick, poll, present, hf, hr]

@[simp] theorem hasFrontend_service (m : Machine) : m.service.hasFrontend = m.hasFrontend := by
  simp [hasFrontend, frontend_service]

/-! ## Turns -/

/-- A service and a look for a close. -/
def turn (m : Machine) : Machine :=
  m.service.observeClose

theorem service_eq_turn (m : Machine) : m.service = { m.turn with closing := m.closing } := by
  rw [turn, observeClose, ← closing_service m]

theorem turn_withCore (m : Machine) {c : Machine} (screen : c.screen = m.screen) :
    (m.withCore c).turn = m.turn.withCore c := by
  rw [turn, service_withCore m screen]; rfl

@[simp] theorem screen_turn (m : Machine) : m.turn.screen = m.screen :=
  screen_service m

@[simp] theorem hasFrontend_turn (m : Machine) : m.turn.hasFrontend = m.hasFrontend :=
  hasFrontend_service m

theorem turns_withCore (n : Nat) (m : Machine) {c : Machine} (screen : c.screen = m.screen) :
    turn^[n] (m.withCore c) = (turn^[n] m).withCore c := by
  induction n generalizing m with
  | zero => rfl
  | succ n ih =>
    rw [Function.iterate_succ_apply, turn_withCore m screen, ih m.turn (by simpa using screen),
      Function.iterate_succ_apply]

/-! ## The script -/

def script (m : Machine) : List Poll :=
  (m.frontend.map Frontend.pending).getD []

def polls (m : Machine) : Nat :=
  (m.frontend.map Frontend.polls).getD 0

def keysAfter (m : Machine) (n : Nat) : Keypad :=
  (m.script.take n).foldl (fun keys p => p.apply keys) m.keypad

def clockAfter (m : Machine) (n : Nat) : Nat :=
  (m.script.take n).foldl (fun time p => time + p.elapsed) m.clock

/-- The timers after `n` more polls, each with one tick before it. -/
def timersAfter (m : Machine) (n : Nat) : Timers :=
  ((List.range n).map m.clockAfter).foldl Timers.tick m.timers

/-- Whether a close is seen after `n` more polls: one was asked for before, a poll of the script asks
for one, or the script is used up. -/
def closeSeenAfter (m : Machine) (n : Nat) : Bool :=
  m.closing || m.frontend.any fun f =>
    f.closed || (f.pending.take n).any Poll.close || decide (f.pending.length < n)

theorem apply_farewell (keys : Keypad) : Poll.farewell.apply keys = keys := rfl

theorem turn_of_frontend {m : Machine} {f : Frontend} (attached : m.frontend = some f) :
    m.turn.frontend = some (if m.redraw then f.poll.display m.screen else f.poll) ∧
      m.turn.keypad = f.next.apply m.keypad ∧ m.turn.clock = m.clock + f.next.elapsed ∧
      m.turn.timers = m.timers.tick m.clock ∧ m.turn.closing = (m.closing || f.poll.closed) := by
  cases hr : m.redraw <;>
    simp [turn, observeClose, service, tick, poll, present, attached, hr, Frontend.display]

theorem turn_of_headless {m : Machine} (alone : m.frontend = none) :
    m.turn = m.tick := by
  simp [turn, observeClose, service, tick, poll, present, alone]

theorem script_turn (m : Machine) : m.turn.script = m.script.tail := by
  cases hf : m.frontend with
  | none => simp [turn_of_headless hf, tick, script, hf]
  | some f =>
    obtain ⟨after, -⟩ := turn_of_frontend hf
    simp only [script, after, hf]
    split <;> simp [Frontend.display, Frontend.poll]

theorem polls_turn {m : Machine} (attached : m.hasFrontend) : m.turn.polls = m.polls + 1 := by
  obtain ⟨f, hf⟩ := Option.isSome_iff_exists.1 attached
  obtain ⟨after, -⟩ := turn_of_frontend hf
  simp only [polls, after, hf]
  split <;> simp [Frontend.display, Frontend.poll]

theorem keysAfter_succ (m : Machine) (n : Nat) : m.keysAfter (n + 1) = m.turn.keysAfter n := by
  rw [keysAfter, keysAfter, script_turn]
  cases hf : m.frontend with
  | none => simp [turn_of_headless hf, tick, script, hf]
  | some f =>
    obtain ⟨-, keypad, -⟩ := turn_of_frontend hf
    have left : m.script = f.pending := by simp [script, hf]
    rw [keypad, left, Frontend.next]
    cases f.pending <;> simp [apply_farewell]

theorem clockAfter_succ (m : Machine) (n : Nat) : m.clockAfter (n + 1) = m.turn.clockAfter n := by
  rw [clockAfter, clockAfter, script_turn]
  cases hf : m.frontend with
  | none => simp [turn_of_headless hf, tick, script, hf]
  | some f =>
    obtain ⟨-, -, clock, -⟩ := turn_of_frontend hf
    have left : m.script = f.pending := by simp [script, hf]
    rw [clock, left, Frontend.next]
    cases f.pending <;> simp [Poll.farewell]

theorem timersAfter_succ (m : Machine) (n : Nat) :
    m.timersAfter (n + 1) = m.turn.timersAfter n := by
  have first : m.turn.timers = m.timers.tick (m.clockAfter 0) := by
    cases hf : m.frontend with
    | none => simp [turn_of_headless hf, tick, clockAfter]
    | some f =>
      obtain ⟨-, -, -, timers, -⟩ := turn_of_frontend hf
      simp [timers, clockAfter]
  simp only [timersAfter, first, List.range_succ_eq_map, List.map_cons, List.foldl_cons,
    List.map_map]
  congr 1
  exact List.map_congr_left fun k _ => clockAfter_succ m k

theorem closeSeenAfter_succ (m : Machine) (n : Nat) :
    m.closeSeenAfter (n + 1) = m.turn.closeSeenAfter n := by
  cases hf : m.frontend with
  | none => simp [closeSeenAfter, turn_of_headless hf, tick, hf]
  | some f =>
    obtain ⟨after, -, -, -, closing⟩ := turn_of_frontend hf
    have polled : m.turn.closeSeenAfter n =
        (m.closing || f.poll.closed ||
          (f.poll.closed || (f.pending.tail.take n).any Poll.close ||
            decide (f.pending.tail.length < n))) := by
      simp only [closeSeenAfter, after, closing]
      split <;> simp [Frontend.display, Frontend.poll]
    rw [polled]
    simp only [closeSeenAfter, hf, Frontend.poll, Frontend.next, Option.any_some]
    cases f.pending with
    | nil => simp [Poll.farewell]
    | cons p rest =>
      have shorter : decide ((p :: rest).length < n + 1) = decide (rest.length < n) := by simp
      simp only [shorter, List.take_succ_cons, List.any_cons, List.headD_cons, List.tail_cons]
      cases m.closing <;> cases f.closed <;> cases p.close <;> rfl

theorem closing_turn (m : Machine) : m.turn.closing = m.closeSeenAfter 1 := by
  rw [closeSeenAfter_succ]
  simp [closeSeenAfter, turn, observeClose]

/-! ## Turns one after the other -/

/-- What is told ahead turn by turn is told ahead after any number of turns. -/
theorem after_turns {α : Type} {after : Machine → Nat → α}
    (succ : ∀ m n, after m (n + 1) = after m.turn n) (m : Machine) (n k : Nat) :
    after (turn^[n] m) k = after m (n + k) := by
  induction n generalizing m with
  | zero => rw [Function.iterate_zero_apply, Nat.zero_add]
  | succ n ih => rw [Function.iterate_succ_apply, ih, Nat.add_right_comm, succ]

theorem keypad_turns (n : Nat) (m : Machine) : (turn^[n] m).keypad = m.keysAfter n :=
  after_turns keysAfter_succ m n 0

theorem clock_turns (n : Nat) (m : Machine) : (turn^[n] m).clock = m.clockAfter n := by
  rw [← Nat.add_zero n, ← after_turns clockAfter_succ m n 0]
  simp [clockAfter]

theorem timers_turns (n : Nat) (m : Machine) : (turn^[n] m).timers = m.timersAfter n :=
  after_turns timersAfter_succ m n 0

theorem closing_turns (n : Nat) (m : Machine) :
    (turn^[n + 1] m).closing = m.closeSeenAfter (n + 1) := by
  rw [Function.iterate_succ_apply', closing_turn, after_turns closeSeenAfter_succ]

@[simp] theorem hasFrontend_turns (n : Nat) (m : Machine) :
    (turn^[n] m).hasFrontend = m.hasFrontend := by
  induction n generalizing m with
  | zero => rfl
  | succ n ih => rw [Function.iterate_succ_apply, ih, hasFrontend_turn]

@[simp] theorem keyWait_turns (n : Nat) (m : Machine) : (turn^[n] m).keyWait = m.keyWait := by
  induction n generalizing m with
  | zero => rfl
  | succ n ih => rw [Function.iterate_succ_apply, ih]; exact keyWait_service m

@[simp] theorem log_turns (n : Nat) (m : Machine) : (turn^[n] m).log = m.log := by
  induction n generalizing m with
  | zero => rfl
  | succ n ih => rw [Function.iterate_succ_apply, ih]; exact log_service m

theorem script_turns (n : Nat) (m : Machine) : (turn^[n] m).script = m.script.drop n := by
  induction n generalizing m with
  | zero => simp
  | succ n ih => rw [Function.iterate_succ_apply, ih, script_turn, List.drop_tail]

theorem polls_turns (n : Nat) {m : Machine} (attached : m.hasFrontend) :
    (turn^[n] m).polls = m.polls + n := by
  induction n generalizing m with
  | zero => simp
  | succ n ih =>
    rw [Function.iterate_succ_apply, ih (by simpa using attached), polls_turn attached]
    omega

theorem le_length_script {m : Machine} {n : Nat} (attached : m.hasFrontend)
    (unseen : m.closeSeenAfter n = false) : n ≤ m.script.length := by
  obtain ⟨f, hf⟩ := Option.isSome_iff_exists.1 attached
  simp [closeSeenAfter, hf] at unseen
  simp [script, hf, unseen]

end Machine

end Chip8
