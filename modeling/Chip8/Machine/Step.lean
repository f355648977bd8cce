import Chip8.Machine.Basic

/-!
# One step of a machine

A step fetches a word, carries it out and services the peripherals: the timers tick, the frontend is
polled and, if the screen may have changed, shown it. An instruction that waits for a key services
the peripherals until a key is down, and in the careful mode until it is up again; the wait gives up
when a close is seen. Main statement: a service that leaves the frontend open uses up a poll, which
is why every wait ends.
-/

namespace Chip8.Machine

/-! ## Peripherals -/

def tick (m : Machine) : Machine :=
  { m with timers := m.timers.tick m.clock }

def poll (m : Machine) : Machine :=
  match m.frontend with
  | none => m
  | some f =>
    { m with
      frontend := some f.poll
      keypad := f.next.apply m.keypad
      clock := m.clock + f.next.elapsed }

def present (m : Machine) : Machine :=
  match m.frontend with
  | none => m
  | some f =>
    if m.redraw then { m with frontend := some (f.display m.screen), redraw := false } else m

def service (m : Machine) : Machine :=
  m.tick.poll.present

/-! ## Waiting for a key -/

def pendingPolls (m : Machine) : Nat :=
  (m.frontend.map fun f => f.pending.length).getD 0

theorem frontend_service (m : Machine) :
    m.service.frontend =
      m.frontend.map fun f => if m.redraw then f.poll.display m.screen else f.poll := by
  cases hf : m.frontend with
  | none => simp [service, tick, poll, present, hf]
  | some f => cases hr : m.redraw <;> simp [service, tick, poll, present, hf, hr]

theorem pendingPolls_service_lt {m : Machine} (attached : m.hasFrontend)
    (opened : m.service.observeClose.closing = false) :
    m.service.observeClose.pendingPolls < m.pendingPolls := by
  obtain ⟨f, hf⟩ := Option.isSome_iff_exists.1 attached
  have after : m.service.frontend = some (if m.redraw then f.poll.display m.screen else f.poll) := by
    simp [frontend_service, hf]
  have stillOpen : f.poll.closed = false := by
    simp only [observeClose, Bool.or_eq_false_iff] at opened
    have := opened.2
    rw [after] at this
    split at this <;> simpa [Frontend.display] using this
  have shorter := Frontend.length_pending_poll_lt stillOpen
  simp only [pendingPolls, observeClose, after, hf]
  split <;> simpa [Frontend.display] using shorter

/-- Services the peripherals until a key is down, and gives the lowest one. There is none if a
close is seen first, or if nothing could ever press a key. -/
def awaitPress (m : Machine) (x : Register) : Option Key × Machine :=
  match m.keypad.lowest? with
  | some k => (some k, m)
  | none =>
    if _ : m.hasFrontend then
      let next := m.service.observeClose
      if _ : next.closing = false then next.awaitPress x else (none, next)
    else (none, m.report [.waitSkipped x])
termination_by m.pendingPolls
decreasing_by exact pendingPolls_service_lt ‹_› ‹_›

/-- Services the peripherals until a key is up, a close is seen, or nothing could release it. -/
def awaitRelease (m : Machine) (k : Key) : Machine :=
  if _ : m.hasFrontend ∧ m.keypad.isDown k then
    let next := m.service.observeClose
    if _ : next.closing = false then next.awaitRelease k else next
  else m
termination_by m.pendingPolls
decreasing_by exact pendingPolls_service_lt (And.left ‹_›) ‹_›

def awaitKey (m : Machine) (x : Register) : Machine :=
  match m.awaitPress x with
  | (none, m) => m
  | (some k, m) =>
    let stored := m.setRegister x k.toByte
    match m.keyWait with
    | .press => stored
    | .release => stored.awaitRelease k

/-! ## Steps -/

def nextWord (m : Machine) : Word :=
  m.memory.readWord m.pc

def passWord (m : Machine) : Machine :=
  { m with pc := m.pc.advance 2 }

/-- Records a fault, unless an earlier one is on record, and gives notice of it. -/
def recordFault (m : Machine) (f : Fault) : Machine :=
  { m.report [.invalid f] with fault := m.fault.or (some f) }

def carryOut (m : Machine) (i : Instruction) : Machine :=
  let effect := m.toProcessor.execute i
  let done := { m with toProcessor := effect.processor }.report effect.notices
  match effect.awaits with
  | none => done
  | some x => done.awaitKey x

def perform (m : Machine) : Machine :=
  let fetched := m.passWord.report [.executing m.pc m.nextWord]
  match Instruction.decode? m.nextWord with
  | some i => fetched.carryOut i
  | none => fetched.recordFault ⟨m.nextWord, m.pc⟩

def step (m : Machine) : Machine :=
  m.perform.service

end Chip8.Machine
