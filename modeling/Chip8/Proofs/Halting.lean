import Chip8.Proofs.KeyWait

/-!
# Halting

A run to the end is a number of steps, before each of which the machine was running. The script of a
frontend bounds the polls of one step and the steps of a run, as a script that is used up asks to
close. Main statements: `runFor_iterate`, `step_and_run_within_script`.
-/

namespace Chip8

namespace Machine

/-- No fault is on record and no close is seen. -/
def Running (m : Machine) : Prop :=
  m.fault = none ∧ m.observeClose.closing = false

def stop (m : Machine) : Halt :=
  match m.fault with
  | some f => .fault f
  | none => .closed

theorem observeClose_of_running {m : Machine} (running : m.Running) : m.observeClose = m := by
  obtain ⟨-, opened⟩ := running
  simp only [observeClose, Bool.or_eq_false_iff] at opened ⊢
  rw [opened.1, opened.2]
  exact congrArg (fun c => { m with closing := c }) opened.1.symm

/-! ## Runs and steps -/

theorem runFor_succ_of_running {m : Machine} (running : m.Running) (bound : Nat) :
    runFor (bound + 1) m = runFor bound m.step := by
  have same := observeClose_of_running running
  obtain ⟨sound, opened⟩ := running
  rw [same] at opened
  rw [runFor, sound]
  simp [same, opened]

theorem runFor_succ_of_stopped {m : Machine} (stopped : ¬ m.Running) (bound : Nat) :
    ∃ seen, runFor (bound + 1) m = (some m.stop, { m with closing := seen }) := by
  unfold runFor
  split
  · next f hf =>
    have why : m.stop = .fault f := by simp [stop, hf]
    exact ⟨m.closing, by rw [why]⟩
  · next sound =>
    have why : m.stop = .closed := by simp [stop, sound]
    have closed : m.observeClose.closing = true := by
      simpa [Running, sound] using stopped
    exact ⟨m.observeClose.closing, by simp only [why, closed, if_true]; rw [← closed]; rfl⟩

theorem runFor_of_stopped {k : Nat} {m : Machine} (running : ∀ i < k, (step^[i] m).Running)
    (stopped : ¬ (step^[k] m).Running) {bound : Nat} (room : k < bound) :
    ∃ seen, runFor bound m = (some (step^[k] m).stop, { step^[k] m with closing := seen }) := by
  obtain ⟨more, rfl⟩ := Nat.exists_eq_add_of_lt room
  induction k generalizing m with
  | zero =>
    rw [Nat.zero_add]
    exact runFor_succ_of_stopped stopped more
  | succ k ih =>
    have later : ∀ i < k, (step^[i] m.step).Running := fun i below => running (i + 1) (by omega)
    have first : m.Running := running 0 (by omega)
    rw [runFor_succ_of_running first, Nat.add_right_comm k 1 more]
    exact ih later stopped (by omega)

theorem stopped_of_runFor {bound : Nat} {m last : Machine} {h : Halt}
    (ended : runFor bound m = (some h, last)) :
    ∃ k < bound, (∀ i < k, (step^[i] m).Running) ∧ ¬ (step^[k] m).Running := by
  induction bound generalizing m with
  | zero => cases ended
  | succ bound ih =>
    by_cases running : m.Running
    · rw [runFor_succ_of_running running] at ended
      obtain ⟨k, below, before, stopped⟩ := ih ended
      refine ⟨k + 1, by omega, ?_, stopped⟩
      intro i bound
      cases i with
      | zero => exact running
      | succ i => exact before i (by omega)
    · exact ⟨0, by omega, by omega, running⟩

/-! ## The fault of one step -/

theorem fault_carryOut (m : Machine) (i : Instruction) : (m.carryOut i).fault = m.fault := by
  simp only [carryOut]
  split
  · rfl
  · next x _ =>
    obtain ⟨v, core⟩ := awaitKey_eq_withCore _ x
    rw [core]
    rfl

theorem decode?_of_fault_step {m : Machine} {f : Fault} (sound : m.fault = none)
    (faulty : m.step.fault = some f) :
    Instruction.decode? f.word = none ∧ m.step.memory.readWord f.address = f.word ∧
      m.step.pc = f.address.advance 2 := by
  rw [step, fault_service, perform] at faulty
  cases next : Instruction.decode? m.nextWord with
  | some i =>
    rw [next] at faulty
    have kept := (fault_carryOut m.fetched i).symm.trans faulty
    rw [show m.fetched.fault = m.fault from rfl, sound] at kept
    cases kept
  | none =>
    simp only [next, recordFault, report, passWord, sound, Option.none_or, Option.some.injEq]
      at faulty
    subst faulty
    simp only [step, memory_service, pc_service, perform, next]
    exact ⟨trivial, rfl, rfl⟩

/-- **A run to the end, step by step.** It leaves what a number of steps leaves, up to the request to
close. The machine was running before each of them and is not after the last; a fault takes
precedence over a close. A fault that was not there at the start is the word passed over last. -/
theorem runFor_iterate {bound : Nat} {m last : Machine} {h : Halt}
    (ended : runFor bound m = (some h, last)) :
    ∃ k < bound, last = { step^[k] m with closing := last.closing } ∧
      (∀ i < k, (step^[i] m).fault = none ∧ (step^[i] m).observeClose.closing = false) ∧
      ((step^[k] m).fault.isSome ∨ (step^[k] m).observeClose.closing) ∧
      h = (match (step^[k] m).fault with | some f => .fault f | none => .closed) ∧
      (m.fault = none → ∀ w a, h = .fault ⟨w, a⟩ →
        Instruction.decode? w = none ∧ last.memory.readWord a = w ∧ last.pc = a.advance 2) := by
  obtain ⟨k, below, running, stopped⟩ := stopped_of_runFor ended
  obtain ⟨seen, left⟩ := runFor_of_stopped running stopped below
  rw [ended] at left
  obtain ⟨why, rfl⟩ : h = (step^[k] m).stop ∧ last = { step^[k] m with closing := seen } := by
    simpa using left
  refine ⟨k, below, rfl, running, ?_, why, ?_⟩
  · cases hf : (step^[k] m).fault with
    | some f => exact Or.inl rfl
    | none => exact Or.inr (by simpa [Running, hf] using stopped)
  · intro sound w a invalid
    have recorded : (step^[k] m).fault = some ⟨w, a⟩ := by
      rw [why, stop] at invalid
      split at invalid
      · next f hf => simpa [hf] using invalid
      · cases invalid
    cases k with
    | zero =>
      rw [Function.iterate_zero_apply, sound] at recorded
      cases recorded
    | succ k =>
      rw [Function.iterate_succ_apply'] at recorded
      obtain ⟨undecoded, word, past⟩ := decode?_of_fault_step (running k (by omega)).1 recorded
      rw [← Function.iterate_succ_apply' step] at word past
      exact ⟨undecoded, word, past⟩

def beforeFault : Machine :=
  ((start {} 0).writeWord .start 0xFFFF).attach { pending := [{ close := true }] }

theorem runFor_beforeFault :
    ∃ last, runFor 2 beforeFault = (some (.fault ⟨0xFFFF, .start⟩), last) ∧
      last.memory.readWord .start = 0xFFFF ∧ last.pc = Address.start.advance 2 := by
  have next : beforeFault.nextWord = 0xFFFF := Memory.readWord_writeWord _ _ _
  have undecoded : Instruction.decode? beforeFault.nextWord = none := by rw [next]; decide
  have faulty : beforeFault.step.fault = some ⟨0xFFFF, .start⟩ := by
    rw [step, fault_service, perform, undecoded, next]
    rfl
  have ended : runFor 2 beforeFault = (some (.fault ⟨0xFFFF, .start⟩), beforeFault.step) := by
    have first : beforeFault.Running := ⟨rfl, rfl⟩
    rw [runFor_succ_of_running first, runFor, faulty]
  obtain ⟨k, -, -, -, -, -, recorded⟩ := runFor_iterate ended
  exact ⟨_, ended, (recorded rfl _ _ rfl).2⟩

/-! ## The polls of one step -/

/-- How far a frontend was polled between two machines, with `n` polls. -/
def PolledBy (n : Nat) (m m' : Machine) : Prop :=
  m'.hasFrontend ∧ m'.script = m.script.drop n ∧ m'.polls = m.polls + n

theorem polledBy_turns (n : Nat) {m : Machine} (attached : m.hasFrontend) :
    PolledBy n m (turn^[n] m) :=
  ⟨by rwa [hasFrontend_turns], script_turns n m, polls_turns n attached⟩

theorem polledBy_service {m : Machine} (attached : m.hasFrontend) : PolledBy 1 m m.service := by
  rw [service_eq_turn]
  exact polledBy_turns 1 attached

/-- Both phases of a wait together poll at most once more than there are polls to come. -/
theorem phases_le {m : Machine} {first second : Nat} {key : Option Key} (attached : m.hasFrontend)
    (pressed : PressedAfter m first key) (released : ReleasedAfter m first key second) :
    first + second ≤ m.script.length + 1 := by
  -- A phase that goes on has seen no close, so the poll before its last is one of the script.
  have fits : ∀ n, m.closeSeenAfter n = false → n ≤ m.script.length :=
    fun n unseen => le_length_script attached unseen
  have pressed_le : first ≤ m.script.length + 1 ∧ (key.isSome → first ≤ m.script.length) := by
    cases pressed with
    | held down => exact ⟨by omega, fun _ => by omega⟩
    | headless idle alone => exact ⟨by omega, fun _ => by omega⟩
    | @polled n _ idle _ before last ends =>
      constructor
      · rcases Nat.eq_zero_or_pos n with rfl | positive
        · omega
        · have := fits n (before n positive (by omega)).1
          omega
      · intro got
        refine fits (n + 1) ?_
        cases unseen : m.closeSeenAfter (n + 1) with
        | false => rfl
        | true => simp [last, unseen] at got
  cases key with
  | none =>
    obtain rfl : second = 0 := released
    omega
  | some k =>
    have got := pressed_le.2 rfl
    simp only [ReleasedAfter] at released
    split at released
    · rcases Nat.lt_or_ge second 2 with short | long
      · omega
      · have := fits (first + (second - 1)) ((released.1 (second - 1) (by omega)).2 (by omega))
        omega
    · omega

theorem polledBy_awaitKey {m : Machine} (attached : m.hasFrontend) (x : Register) :
    ∃ n ≤ m.script.length + 1, PolledBy n m (m.awaitKey x) := by
  obtain ⟨first, second, key, pressed, released, waited⟩ := m.awaitKey_turns x
  refine ⟨first + second, phases_le attached pressed released, ?_⟩
  rw [waited, noteSkipped_of_attached attached]
  exact polledBy_turns (first + second) attached

theorem polledBy_perform {m : Machine} (attached : m.hasFrontend) :
    ∃ n ≤ m.script.length + 1, PolledBy n m m.perform := by
  simp only [perform, carryOut]
  split
  · split
    · exact ⟨0, by omega, attached, rfl, rfl⟩
    · generalize hdone : report _ _ = done
      have same : done.script = m.script ∧ done.polls = m.polls ∧
          done.hasFrontend = m.hasFrontend := by
        rw [← hdone]
        exact ⟨rfl, rfl, rfl⟩
      have polled := polledBy_awaitKey (same.2.2.trans attached)
      unfold PolledBy at polled ⊢
      rw [same.1, same.2.1] at polled
      exact polled _
  · exact ⟨0, by omega, attached, rfl, rfl⟩

theorem polledBy_step {m : Machine} (attached : m.hasFrontend) :
    ∃ n, 1 ≤ n ∧ n ≤ m.script.length + 2 ∧ PolledBy n m m.step := by
  obtain ⟨n, bound, attached', script, polls⟩ := polledBy_perform attached
  obtain ⟨attached'', script', polls'⟩ := polledBy_service attached'
  refine ⟨n + 1, by omega, by omega, attached'', ?_, ?_⟩
  · rw [step, script', script, List.drop_drop]
  · rw [step, polls', polls, Nat.add_assoc]

/-! ## The steps of a run -/

theorem pendingPolls_eq (m : Machine) : m.pendingPolls = m.script.length := by
  unfold pendingPolls script
  cases m.frontend <;> rfl

theorem script_step_lt {m : Machine} (attached : m.hasFrontend) (running : m.step.Running) :
    m.step.script.length < m.script.length := by
  obtain ⟨n, -, attached', script, -⟩ := polledBy_perform attached
  have shorter : m.step.observeClose.pendingPolls < m.perform.pendingPolls :=
    pendingPolls_service_lt attached' running.2
  rw [pendingPolls_eq, pendingPolls_eq, script, List.length_drop] at shorter
  exact Nat.lt_of_lt_of_le shorter (Nat.sub_le _ _)

theorem stops_within_script {m : Machine} (attached : m.hasFrontend) :
    ∃ k ≤ m.script.length + 1, (∀ i < k, (step^[i] m).Running) ∧ ¬ (step^[k] m).Running := by
  -- The measure is the script, which shrinks with every step but the last.
  induction hn : m.script.length using Nat.strongRecOn generalizing m with
  | _ n ih =>
    by_cases first : m.Running
    · by_cases second : m.step.Running
      · have shorter := script_step_lt attached second
        obtain ⟨-, -, -, attached', -, -⟩ := polledBy_step attached
        obtain ⟨k, bound, before, stopped⟩ := ih _ (hn ▸ shorter) attached' rfl
        refine ⟨k + 1, by omega, ?_, stopped⟩
        intro i below
        cases i with
        | zero => exact first
        | succ i => exact before i (by omega)
      · refine ⟨1, by omega, ?_, second⟩
        intro i below
        obtain rfl : i = 0 := by omega
        exact first
    · exact ⟨0, by omega, by omega, first⟩

/-- **A finite script bounds every step and every run.** With `n` polls to come a step makes one poll
at least and `n + 2` at most, and a run to the end halts after at most `n + 1` steps. -/
theorem step_and_run_within_script {m : Machine} {f : Frontend} (attached : m.frontend = some f) :
    (∃ f' n, m.step.frontend = some f' ∧ f'.polls = f.polls + n ∧
      1 ≤ n ∧ n ≤ f.pending.length + 2) ∧
    ∃ k ≤ f.pending.length + 1, (∀ i < k, (step^[i] m).Running) ∧ ¬ (step^[k] m).Running ∧
      ∀ bound, k < bound → ∃ h seen,
        runFor bound m = (some h, { step^[k] m with closing := seen }) := by
  have script : m.script = f.pending := by simp [script, attached]
  have polls : m.polls = f.polls := by simp [polls, attached]
  have present : m.hasFrontend := by simp [hasFrontend, attached]
  constructor
  · obtain ⟨n, positive, bound, attached', -, polled⟩ := polledBy_step present
    obtain ⟨f', hf'⟩ := Option.isSome_iff_exists.1 attached'
    refine ⟨f', n, hf', ?_, positive, script ▸ bound⟩
    rw [← polls, ← polled]
    simp [Machine.polls, hf']
  · obtain ⟨k, bound, running, stopped⟩ := stops_within_script present
    refine ⟨k, script ▸ bound, running, stopped, ?_⟩
    intro bound room
    exact ⟨_, runFor_of_stopped running stopped room⟩

theorem runFor_beforeSeven :
    (∃ f n, beforeSeven.step.frontend = some f ∧ f.polls = n ∧ 1 ≤ n ∧ n ≤ 6) ∧
      ∃ h last, runFor 6 beforeSeven = (some h, last) := by
  obtain ⟨⟨f, n, after, polls, least, most⟩, k, bound, -, -, halts⟩ :=
    step_and_run_within_script (show beforeSeven.frontend = some _ from rfl)
  refine ⟨⟨f, n, after, polls.trans (Nat.zero_add n), least, most⟩, ?_⟩
  obtain ⟨h, seen, halted⟩ := halts 6 (Nat.lt_of_le_of_lt bound (by decide))
  exact ⟨h, _, halted⟩

end Machine

end Chip8
