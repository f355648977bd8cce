import Chip8.Proofs.Service

/-!
# The wait for a key

An instruction that waits for a key polls in two phases: until a key is down, and in the careful mode
until that key is up again. How many polls each phase takes, and which key is stored, follow from the
keypad and the script on entry. Main statement: `step_awaitKey`.
-/

namespace Chip8

namespace Machine

/-! ## The two phases, told from the script -/

/-- The first phase takes `n` polls and gives a key or none. -/
inductive PressedAfter (m : Machine) : Nat → Option Key → Prop where
  /-- A key is down on entry: no poll, and no look for a close. -/
  | held {k : Key} (down : m.keypad.lowest? = some k) : PressedAfter m 0 (some k)
  | headless (idle : m.keypad.lowest? = none) (alone : m.hasFrontend = false) :
      PressedAfter m 0 none
  /-- The poll `n + 1` is the first after which a close is seen or a key is down; a close takes
  precedence. -/
  | polled {n : Nat} {key : Option Key} (idle : m.keypad.lowest? = none) (attached : m.hasFrontend)
      (before : ∀ i, 0 < i → i ≤ n → m.closeSeenAfter i = false ∧ (m.keysAfter i).lowest? = none)
      (last : key = if m.closeSeenAfter (n + 1) then none else (m.keysAfter (n + 1)).lowest?)
      (ends : m.closeSeenAfter (n + 1) ∨ key.isSome) : PressedAfter m (n + 1) key

/-- The second phase, after a first one of `first` polls, takes `n` polls: none without a key, without
a frontend or in the quick mode; else until the key is up or a close is seen. -/
def ReleasedAfter (m : Machine) (first : Nat) (key : Option Key) (n : Nat) : Prop :=
  match key with
  | none => n = 0
  | some k =>
    if m.keyWait = .release ∧ m.hasFrontend then
      (∀ i < n, (m.keysAfter (first + i)).isDown k ∧
        (0 < i → m.closeSeenAfter (first + i) = false)) ∧
      ((m.keysAfter (first + n)).isDown k = false ∨ 0 < n ∧ m.closeSeenAfter (first + n))
    else n = 0

def storeKey (m : Machine) (x : Register) : Option Key → Machine
  | none => m
  | some k => m.setRegister x k.toByte

def noteSkipped (m : Machine) (x : Register) : Machine :=
  if m.keypad.lowest? = none ∧ m.hasFrontend = false then m.report [.waitSkipped x] else m

theorem noteSkipped_of_attached {m : Machine} (attached : m.hasFrontend) (x : Register) :
    m.noteSkipped x = m := by
  simp [noteSkipped, attached]

/-! ## The first phase -/

theorem pressedAfter_of_turn {m : Machine} {n : Nat} {key : Option Key}
    (idle : m.keypad.lowest? = none) (attached : m.hasFrontend) (opened : m.turn.closing = false)
    (later : PressedAfter m.turn n key) : PressedAfter m (n + 1) key := by
  rw [closing_turn] at opened
  have keysOne : m.keysAfter 1 = m.turn.keypad := keysAfter_succ m 0
  cases later with
  | held down =>
    refine .polled idle attached (by omega) ?_ (Or.inr rfl)
    rw [opened, keysOne, down]
    rfl
  | headless idle' alone => simp [attached] at alone
  | @polled n _ idle' _ before last ends =>
    refine .polled idle attached ?_ ?_ ?_
    · intro i positive bound
      rcases Nat.exists_eq_succ_of_ne_zero (Nat.ne_of_gt positive) with ⟨i, rfl⟩
      rcases Nat.eq_zero_or_pos i with rfl | positive
      · exact ⟨opened, by rw [keysOne, idle']⟩
      · rw [Nat.succ_eq_add_one, closeSeenAfter_succ, keysAfter_succ]
        exact before i positive (by omega)
    · rw [closeSeenAfter_succ m, keysAfter_succ m, last]
    · rw [closeSeenAfter_succ m]
      exact ends

theorem awaitPress_of_down {m : Machine} {k : Key} (down : m.keypad.lowest? = some k)
    (x : Register) : m.awaitPress x = (some k, m) := by
  rw [awaitPress, down]

theorem awaitPress_of_attached {m : Machine} (idle : m.keypad.lowest? = none)
    (attached : m.hasFrontend) (x : Register) :
    m.awaitPress x = if m.turn.closing = false then m.turn.awaitPress x else (none, m.turn) := by
  rw [awaitPress, idle]
  simp only [attached, dite_true]
  rfl

theorem awaitPress_of_headless {m : Machine} (idle : m.keypad.lowest? = none)
    (alone : m.hasFrontend = false) (x : Register) :
    m.awaitPress x = (none, m.report [.waitSkipped x]) := by
  rw [awaitPress, idle]
  simp [alone]

theorem awaitPress_turns (m : Machine) (x : Register) :
    ∃ n, PressedAfter m n (m.awaitPress x).1 ∧
      (m.awaitPress x).2 = turn^[n] (m.noteSkipped x) := by
  induction m using awaitPress.induct with
  | case1 m k down =>
    rw [awaitPress_of_down down]
    exact ⟨0, .held down, by simp [noteSkipped, down]⟩
  | case2 m idle attached next opened ih =>
    replace opened : m.turn.closing = false := opened
    obtain ⟨n, pressed, turns⟩ : ∃ n, PressedAfter m.turn n (m.turn.awaitPress x).1 ∧
      (m.turn.awaitPress x).2 = turn^[n] (m.turn.noteSkipped x) := ih
    rw [noteSkipped_of_attached (by simpa using attached)] at turns
    rw [awaitPress_of_attached idle attached, if_pos opened, noteSkipped_of_attached attached]
    exact ⟨n + 1, pressedAfter_of_turn idle attached opened pressed, turns⟩
  | case3 m idle attached next closed =>
    replace closed : ¬ m.turn.closing = false := closed
    have seen : m.closeSeenAfter 1 = true := by
      rw [← closing_turn]
      simpa using closed
    rw [awaitPress_of_attached idle attached, if_neg closed, noteSkipped_of_attached attached]
    exact ⟨1, .polled idle attached (by omega) (by simp [seen]) (Or.inl seen), rfl⟩
  | case4 m idle alone =>
    replace alone : m.hasFrontend = false := by simpa using alone
    rw [awaitPress_of_headless idle alone]
    exact ⟨0, .headless idle alone, by simp [noteSkipped, idle, alone]⟩

/-! ## The second phase -/

theorem awaitRelease_of_attached {m : Machine} {k : Key} (attached : m.hasFrontend)
    (down : m.keypad.isDown k) :
    m.awaitRelease k = if m.turn.closing = false then m.turn.awaitRelease k else m.turn := by
  rw [awaitRelease]
  simp only [attached, down, and_self, dite_true]
  rfl

theorem awaitRelease_of_up {m : Machine} {k : Key} (ends : ¬ (m.hasFrontend ∧ m.keypad.isDown k)) :
    m.awaitRelease k = m := by
  rw [awaitRelease]
  simp [ends]

theorem awaitRelease_turns (k : Key) (m : Machine) (attached : m.hasFrontend) :
    ∃ n, m.awaitRelease k = turn^[n] m ∧
      (∀ i < n, (m.keysAfter i).isDown k ∧ (0 < i → m.closeSeenAfter i = false)) ∧
      ((m.keysAfter n).isDown k = false ∨ 0 < n ∧ m.closeSeenAfter n) := by
  induction m using awaitRelease.induct k with
  | case1 m down next opened ih =>
    replace opened : m.turn.closing = false := opened
    obtain ⟨n, turns, before, ends⟩ := ih ((hasFrontend_turn m).trans attached)
    rw [awaitRelease_of_attached attached down.2, if_pos opened]
    refine ⟨n + 1, turns, ?_, ?_⟩
    · intro i bound
      cases i with
      | zero => exact ⟨down.2, by omega⟩
      | succ i =>
        rw [keysAfter_succ, closeSeenAfter_succ]
        refine ⟨(before i (by omega)).1, fun _ => ?_⟩
        rcases Nat.eq_zero_or_pos i with rfl | positive
        · rw [← closeSeenAfter_succ, ← closing_turn]
          exact opened
        · exact (before i (by omega)).2 positive
    · rw [keysAfter_succ, closeSeenAfter_succ]
      exact ends.imp_right fun seen => ⟨by omega, seen.2⟩
  | case2 m down next closed =>
    replace closed : ¬ m.turn.closing = false := closed
    rw [awaitRelease_of_attached attached down.2, if_neg closed]
    refine ⟨1, rfl, ?_, Or.inr ⟨by omega, ?_⟩⟩
    · intro i bound
      obtain rfl : i = 0 := by omega
      exact ⟨down.2, by omega⟩
    · rw [← closing_turn]
      simpa using closed
  | case3 m ends =>
    rw [awaitRelease_of_up ends]
    have up : m.keypad.isDown k = false := by simpa [attached] using ends
    exact ⟨0, rfl, by omega, Or.inl up⟩

/-! ## Both phases -/

theorem noteSkipped_eq (m : Machine) (x : Register) :
    ∃ log, m.noteSkipped x = { m with log := log } := by
  unfold noteSkipped
  split
  · exact ⟨_, rfl⟩
  · exact ⟨m.log, rfl⟩

theorem turns_noteSkipped (n : Nat) (m : Machine) (x : Register) :
    turn^[n] (m.noteSkipped x) = (turn^[n] (m.noteSkipped x)).withCore m := by
  obtain ⟨log, same⟩ := m.noteSkipped_eq x
  rw [same]
  exact turns_withCore n { m with log := log } (show m.screen = m.screen from rfl)

theorem awaitRelease_stored (m : Machine) (x : Register) (k : Key) (first : Nat)
    (careful : m.keyWait = .release) :
    ∃ second, ReleasedAfter m first (some k) second ∧
      (((turn^[first] (m.noteSkipped x)).setRegister x k.toByte).awaitRelease k) =
        (turn^[first + second] (m.noteSkipped x)).withCore (m.storeKey x (some k)) := by
  have core := turns_noteSkipped first m x
  obtain ⟨log, same⟩ := m.noteSkipped_eq x
  rw [same] at core ⊢
  generalize hbefore : turn^[first] { m with log := log } = before at core ⊢
  have stored : before.setRegister x k.toByte = before.withCore (m.storeKey x (some k)) := by
    rw [core]
    rfl
  have attached_iff : before.hasFrontend = m.hasFrontend := by
    rw [← hbefore, hasFrontend_turns]
    rfl
  rw [stored]
  cases attached : m.hasFrontend with
  | false =>
    rw [awaitRelease_of_up (by simp [attached_iff, attached])]
    exact ⟨0, by simp [ReleasedAfter, attached], by rw [Nat.add_zero, hbefore]⟩
  | true =>
    obtain ⟨second, turns, during, ends⟩ := awaitRelease_turns k
      (before.withCore (m.storeKey x (some k))) (by simpa [attached_iff] using attached)
    have keys : ∀ i, (before.withCore (m.storeKey x (some k))).keysAfter i =
        m.keysAfter (first + i) := by
      intro i
      rw [← hbefore]
      exact after_turns keysAfter_succ { m with log := log } first i
    have seen : ∀ i, (before.withCore (m.storeKey x (some k))).closeSeenAfter i =
        m.closeSeenAfter (first + i) := by
      intro i
      rw [← hbefore]
      exact after_turns closeSeenAfter_succ { m with log := log } first i
    simp only [keys, seen] at during ends
    refine ⟨second, by simpa [ReleasedAfter, careful, attached] using ⟨during, ends⟩, ?_⟩
    have screen : (m.storeKey x (some k)).screen = before.screen := by
      rw [core]
      rfl
    rw [turns, turns_withCore second before screen, Nat.add_comm, Function.iterate_add_apply,
      hbefore]

theorem awaitKey_turns (m : Machine) (x : Register) :
    ∃ first second key, PressedAfter m first key ∧ ReleasedAfter m first key second ∧
      m.awaitKey x =
        (turn^[first + second] (m.noteSkipped x)).withCore (m.storeKey x key) := by
  obtain ⟨first, pressed, turns⟩ := awaitPress_turns m x
  rw [awaitKey]
  generalize m.awaitPress x = waited at pressed turns
  obtain ⟨key, before⟩ := waited
  obtain rfl : before = turn^[first] (m.noteSkipped x) := turns
  cases key with
  | none => exact ⟨first, 0, none, pressed, rfl, turns_noteSkipped first m x⟩
  | some k =>
    have mode : (turn^[first] (m.noteSkipped x)).keyWait = m.keyWait := by
      obtain ⟨log, same⟩ := m.noteSkipped_eq x
      rw [keyWait_turns, same]
    simp only [mode]
    cases quick : m.keyWait with
    | press =>
      refine ⟨first, 0, some k, pressed, by simp [ReleasedAfter, quick], ?_⟩
      simp only [Nat.add_zero]
      rw [turns_noteSkipped]
      rfl
    | release =>
      obtain ⟨second, released, stored⟩ := awaitRelease_stored m x k first quick
      exact ⟨first, second, some k, pressed, released, stored⟩

theorem awaitKey_eq_withCore (m : Machine) (x : Register) :
    ∃ v, m.awaitKey x = (m.awaitKey x).withCore { m with v := v } := by
  obtain ⟨first, second, key, -, -, waited⟩ := m.awaitKey_turns x
  rw [waited]
  cases key with
  | none => exact ⟨m.v, rfl⟩
  | some k => exact ⟨m.v.set x k.toByte, rfl⟩

/-! ## The instruction -/

theorem PressedAfter.congr {m m' : Machine} {n : Nat} {key : Option Key}
    (keypad : m'.keypad = m.keypad) (frontend : m'.frontend = m.frontend)
    (closing : m'.closing = m.closing) (h : PressedAfter m' n key) : PressedAfter m n key := by
  have keys : m'.keysAfter = m.keysAfter := by
    funext i
    simp only [keysAfter, script, keypad, frontend]
  have seen : m'.closeSeenAfter = m.closeSeenAfter := by
    funext i
    simp only [closeSeenAfter, closing, frontend]
  have attached : m'.hasFrontend = m.hasFrontend := by simp only [hasFrontend, frontend]
  cases h with
  | held down => exact .held (keypad ▸ down)
  | headless idle alone => exact .headless (keypad ▸ idle) (attached ▸ alone)
  | polled idle attached' before last ends =>
    rw [keys, seen] at *
    exact .polled (keypad ▸ idle) (attached ▸ attached') before last ends

def fetched (m : Machine) : Machine :=
  m.passWord.report [.executing m.pc m.nextWord]

theorem step_of_decode {m : Machine} {i : Instruction}
    (next : Instruction.decode? m.nextWord = some i) : m.step = (m.fetched.carryOut i).service := by
  rw [step, perform, next]
  rfl

/-- The service after a wait is one turn more, but for the look for a close. -/
theorem step_of_wait {m : Machine} {x : Register} {n : Nat} {key : Option Key}
    (next : Instruction.decode? m.nextWord = some (.awaitKey x))
    (waited : m.fetched.awaitKey x =
      (turn^[n] (m.fetched.noteSkipped x)).withCore (m.fetched.storeKey x key)) :
    m.step = { (turn^[n + 1] (m.fetched.noteSkipped x)).withCore (m.fetched.storeKey x key) with
      closing := (turn^[n] (m.fetched.noteSkipped x)).closing } := by
  have screen : (m.fetched.storeKey x key).screen = (turn^[n] (m.fetched.noteSkipped x)).screen := by
    rw [turns_noteSkipped]
    cases key <;> rfl
  calc m.step = (m.fetched.awaitKey x).service := step_of_decode next
    _ = (turn^[n] (m.fetched.noteSkipped x)).service.withCore (m.fetched.storeKey x key) := by
      rw [waited, service_withCore _ screen]
    _ = _ := by
      rw [service_eq_turn, Function.iterate_succ_apply' turn n]
      rfl

/-- **The wait for a key.** The word `Fx0A` takes two phases of polls, which `PressedAfter` and
`ReleasedAfter` tell from keypad and script, and one poll more; before each poll the timers tick
once. The register gets the key of the first phase, if there is one, and keeps it. -/
theorem step_awaitKey {m : Machine} {x : Register}
    (next : m.nextWord = Instruction.encode (.awaitKey x)) :
    ∃ first second key, PressedAfter m first key ∧ ReleasedAfter m first key second ∧
      (m.step.v = (match key with | none => m.v | some k => m.v.set x k.toByte) ∧
        m.step.pc = m.pc.advance 2 ∧ m.step.index = m.index ∧ m.step.stack = m.stack ∧
        m.step.memory = m.memory ∧ m.step.screen = m.screen ∧ m.step.random = m.random ∧
        m.step.lastRandom = m.lastRandom ∧ m.step.fault = m.fault) ∧
      m.step.keypad = m.keysAfter (first + second + 1) ∧
      m.step.timers = m.timersAfter (first + second + 1) ∧
      m.step.clock = m.clockAfter (first + second + 1) ∧
      (m.hasFrontend → m.step.polls = m.polls + (first + second + 1)) ∧
      m.step.closing =
        (if first + second = 0 then m.closing else m.closeSeenAfter (first + second)) := by
  have decodes : Instruction.decode? m.nextWord = some (.awaitKey x) := by
    rw [next]
    exact Instruction.decode?_encode trivial
  obtain ⟨first, second, key, pressed, released, waited⟩ := m.fetched.awaitKey_turns x
  have stepped := step_of_wait decodes waited
  obtain ⟨log, same⟩ := m.fetched.noteSkipped_eq x
  rw [same] at stepped
  refine ⟨first, second, key, ?_, released, ?_⟩
  · exact .congr (show m.fetched.keypad = m.keypad from rfl) rfl rfl pressed
  rw [stepped]
  generalize hn : first + second = n
  refine ⟨?_, ?_, ?_, ?_, ?_, ?_⟩
  · cases key <;> exact ⟨rfl, rfl, rfl, rfl, rfl, rfl, rfl, rfl, rfl⟩
  · exact keypad_turns (n + 1) { m.fetched with log := log }
  · exact timers_turns (n + 1) { m.fetched with log := log }
  · exact clock_turns (n + 1) { m.fetched with log := log }
  · exact @polls_turns (n + 1) { m.fetched with log := log }
  · cases n with
    | zero => rfl
    | succ n =>
      rw [if_neg (by omega)]
      exact closing_turns n { m.fetched with log := log }

def beforeSeven : Machine :=
  ((start {} 0).writeWord .start 0xF30A).attach
    { pending := [{}, { press := [⟨7⟩] }, {}, { release := [⟨7⟩] }] }

theorem step_awaitKey_seven :
    beforeSeven.nextWord = Instruction.encode (.awaitKey ⟨3⟩) ∧
      beforeSeven.step.v.get ⟨3⟩ = 7 ∧ beforeSeven.step.polls = 5 := by
  have next : beforeSeven.nextWord = Instruction.encode (.awaitKey ⟨3⟩) :=
    Memory.readWord_writeWord _ _ _
  refine ⟨next, ?_⟩
  obtain ⟨first, second, key, pressed, released, core, -, -, -, polls, -⟩ := step_awaitKey next
  cases pressed with
  | held down =>
    have idle : beforeSeven.keypad.lowest? = none := by decide
    rw [idle] at down
    cases down
  | headless _ alone => exact absurd alone (by decide)
  | @polled n _ _ _ before last ends =>
    obtain rfl : n = 1 := by
      match n with
      | 0 => exact absurd ends (by rw [last]; decide)
      | 1 => rfl
      | n + 2 => exact absurd (before 2 (by omega) (by omega)).2 (by decide)
    obtain rfl : key = some ⟨7⟩ := last
    obtain ⟨during, ends⟩ := released
    obtain rfl : second = 2 := by
      match second with
      | 0 => exact absurd ends (by decide)
      | 1 => exact absurd ends (by decide)
      | 2 => rfl
      | n + 3 => exact absurd (during 2 (by omega)).1 (by decide)
    refine ⟨?_, polls rfl⟩
    rw [core.1]
    rfl

end Machine

end Chip8
