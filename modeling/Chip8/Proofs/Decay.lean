import Mathlib.Data.List.Chain
import Chip8.Proofs.Footprint

/-!
# Decay of the timers

However often and in whatever order ticks come, the steps down lie a period apart, and a tick takes
none only if the last one is more recent than that. In a run every service makes one tick, and nothing
but a tick takes a counter down or moves the time that the timers count from, so programs and waits
for a key cannot hurry them. Main statement: `decay_by_elapsed_time`.
-/

namespace Chip8

namespace Timers

/-! ## Ticks one after the other -/

def ticks (t : Timers) (times : List Nat) : Timers :=
  times.foldl tick t

def stepTimes (t : Timers) : List Nat → List Nat
  | [] => []
  | now :: later =>
    if t.isDue now then now :: (t.tick now).stepTimes later else (t.tick now).stepTimes later

theorem ticks_cons (t : Timers) (now : Nat) (later : List Nat) :
    t.ticks (now :: later) = (t.tick now).ticks later := rfl

theorem isDue_iff (t : Timers) (now : Nat) : t.isDue now ↔ t.since + period ≤ now := by
  unfold isDue period
  rw [decide_eq_true_eq]
  omega

theorem stepTimes_of_isDue {t : Timers} {now : Nat} (due : t.isDue now) (later : List Nat) :
    t.stepTimes (now :: later) = now :: (t.tick now).stepTimes later := by
  rw [stepTimes, if_pos due]

theorem stepTimes_of_not_isDue {t : Timers} {now : Nat} (early : ¬ t.isDue now)
    (later : List Nat) : t.stepTimes (now :: later) = t.stepTimes later := by
  rw [stepTimes, if_neg early, tick_of_not_isDue early]

theorem since_tick (t : Timers) (now : Nat) :
    (t.tick now).since = if t.isDue now then now else t.since := by
  unfold tick
  split <;> rfl

theorem isChain_stepTimes (t : Timers) (times : List Nat) :
    (t.since :: t.stepTimes times).IsChain fun earlier later => earlier + period ≤ later := by
  induction times generalizing t with
  | nil => simp [stepTimes]
  | cons now later ih =>
    by_cases due : t.isDue now
    · rw [stepTimes_of_isDue due, List.isChain_cons_cons]
      have rest := ih (t.tick now)
      rw [since_tick, if_pos due] at rest
      exact ⟨(t.isDue_iff now).1 due, rest⟩
    · rw [stepTimes_of_not_isDue due]
      exact ih t

theorem since_ticks (t : Timers) (times : List Nat) :
    (t.ticks times).since = (t.stepTimes times).getLastD t.since := by
  induction times generalizing t with
  | nil => rfl
  | cons now later ih =>
    rw [ticks_cons, ih]
    by_cases due : t.isDue now
    · rw [stepTimes_of_isDue due, List.getLastD_cons, since_tick, if_pos due]
    · rw [stepTimes_of_not_isDue due, tick_of_not_isDue due]

theorem counters_ticks (t : Timers) (times : List Nat) :
    (t.ticks times).delay.toNat = t.delay.toNat - (t.stepTimes times).length ∧
      (t.ticks times).sound.toNat = t.sound.toNat - (t.stepTimes times).length := by
  induction times generalizing t with
  | nil => simp [ticks, stepTimes]
  | cons now later ih =>
    rw [ticks_cons]
    obtain ⟨delay, sound⟩ := ih (t.tick now)
    by_cases due : t.isDue now
    · rw [stepTimes_of_isDue due, delay, sound, tick_of_isDue due]
      simp
      omega
    · rw [stepTimes_of_not_isDue due, delay, sound, tick_of_not_isDue due]
      exact ⟨rfl, rfl⟩

theorem period_mul_le (t : Timers) (times : List Nat) :
    t.since + period * (t.stepTimes times).length ≤ (t.ticks times).since := by
  induction times generalizing t with
  | nil => simp [ticks, stepTimes]
  | cons now later ih =>
    have rest := ih (t.tick now)
    rw [ticks_cons]
    by_cases due : t.isDue now
    · have gap := (t.isDue_iff now).1 due
      rw [since_tick, if_pos due] at rest
      rw [stepTimes_of_isDue due, List.length_cons, Nat.mul_succ]
      omega
    · rw [tick_of_not_isDue due] at rest ⊢
      rw [stepTimes_of_not_isDue due]
      exact rest

theorem since_ticks_le (t : Timers) {times : List Nat} {bound : Nat}
    (start : t.since ≤ bound) (bounded : ∀ now ∈ times, now ≤ bound) :
    (t.ticks times).since ≤ bound := by
  induction times generalizing t with
  | nil => exact start
  | cons now later ih =>
    rw [List.forall_mem_cons] at bounded
    apply ih _ _ bounded.2
    rw [since_tick]
    split
    · exact bounded.1
    · exact start

theorem stepTimes_concat (t : Timers) (times : List Nat) (now : Nat) :
    t.stepTimes (times ++ [now]) =
      t.stepTimes times ++ if (t.ticks times).isDue now then [now] else [] := by
  induction times generalizing t with
  | nil => rfl
  | cons first later ih =>
    rw [List.cons_append, ticks_cons]
    by_cases due : t.isDue first
    · rw [stepTimes_of_isDue due, stepTimes_of_isDue due, ih, List.cons_append]
    · rw [stepTimes_of_not_isDue due, stepTimes_of_not_isDue due, ih, tick_of_not_isDue due]

theorem ticks_concat (t : Timers) (times : List Nat) (now : Nat) :
    t.ticks (times ++ [now]) = (t.ticks times).tick now := by
  unfold ticks
  rw [List.foldl_concat]

end Timers

/-! ## Runs -/

namespace Machine

theorem timers_service (m : Machine) : m.service.timers = m.timers.tick m.clock := by
  rcases hf : m.frontend with _ | f
  · simp [service, tick, poll, present, hf]
  · rcases hr : m.redraw <;> simp [service, tick, poll, present, hf, hr]

theorem clock_service_le (m : Machine) : m.clock ≤ m.service.clock := by
  rcases hf : m.frontend with _ | f
  · simp [service, tick, poll, present, hf]
  · rcases hr : m.redraw <;> simp [service, tick, poll, present, hf, hr]

theorem tick_tick (m : Machine) : m.tick.tick = m.tick := by
  unfold tick
  rw [Timers.tick_tick]

end Machine

namespace Machine

theorem delay_issue_of_single {m : Machine} (sets : m.nextWord.IsSingle 0x15) :
    m.issue.timers.delay = m.v.get m.nextWord.x := by
  have decodes : Instruction.decode? m.nextWord = some (.setDelay m.nextWord.x) := by
    unfold Instruction.decode?
    rw [sets.1, sets.2]
    rfl
  rw [issue_of_decode decodes]
  rfl

theorem sound_issue_of_single {m : Machine} (sets : m.nextWord.IsSingle 0x18) :
    m.issue.timers.sound = m.v.get m.nextWord.x := by
  have decodes : Instruction.decode? m.nextWord = some (.setSound m.nextWord.x) := by
    unfold Instruction.decode?
    rw [sets.1, sets.2]
    rfl
  rw [issue_of_decode decodes]
  rfl

theorem timers_issue (m : Machine) :
    m.issue.timers =
      ⟨if m.nextWord.IsSingle 0x15 then m.v.get m.nextWord.x else m.timers.delay,
        if m.nextWord.IsSingle 0x18 then m.v.get m.nextWord.x else m.timers.sound,
        m.timers.since⟩ := by
  apply Timers.ext
  · split
    · next sets => exact delay_issue_of_single sets
    · next kept => exact m.change_issue.delay_eq kept
  · show m.issue.timers.sound = if m.nextWord.IsSingle 0x18 then _ else _
    split
    · next sets => exact sound_issue_of_single sets
    · next kept => exact m.change_issue.sound_eq kept
  · exact m.change_issue.since_eq

theorem clock_issue (m : Machine) : m.issue.clock = m.clock := by
  unfold issue
  split <;> rfl

theorem clock_le_host (m : Machine) {op : Operation} (single : op.isSingle) :
    m.clock ≤ (m.after op).clock := by
  cases op
  case service | observeClose | step | steps | run | debug => simp [Operation.isSingle] at single
  case advanceClock elapsed => exact Nat.le_add_right _ _
  all_goals exact Nat.le_refl _

end Machine

namespace Moment

def tickTime? (t : Moment) : Option Nat :=
  match t.action with
  | .service => some t.before.clock
  | _ => none

/-- The time of the tick, if the timers take a step down at it. -/
def decayTime? (t : Moment) : Option Nat :=
  t.tickTime?.filter t.before.timers.isDue

def delayGiven? (t : Moment) : Option Byte :=
  match t.action with
  | .host (.setDelay b) _ => some b
  | .issue =>
    if t.before.nextWord.IsSingle 0x15 then some (t.before.v.get t.before.nextWord.x) else none
  | _ => none

def soundGiven? (t : Moment) : Option Byte :=
  match t.action with
  | .host (.setSound b) _ => some b
  | .issue =>
    if t.before.nextWord.IsSingle 0x18 then some (t.before.v.get t.before.nextWord.x) else none
  | _ => none

/-- The timers as the host or a word leaves them. -/
def given (t : Moment) : Timers where
  delay := t.delayGiven?.getD t.before.timers.delay
  sound := t.soundGiven?.getD t.before.timers.sound
  since := t.before.timers.since

theorem timers_host (m : Machine) {op : Operation} (single : op.isSingle) :
    (m.after op).timers = given ⟨m, .host op single⟩ := by
  cases op
  case service | observeClose | step | steps | run | debug => cases single
  all_goals rfl

theorem given_of_ticks {t : Moment} {now : Nat} (ticks : t.tickTime? = some now) :
    t.given = t.before.timers := by
  rcases t with ⟨m, a⟩
  cases a
  case service => rfl
  all_goals cases ticks

theorem ticks_or_not (t : Moment) :
    (t.tickTime? = some t.before.clock ∧
        t.after.timers = t.before.timers.tick t.before.clock) ∨
      (t.tickTime? = none ∧ t.after.timers = t.given) := by
  rcases t with ⟨m, a⟩
  rcases a with ⟨op, single⟩ | _ | _ | _ | _ | _
  case host =>
    right
    exact ⟨rfl, timers_host m single⟩
  case issue =>
    right
    refine ⟨rfl, m.timers_issue.trans ?_⟩
    unfold given delayGiven? soundGiven?
    simp only
    split <;> split <;> rfl
  case service =>
    left
    exact ⟨rfl, m.timers_service⟩
  all_goals
    right
    exact ⟨rfl, rfl⟩

/-- Both counters go down at a tick that is due, and at no other moment unless they are given a
value. -/
theorem decays_or_not (t : Moment) :
    (t.decayTime? = some t.before.clock ∧
        t.after.timers = ⟨Timers.down t.before.timers.delay, Timers.down t.before.timers.sound,
          t.before.clock⟩) ∨
      (t.decayTime? = none ∧ t.after.timers = t.given) := by
  rcases t.ticks_or_not with ⟨ticks, after⟩ | ⟨silent, after⟩
  · by_cases due : t.before.timers.isDue t.before.clock
    · left
      rw [after, Timers.tick_of_isDue due]
      simp [decayTime?, ticks, due]
    · right
      rw [after, Timers.tick_of_not_isDue due, given_of_ticks ticks]
      simp [decayTime?, ticks, due]
  · right
    exact ⟨by simp [decayTime?, silent], after⟩

theorem clock_le_after (t : Moment) : t.before.clock ≤ t.after.clock := by
  rcases t with ⟨m, a⟩
  rcases a with ⟨op, single⟩ | _ | _ | _ | _ | _
  case host => exact m.clock_le_host single
  case issue => exact Nat.le_of_eq m.clock_issue.symm
  case service => exact m.clock_service_le
  all_goals exact Nat.le_refl _

end Moment

def tickTimes (past : List Moment) : List Nat :=
  past.filterMap Moment.tickTime?

def decayTimes (past : List Moment) : List Nat :=
  past.filterMap Moment.decayTime?

structure Timed (first : Timers) (past : List Moment) (m : Machine) : Prop where
  since : m.timers.since = (first.ticks (tickTimes past)).since
  decays : decayTimes past = first.stepTimes (tickTimes past)
  ticked : ∀ now ∈ tickTimes past, now ≤ m.clock
  started : first.since ≤ m.clock

theorem tickTimes_concat (past : List Moment) (t : Moment) :
    tickTimes (past ++ [t]) = tickTimes past ++ t.tickTime?.toList := by
  unfold tickTimes
  rw [List.filterMap_append]
  rcases h : t.tickTime? <;> simp [h]

theorem decayTimes_concat (past : List Moment) (t : Moment) :
    decayTimes (past ++ [t]) = decayTimes past ++ t.decayTime?.toList := by
  unfold decayTimes
  rw [List.filterMap_append]
  rcases h : t.decayTime? <;> simp [h]

theorem Timed.next {first : Timers} {past : List Moment} {m : Machine} (inv : Timed first past m)
    (a : Action) : Timed first (past ++ [⟨m, a⟩]) (m.act a) := by
  rcases inv with ⟨since, decays, ticked, started⟩
  have later : m.clock ≤ (m.act a).clock := Moment.clock_le_after ⟨m, a⟩
  have earlier : ∀ now ∈ tickTimes past, now ≤ (m.act a).clock := by
    intro now member
    exact Nat.le_trans (ticked now member) later
  have kind := Moment.ticks_or_not ⟨m, a⟩
  unfold Moment.after at kind
  rcases kind with ⟨ticks, after⟩ | ⟨silent, after⟩
  · have due : m.timers.isDue m.clock = (first.ticks (tickTimes past)).isDue m.clock := by
      unfold Timers.isDue
      rw [since]
    constructor
    · rw [after, tickTimes_concat, ticks, Option.toList_some, Timers.ticks_concat,
        Timers.since_tick, Timers.since_tick, due, since]
    · rw [decayTimes_concat, tickTimes_concat, Moment.decayTime?, ticks, Option.toList_some,
        Timers.stepTimes_concat, decays, ← due]
      rcases dueNow : m.timers.isDue m.clock <;> simp [dueNow]
    · rw [tickTimes_concat, ticks]
      intro now member
      rcases List.mem_append.1 member with before | last
      · exact earlier now before
      · rw [List.mem_singleton.1 last]
        exact later
    · exact Nat.le_trans started later
  · constructor
    · rw [after, tickTimes_concat, silent, Option.toList_none, List.append_nil]
      exact since
    · simpa [decayTimes_concat, tickTimes_concat, Moment.decayTime?, silent] using decays
    · simpa [tickTimes_concat, silent] using earlier
    · exact Nat.le_trans started later

theorem timed_play (m : Machine) (started : m.timers.since ≤ m.clock) (actions : List Action) :
    Timed m.timers (m.moments actions) (m.play actions) := by
  apply Machine.moments_induction
  · exact ⟨rfl, rfl, List.forall_mem_nil _, started⟩
  · intro past m a inv
    exact inv.next a

theorem Timed.length_le {first : Timers} {past : List Moment} {m : Machine}
    (inv : Timed first past m) :
    (decayTimes past).length ≤ (m.clock - first.since) / Timers.period := by
  rcases inv with ⟨-, decays, ticked, started⟩
  have spent := first.period_mul_le (tickTimes past)
  have bounded := first.since_ticks_le started ticked
  have positive : 0 < Timers.period := by decide
  rw [Nat.le_div_iff_mul_le positive, decays, Nat.mul_comm]
  omega

/-! ## Counters that are left to decay -/

theorem Moment.delay_after (t : Moment) :
    t.after.timers.delay =
      if t.decayTime?.isSome then Timers.down t.before.timers.delay
      else t.delayGiven?.getD t.before.timers.delay := by
  rcases t.decays_or_not with ⟨decays, after⟩ | ⟨stays, after⟩
  · simp [after, decays]
  · simp [after, stays, given]

theorem Moment.sound_after (t : Moment) :
    t.after.timers.sound =
      if t.decayTime?.isSome then Timers.down t.before.timers.sound
      else t.soundGiven?.getD t.before.timers.sound := by
  rcases t.decays_or_not with ⟨decays, after⟩ | ⟨stays, after⟩
  · simp [after, decays]
  · simp [after, stays, given]

theorem decayTimes_cons (t : Moment) (later : List Moment) :
    decayTimes (t :: later) = t.decayTime?.toList ++ decayTimes later := by
  unfold decayTimes
  rw [List.filterMap_cons]
  rcases t.decayTime? <;> rfl

/-- A counter that goes down at each decay, and that nothing else moves unless it is given a value,
loses one at each decay of a history that gives it none. -/
theorem counter_play {counter : Timers → Byte} {given? : Moment → Option Byte}
    (after : ∀ t : Moment, counter t.after.timers =
      if t.decayTime?.isSome then Timers.down (counter t.before.timers)
      else (given? t).getD (counter t.before.timers))
    {m : Machine} {actions : List Action} (left : ∀ t ∈ m.moments actions, given? t = none) :
    (counter (m.play actions).timers).toNat =
      (counter m.timers).toNat - (decayTimes (m.moments actions)).length := by
  induction actions generalizing m with
  | nil => rfl
  | cons a actions ih =>
    unfold Machine.moments at left ⊢
    rw [List.forall_mem_cons] at left
    have first : counter (m.act a).timers = _ := after ⟨m, a⟩
    rw [Machine.play_cons, ih left.2, first, left.1, decayTimes_cons]
    rcases Moment.decayTime? ⟨m, a⟩ with _ | now
    · rfl
    · simp
      omega

/-- **Decay is bounded by elapsed time.** Whatever the times of the ticks, the steps down lie a period
apart, a tick takes one exactly if the last lies a period back, and both counters lose one at each of
them until they are zero. So the steps of a run fit into the time that passed since the machine was
made. Its ticks are those of the services: at any moment but one of a tick that is due, the timers are
left as they were, or as the host or a word `Fx15` or `Fx18` sets them. So a counter that is given no
value loses as many as there are steps, and another tick with the clock at rest changes nothing. -/
theorem decay_by_elapsed_time (d s : Byte) (b : Nat) (times : List Nat) :
    let t : Timers := { Timers.start b with delay := d, sound := s }
    ((b :: t.stepTimes times).IsChain (fun earlier later => earlier + 16000 ≤ later) ∧
      (∀ now, (t.ticks times).isDue now ↔ (t.stepTimes times).getLastD b + 16000 ≤ now) ∧
      (t.ticks times).delay.toNat = d.toNat - (t.stepTimes times).length ∧
      (t.ticks times).sound.toNat = s.toNat - (t.stepTimes times).length ∧
      16000 * (t.stepTimes times).length ≤ times.max?.getD b - b) ∧
    (∀ settings now ops,
      let start := Machine.start settings now
      (now :: decayTimes (start.history ops)).IsChain
          (fun earlier later => earlier + 16000 ≤ later) ∧
        (decayTimes (start.history ops)).length ≤ ((start.afterAll ops).clock - now) / 16000) ∧
    (∀ t : Moment,
      (t.decayTime? = some t.before.clock ∧
          t.after.timers = ⟨Timers.down t.before.timers.delay, Timers.down t.before.timers.sound,
            t.before.clock⟩) ∨
        (t.decayTime? = none ∧
          t.after.timers = ⟨t.delayGiven?.getD t.before.timers.delay,
            t.soundGiven?.getD t.before.timers.sound, t.before.timers.since⟩)) ∧
    (∀ (m : Machine) (actions : List Action),
      ((∀ t ∈ m.moments actions, t.delayGiven? = none) →
        (m.play actions).timers.delay.toNat =
          m.timers.delay.toNat - (decayTimes (m.moments actions)).length) ∧
      ((∀ t ∈ m.moments actions, t.soundGiven? = none) →
        (m.play actions).timers.sound.toNat =
          m.timers.sound.toNat - (decayTimes (m.moments actions)).length)) ∧
    ∀ m : Machine, m.service.timers = m.timers.tick m.clock ∧ m.tick.tick = m.tick := by
  intro t
  have counters := t.counters_ticks times
  refine ⟨⟨t.isChain_stepTimes times, ?_, counters.1, counters.2, ?_⟩, ?_, Moment.decays_or_not, ?_,
    fun m => ⟨m.timers_service, m.tick_tick⟩⟩
  · intro now
    rw [Timers.isDue_iff, Timers.since_ticks]
    rfl
  · have spent : b + 16000 * (t.stepTimes times).length ≤ (t.ticks times).since :=
      t.period_mul_le times
    have latest : (t.ticks times).since ≤ max b (times.max?.getD b) := by
      apply t.since_ticks_le (Nat.le_max_left ..)
      intro now member
      exact Nat.le_trans (List.le_max?_getD_of_mem member) (Nat.le_max_right ..)
    omega
  · intro settings now ops start
    have timed := timed_play start (Nat.le_refl now) (start.allActions ops)
    have chain := start.timers.isChain_stepTimes (tickTimes (start.history ops))
    rw [Machine.play_allActions] at timed
    constructor
    · rw [show decayTimes (start.history ops) = _ from timed.decays]
      exact chain
    · exact timed.length_le
  · intro m actions
    exact ⟨counter_play Moment.delay_after, counter_play Moment.sound_after⟩

/-- Of three services after the counters are set, the second comes too early. -/
theorem decay_by_elapsed_time_of_services :
    let m := ((Machine.start {} 0).setDelay 5).setSound 1
    let actions : List Action := [.host (.advanceClock 20000) rfl, .service, .service,
      .host (.advanceClock 16000) rfl, .service]
    (m.play actions).timers.delay.toNat = 3 ∧ (m.play actions).timers.sound.toNat = 0 := by
  intro m actions
  have law := (decay_by_elapsed_time 0 0 0 []).2.2.2.1 m actions
  have steps : decayTimes (m.moments actions) = [20000, 36000] := by decide +kernel
  constructor
  · rw [law.1 (by decide +kernel), steps]
    rfl
  · rw [law.2 (by decide +kernel), steps]
    rfl

example :
    let t : Timers := { Timers.start 0 with delay := 5, sound := 2 }
    t.stepTimes [20000, 25000, 36000] = [20000, 36000] ∧
      t.ticks [20000, 25000, 36000] = ⟨3, 0, 36000⟩ := by
  decide

end Chip8
