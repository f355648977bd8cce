import Chip8.Proofs.Decay
import Chip8.Proofs.Program

/-!
# The program with the clock at rest

The program reads the clock between its steps and its lines. Where no reading is later than the time
that a machine knows of, what is left is a run to the end and a session. Main statement:
`run_at_rest`.
-/

namespace Chip8

namespace Machine

theorem clock_le_play (m : Machine) (actions : List Action) : m.clock ≤ (m.play actions).clock := by
  induction actions generalizing m with
  | nil => exact Nat.le_refl _
  | cons a actions ih => exact Nat.le_trans (Moment.clock_le_after ⟨m, a⟩) (ih (m.act a))

theorem clock_le_afterAll (m : Machine) (ops : List Operation) : m.clock ≤ (m.afterAll ops).clock := by
  rw [← play_allActions]
  exact m.clock_le_play _

theorem runFor_succ_eq_of_stopped {m : Machine} (stopped : ¬ m.Running) (bound : Nat) :
    runFor (bound + 1) m = runFor 1 m := by
  rw [runFor, runFor]
  cases sound : m.fault with
  | some f => rfl
  | none =>
    have closed : m.observeClose.closing = true := by
      simpa [Running, sound] using stopped
    simp only [closed, if_true]

end Machine

namespace CommandLine

open Debugger (Session)

/-- No reading is later than the time of the machine. -/
def Rests (clock : Clock) (m : Machine) : Prop :=
  ∀ reading, clock.reading reading ≤ m.clock

section

variable {clock : Clock} {m : Machine}

theorem Rests.atReading (rests : Rests clock m) (reading : Nat) : atReading clock reading m = m := by
  unfold CommandLine.atReading
  rw [Nat.sub_eq_zero_of_le (rests reading)]
  rfl

theorem Rests.afterAll (rests : Rests clock m) (ops : List Operation) :
    Rests clock (m.afterAll ops) :=
  fun reading => Nat.le_trans (rests reading) (m.clock_le_afterAll ops)

theorem Rests.afterAll_lap (rests : Rests clock m) (op : Operation) (reading : Nat) :
    m.afterAll (lap clock op reading m) = m.after op :=
  congrArg (fun ready => Machine.after ready op) (rests.atReading reading)

theorem Rests.afterAll_laps (rests : Rests clock m) (reading count : Nat) :
    m.afterAll (laps clock (.steps 1) reading count m) = Machine.steps count m := by
  induction count generalizing reading m with
  | zero => rfl
  | succ count ih =>
    have first := rests.afterAll_lap (.steps 1) reading
    have rests' : Rests clock (Machine.steps 1 m) := rests.afterAll [.steps 1]
    unfold laps
    rw [afterAll_append, first, Nat.add_comm count 1, Machine.steps_add]
    exact ih rests' (reading + 1)

/-! ## Runs -/

theorem run_operate_at_rest (read : Reader) (entropy : UInt64) (rests : Rests clock m) (bound : Nat)
    (script : Script) :
    ((operate (.scripted read entropy clock) bound m).run script).1 =
      (Machine.runFor bound m).1.map (·, (Machine.runFor bound m).2) := by
  induction bound generalizing m script with
  | zero => rfl
  | succ bound ih =>
    rw [run_operate_succ, rests.atReading]
    by_cases running : m.Running
    · have rests' : Rests clock m.step := rests.afterAll [.step]
      have first : Machine.runFor 1 m = (none, m.step) := Machine.runFor_succ_of_running running 0
      rw [first, Machine.runFor_succ_of_running running]
      exact ih rests' script.read
    · obtain ⟨seen, first⟩ := Machine.runFor_succ_of_stopped running 0
      rw [Machine.runFor_succ_eq_of_stopped running bound, first]
      rfl

/-! ## Sessions -/

section

variable {read : Reader} {line : List Byte} {reading later : Nat} {s next last : Session}
  {ops : List Operation} {lines : List (List Byte)}

theorem TakesLine.eq_feed (takes : TakesLine clock read line reading s later ops next)
    (opened : s.ending = none) (rests : Rests clock s.machine) : next = s.feed read line := by
  cases takes with
  | whole other => rw [rests.atReading]
  | @stepwise count taken stepped asked within ran stopped =>
    have all : stepped = Machine.steps count s.machine := by
      rw [rests.afterAll_laps] at ran
      obtain ⟨more, rfl⟩ := Nat.exists_eq_add_of_le within
      rw [Machine.steps_add, ← ran]
      cases more with
      | zero => rfl
      | succ more => exact (Machine.steps_of_fault (stopped (by omega)) _).symm
    have rests' : Rests clock stepped := by
      rw [all]
      exact rests.afterAll [.steps count]
    obtain ⟨text, decodes, parsed⟩ := ofLine_of_command? asked
    have replied : Debugger.reply read s.machine text =
        .answer (Debugger.faultText stepped) stepped := by
      rw [Debugger.reply_of_command parsed (by simp), all]
      rfl
    rw [rests'.atReading, Session.feed_of_answer opened decodes replied]

theorem Converses.eq_finish (converses : Converses clock read reading s lines ops last)
    (single : ∀ line ∈ lines, Text.lines line = [line]) (rests : Rests clock s.machine) :
    last = (s.feedAll read lines).finish := by
  induction converses with
  | @ended reading s lines finished =>
    rw [Session.feedAll_of_ended read finished]
    unfold Session.finish
    rw [if_pos finished]
  | closed => rfl
  | line opened takes rest ih =>
    rw [List.forall_mem_cons] at single
    have next := takes.eq_feed opened rests
    have after := takes.machine_eq opened single.1
    rw [ih single.2 (by rw [after]; exact rests.afterAll _), next]
    rfl

end

/-! ## The program -/

theorem run_debug_at_rest {read : Reader} {entropy : UInt64} {input : List Byte} (rests : Rests clock m)
    (later : Nat) :
    ((debug (.scripted read entropy clock) ((Text.lines input).length + 1) m).run
        ⟨later, Text.lines input⟩).1 = some (.ofSession (Session.run read m input)) := by
  obtain ⟨last, ops, ended, converses⟩ :=
    @run_debug read entropy clock input later m
  rw [ended, converses.eq_finish (fun _ => Text.lines_of_mem_lines) rests]
  rfl

end

theorem clock_of_booted {clock : Clock} {o : Options} {read : Reader} {entropy : UInt64}
    {script left : Script} {ready : Machine}
    (booted : (boot (.scripted read entropy clock) o).run script = (.ok ready, left)) :
    (announce o ready).clock = clock.reading script.readings := by
  have shown : (announce o ready).clock = ready.clock := by
    unfold announce
    split <;> rfl
  rw [shown]
  cases rom : o.rom with
  | none =>
    unfold boot at booted
    rw [rom] at booted
    cases wanted : o.debug <;> rw [wanted] at booted <;> cases booted
    rfl
  | some path =>
    rw [run_boot_of_rom entropy clock script read rom] at booted
    cases found : read path with
    | error cause =>
      rw [found] at booted
      cases booted
    | ok bytes =>
      rw [found] at booted
      cases booted
      rfl

/-- **The program with the clock at rest.** If no later reading of the clock is greater than the first
one, the program is a run to the end, unless the debugger is wanted at once, and then a session. -/
theorem run_at_rest (bound : Nat) {o : Options} {read : Reader} (can : CanStart o read)
    (entropy : UInt64) {clock : Clock} (rests : ∀ reading, clock.reading reading ≤ clock.reading 0)
    (input : List Byte) :
    ∃ ready, (boot (.scripted read entropy clock) o).run ⟨0, Text.lines input⟩ =
        (.ok ready, ⟨1, Text.lines input⟩) ∧
      run bound o read entropy clock input =
        if o.debug then some (.ofSession (Session.run read (announce o ready) input))
        else
          let ended := Machine.runFor bound (announce o ready)
          ended.1.map fun reason =>
            .ofSession (Session.run read (ended.2.report [.debugging reason]) input) := by
  obtain ⟨ready, booted, fresh⟩ := run_boot_of_canStart entropy clock ⟨0, Text.lines input⟩ can
  rw [show Script.read ⟨0, Text.lines input⟩ = ⟨1, Text.lines input⟩ from rfl] at booted
  refine ⟨ready, booted, ?_⟩
  have rests : Rests clock (announce o ready) := by
    intro reading
    rw [clock_of_booted booted]
    exact rests reading
  unfold run
  rw [play_of_booted bound booted]
  cases o.debug with
  | true => exact run_debug_at_rest rests 1
  | false =>
    have fresh := fresh.announce o
    have ran := run_operate_at_rest read entropy rests bound ⟨1, Text.lines input⟩
    rw [if_neg Bool.false_ne_true, if_neg Bool.false_ne_true, run_bind]
    rcases ended : (operate (.scripted read entropy clock) bound (announce o ready)).run
        ⟨1, Text.lines input⟩ with ⟨_ | ⟨h, last⟩, left⟩
    · have unended := Option.map_eq_none_iff.1 (ran.symm.trans (congrArg Prod.fst ended))
      show none = Option.map _ _
      rw [unended]
      rfl
    · have halted := ran.symm.trans (congrArg Prod.fst ended)
      obtain ⟨reason, stopped, same⟩ := Option.map_eq_some_iff.1 halted
      obtain ⟨f, count, -, rfl, -, -, -, rfl⟩ :=
        run_operate_of_some read entropy fresh.alone fresh.atFault ended
      cases same
      have rests' : Rests clock
          ((Machine.runFor bound (announce o ready)).2.report [.debugging (.fault f)]) :=
        rests.afterAll [.run bound]
      show _ = Option.map _ _
      rw [stopped]
      exact run_debug_at_rest rests' (1 + count)

end CommandLine

end Chip8
