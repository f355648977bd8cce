import Chip8.Proofs.FaultRecord
import Chip8.Proofs.Halting
import Chip8.Proofs.Presenting
import Chip8.Proofs.Stepwise

/-!
# Machines without a frontend

A machine that has no frontend and was not asked to close stays so, whatever is done with it short of
attaching a frontend or asking for a close. Only a fault ends its runs. Main statements:
`Machine.Alone.history`, `Machine.Alone.runFor_one`.
-/

namespace Chip8

/-- What attaches a frontend or asks for a close. -/
def Operation.invites : Operation → Bool
  | .attach _ | .requestClose => true
  | _ => false

structure Machine.Alone (m : Machine) : Prop where
  headless : m.frontend = none
  opened : m.closing = false

/-! ## Actions of machines and hosts -/

theorem Action.invites_host (op : Operation) (single : op.isSingle) :
    (Action.host op single).invites = op.invites := by
  cases op <;> rfl

theorem Machine.invites_of_mem_stepActions {m : Machine} {a : Action}
    (member : a ∈ m.stepActions) : a.invites = false := by
  rcases mem_stepActions member with rfl | rfl | rfl | ⟨x, k, rfl⟩ | ⟨x, rfl⟩ <;> rfl

theorem Stepwise.invites {m : Machine} {actions : List Action}
    (made : Stepwise Action.InRun m actions) : ∀ a ∈ actions, a.invites = false := by
  intro a member
  rcases made.mem member with inRun | ⟨m', inner⟩
  · exact inRun.own.2
  · exact Machine.invites_of_mem_stepActions inner

theorem Machine.invites_of_mem_actions {m : Machine} {op : Operation} {a : Action}
    (own : op.invites = false) (member : a ∈ m.actions op) : a.invites = false := by
  by_cases single : op.isSingle
  · rw [actions, dif_pos single] at member
    rw [List.mem_singleton.1 member, Action.invites_host, own]
  · exact (stepwise_actions single).invites a member

theorem Machine.invites_of_mem_allActions {m : Machine} {ops : List Operation} {a : Action}
    (own : ∀ op ∈ ops, op.invites = false) (member : a ∈ m.allActions ops) : a.invites = false := by
  induction ops generalizing m with
  | nil => cases member
  | cons op ops ih =>
    rw [List.forall_mem_cons] at own
    rcases List.mem_append.1 member with first | later
    · exact invites_of_mem_actions own.1 first
    · exact ih own.2 later

/-! ## What a machine alone goes through -/

theorem Machine.closing_issue (m : Machine) : m.issue.closing = m.closing := by
  unfold issue
  split <;> rfl

namespace Machine.Alone

variable {m : Machine}

theorem observeClose (alone : m.Alone) : m.observeClose.closing = false := by
  unfold Machine.observeClose
  simp [alone.headless, alone.opened]

theorem act (alone : m.Alone) {a : Action} (own : a.invites = false) : (m.act a).Alone := by
  obtain ⟨headless, opened⟩ := alone
  rcases a with ⟨op, single⟩ | _ | _ | _ | _ | _
  case host =>
    cases op
    case attach | requestClose => cases own
    case service | observeClose | step | steps | run | debug => cases single
    case detach => exact ⟨rfl, opened⟩
    all_goals exact ⟨headless, opened⟩
  case issue => exact ⟨m.frontend_issue.trans headless, m.closing_issue.trans opened⟩
  case service =>
    refine ⟨?_, m.closing_service.trans opened⟩
    show m.service.frontend = none
    rw [frontend_service, headless]
    rfl
  case look => exact ⟨headless, Alone.observeClose ⟨headless, opened⟩⟩
  all_goals exact ⟨headless, opened⟩

theorem play (alone : m.Alone) {actions : List Action} (own : ∀ a ∈ actions, a.invites = false) :
    (m.play actions).Alone := by
  induction actions generalizing m with
  | nil => exact alone
  | cons a actions ih =>
    rw [List.forall_mem_cons] at own
    exact ih (alone.act own.1) own.2

theorem moments (alone : m.Alone) {actions : List Action} (own : ∀ a ∈ actions, a.invites = false) :
    ∀ t ∈ m.moments actions, t.before.Alone ∧ t.after.Alone := by
  induction actions generalizing m with
  | nil => exact fun t member => by cases member
  | cons a actions ih =>
    rw [List.forall_mem_cons] at own
    have after := alone.act own.1
    intro t member
    rcases List.mem_cons.1 member with rfl | later
    · exact ⟨alone, after⟩
    · exact ih after own.2 t later

theorem step (alone : m.Alone) : m.step.Alone := by
  rw [← play_stepActions]
  exact alone.play fun a member => invites_of_mem_stepActions member

theorem afterAll (alone : m.Alone) {ops : List Operation} (own : ∀ op ∈ ops, op.invites = false) :
    (m.afterAll ops).Alone := by
  rw [← play_allActions]
  exact alone.play fun a member => invites_of_mem_allActions own member

theorem history (alone : m.Alone) {ops : List Operation} (own : ∀ op ∈ ops, op.invites = false) :
    ∀ t ∈ m.history ops, t.before.frontend = none ∧ t.after.frontend = none := by
  intro t member
  obtain ⟨before, after⟩ := alone.moments (fun a member => invites_of_mem_allActions own member) t member
  exact ⟨before.headless, after.headless⟩

theorem advanceClock (alone : m.Alone) (elapsed : Nat) : (m.advanceClock elapsed).Alone :=
  ⟨alone.headless, alone.opened⟩

/-! ## Runs to a fault -/

theorem runFor_one (alone : m.Alone) :
    Machine.runFor 1 m =
      match m.fault with
      | some f => (some (.fault f), m)
      | none => (none, m.step) := by
  cases faulty : m.fault with
  | some f => exact runFor_of_fault faulty 0
  | none => exact runFor_succ_of_running ⟨faulty, alone.observeClose⟩ 0

end Machine.Alone

def Machine.AtFault (m : Machine) : Prop :=
  ∀ f, m.fault = some f → Instruction.decode? f.word = none ∧
    m.memory.readWord f.address = f.word ∧ m.pc = f.address.advance 2

theorem Machine.atFault_step {m : Machine} (sound : m.fault = none) : m.step.AtFault :=
  fun _ faulty => decode?_of_fault_step sound faulty

end Chip8
