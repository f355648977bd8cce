import Chip8.Proofs.History

/-!
# Steps among the actions of a run

What a run does is made up of whole steps and of single actions between them, so that an instruction
is issued, and a key stored, in a step alone. Runs and sessions also leave it to the host to attach a
frontend and to ask for a close. Main statements: `stepwise_actions`, `stepwise_allActions`.
-/

namespace Chip8

namespace Action

def isOutside : Action → Bool
  | .issue | .store _ _ => false
  | _ => true

def invites : Action → Bool
  | .host (.attach _) _ | .host .requestClose _ => true
  | _ => false

end Action

/-- Actions made up of whole steps and of single actions of one kind. -/
inductive Stepwise (P : Action → Prop) : Machine → List Action → Prop where
  | nil {m : Machine} : Stepwise P m []
  | action {m : Machine} {a : Action} {later : List Action} (single : P a)
      (rest : Stepwise P (m.act a) later) : Stepwise P m (a :: later)
  | step {m : Machine} {later : List Action} (rest : Stepwise P m.step later) :
      Stepwise P m (m.stepActions ++ later)

inductive Action.InRun : Action → Prop where
  | host {op : Operation} {single : op.isSingle} (own : (Action.host op single).invites = false) :
      InRun (.host op single)
  | service : InRun .service
  | look : InRun .look
  | loaded (size : Nat) (path : String) : InRun (.note [.fileLoaded size path])

def Action.Own (a : Action) : Prop :=
  a.isOutside ∧ a.invites = false

theorem Action.InRun.own {a : Action} (inRun : a.InRun) : a.Own := by
  cases inRun with
  | host own => exact ⟨rfl, own⟩
  | service | look | loaded => exact ⟨rfl, rfl⟩

namespace Stepwise

variable {P Q : Action → Prop} {m : Machine} {front back actions : List Action}

theorem mono (weaker : ∀ a, P a → Q a) (made : Stepwise P m actions) : Stepwise Q m actions := by
  induction made with
  | nil => exact .nil
  | action single _ ih => exact .action (weaker _ single) ih
  | step _ ih => exact .step ih

theorem append (first : Stepwise P m front) (second : Stepwise P (m.play front) back) :
    Stepwise P m (front ++ back) := by
  induction first with
  | nil => exact second
  | action single _ ih => exact .action single (ih second)
  | step _ ih =>
    rw [Machine.play_append, Machine.play_stepActions] at second
    rw [List.append_assoc]
    exact .step (ih second)

theorem mem {a : Action} (made : Stepwise P m actions) (member : a ∈ actions) :
    P a ∨ ∃ m' : Machine, a ∈ m'.stepActions := by
  induction made with
  | nil => cases member
  | action single _ ih =>
    rcases List.mem_cons.1 member with rfl | later
    · exact Or.inl single
    · exact ih later
  | step _ ih =>
    rcases List.mem_append.1 member with first | later
    · exact Or.inr ⟨_, first⟩
    · exact ih later

end Stepwise

/-! ## Waits -/

namespace Machine

theorem mem_pressActions {m : Machine} {x : Register} {a : Action} (member : a ∈ m.pressActions x) :
    a = .service ∨ a = .look ∨ a = .note [.waitSkipped x] := by
  induction m using awaitPress.induct with
  | case1 m k down =>
    rw [pressActions_of_down down] at member
    cases member
  | case2 m idle attached next opened ih =>
    replace opened : m.turn.closing = false := opened
    rw [pressActions_of_attached idle attached, if_pos opened, List.mem_cons, List.mem_cons] at member
    rcases member with rfl | rfl | later
    · exact Or.inl rfl
    · exact Or.inr (Or.inl rfl)
    · exact ih later
  | case3 m idle attached next closed =>
    replace closed : ¬ m.turn.closing = false := closed
    rw [pressActions_of_attached idle attached, if_neg closed] at member
    simp only [List.mem_cons, List.not_mem_nil, or_false] at member
    exact member.imp_right Or.inl
  | case4 m idle alone =>
    rw [pressActions_of_headless idle (by simpa using alone)] at member
    exact Or.inr (Or.inr (List.mem_singleton.1 member))

theorem mem_releaseActions {m : Machine} {k : Key} {a : Action} (member : a ∈ m.releaseActions k) :
    a = .service ∨ a = .look := by
  induction m using awaitRelease.induct k with
  | case1 m down next opened ih =>
    replace opened : m.turn.closing = false := opened
    rw [releaseActions_of_attached down.1 down.2, if_pos opened, List.mem_cons, List.mem_cons]
      at member
    rcases member with rfl | rfl | later
    · exact Or.inl rfl
    · exact Or.inr rfl
    · exact ih later
  | case2 m down next closed =>
    replace closed : ¬ m.turn.closing = false := closed
    rw [releaseActions_of_attached down.1 down.2, if_neg closed] at member
    simpa using member
  | case3 m ends =>
    rw [releaseActions_of_up ends] at member
    cases member

theorem mem_waitActions {m : Machine} {x : Register} {a : Action} (member : a ∈ m.waitActions x) :
    a = .service ∨ a = .look ∨ (∃ k, a = .store x k) ∨ a = .note [.waitSkipped x] := by
  have pressing (member : a ∈ m.pressActions x) :
      a = .service ∨ a = .look ∨ (∃ k, a = .store x k) ∨ a = .note [.waitSkipped x] := by
    rcases mem_pressActions member with same | same | same <;> simp [same]
  unfold waitActions at member
  split at member
  · exact pressing member
  · rcases List.mem_append.1 member with first | stored
    · exact pressing first
    · rcases List.mem_cons.1 stored with same | releasing
      · exact Or.inr (Or.inr (Or.inl ⟨_, same⟩))
      · split at releasing
        · cases releasing
        · rcases mem_releaseActions releasing with same | same <;> simp [same]

theorem mem_stepActions {m : Machine} {a : Action} (member : a ∈ m.stepActions) :
    a = .issue ∨ a = .service ∨ a = .look ∨ (∃ x k, a = .store x k) ∨
      ∃ x, a = .note [.waitSkipped x] := by
  unfold stepActions at member
  rcases List.mem_cons.1 member with issues | inner
  · exact Or.inl issues
  · rcases List.mem_append.1 inner with waits | last
    · split at waits
      · cases waits
      · rcases mem_waitActions waits with same | same | ⟨k, same⟩ | same <;> simp [same]
    · exact Or.inr (Or.inl (List.mem_singleton.1 last))

/-! ## Runs and sessions -/

variable {m : Machine}

theorem stepwise_stepsActions {P : Action → Prop} (n : Nat) : Stepwise P m (stepsActions n m) := by
  induction n generalizing m with
  | zero => exact .nil
  | succ n ih =>
    unfold stepsActions
    split
    · exact .nil
    · exact .step ih

theorem stepwise_runActions (bound : Nat) : Stepwise Action.InRun m (runActions bound m) := by
  induction bound generalizing m with
  | zero => exact .nil
  | succ bound ih =>
    unfold runActions
    split
    · exact .nil
    · refine .action .look ?_
      split
      · exact .nil
      · exact .step ih

end Machine

namespace Debugger

open Machine

variable {m : Machine}

theorem stepwise_commandActions (c : Command) (read : Reader) :
    Stepwise Action.InRun m (c.actions read m) := by
  cases c with
  | step count => exact stepwise_stepsActions count
  | set assignment => cases assignment <;> exact .action (.host rfl) .nil
  | press key =>
    cases key with
    | none => exact .action (.host rfl) .nil
    | some k => exact .action (.host rfl) (.action (.host rfl) .nil)
  | window opened =>
    cases opened with
    | false => exact .action (.host rfl) .nil
    | true => exact .nil
  | rom path =>
    unfold Command.actions
    simp only
    split
    · exact .nil
    · exact .action (.host rfl) (.action (.loaded _ _) .nil)
  | push _ | pop | random | clear | fill | pixel _ _ => exact .action (.host rfl) .nil
  | registers | memory _ _ | listing _ _ | stack | display | help | exit => exact .nil

theorem stepwise_lineActions (read : Reader) (line : String) :
    Stepwise Action.InRun m (lineActions read m line) := by
  unfold lineActions
  split
  · exact stepwise_commandActions _ read
  · exact .nil

theorem stepwise_sessionActions (read : Reader) (lines : List (List Byte)) :
    Stepwise Action.InRun m (sessionActions read lines m) := by
  induction lines generalizing m with
  | nil => exact .nil
  | cons line lines ih =>
    unfold sessionActions
    split
    · exact .nil
    · split
      · exact .nil
      · next answered =>
        refine (stepwise_lineActions read _).append ?_
        rw [play_lineActions answered]
        exact .action .service ih

end Debugger

namespace Machine

variable {m : Machine}

/-- A run or a session is made up of steps and of what does not need a host. -/
theorem stepwise_actions {op : Operation} (compound : ¬ op.isSingle) :
    Stepwise Action.InRun m (m.actions op) := by
  unfold actions
  rw [dif_neg compound]
  cases op with
  | service => exact .action .service .nil
  | observeClose => exact .action .look .nil
  | step => simpa using Stepwise.step (P := Action.InRun) (m := m) .nil
  | steps n => exact stepwise_stepsActions n
  | run bound => exact stepwise_runActions bound
  | debug read input => exact Debugger.stepwise_sessionActions read _
  | _ => exact absurd rfl compound

theorem stepwise_of_host {P : Action → Prop} (host : ∀ op single, P (.host op single))
    (inRun : ∀ a, a.InRun → P a) (ops : List Operation) : Stepwise P m (m.allActions ops) := by
  induction ops generalizing m with
  | nil => exact .nil
  | cons op ops ih =>
    unfold allActions
    refine Stepwise.append ?_ (by rw [play_actions]; exact ih)
    by_cases single : op.isSingle
    · unfold actions
      rw [dif_pos single]
      exact .action (host op single) .nil
    · exact (stepwise_actions single).mono inRun

theorem stepwise_allActions (ops : List Operation) :
    Stepwise (fun a => a.isOutside) m (m.allActions ops) :=
  stepwise_of_host (fun _ _ => rfl) (fun _ inRun => inRun.own.1) ops

end Machine

end Chip8
