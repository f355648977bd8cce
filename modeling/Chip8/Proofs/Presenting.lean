import Chip8.Proofs.History

/-!
# What a frontend is shown

A service shows the screen to the attached frontend if it may have changed, so that a frontend never
keeps a stale one. The list of screens that a frontend was shown says so for a whole history. Main
statement: `never_stale`.
-/

namespace Chip8

namespace Machine

def shown (m : Machine) : List (Nat × Screen) :=
  (m.frontend.map Frontend.shown).getD []

end Machine

namespace Moment

/-- An attachment, a change of the screen by the host, or an instruction that clears it or draws. -/
def Repaints (t : Moment) : Prop :=
  match t.action with
  | .host (.attach _) _ | .host (.changeScreen _) _ => True
  | .issue =>
    Instruction.decode? t.before.nextWord = some .clearScreen ∨
      ∃ x y height, Instruction.decode? t.before.nextWord = some (.draw x y height)
  | _ => False

def Presents (t : Moment) : Prop :=
  t.action = .service ∧ t.after.shown ≠ t.before.shown

theorem not_presents {t : Moment} (other : t.action ≠ .service) : ¬ t.Presents := by
  rintro ⟨serviced, -⟩
  exact other serviced

end Moment

/-- The frontend attached at the end of a history, as it was when it was put on. -/
def attachedIn (past : List Moment) : Option Frontend :=
  past.foldl (fun attached t =>
    match t.action with
    | .host (.attach f) _ => some f
    | .host .detach _ => none
    | _ => attached) none

/-- The attached frontend was shown something since it was put on, and last the screen as it is. -/
def SeesScreen (past : List Moment) (m : Machine) : Prop :=
  ∃ f n since, attachedIn past = some f ∧ m.shown = (n, m.screen) :: (since ++ f.shown)

/-- Something repainted the screen after the last time that one was shown. -/
def Due (past : List Moment) : Prop :=
  ∃ earlier cause since, past = earlier ++ cause :: since ∧ cause.Repaints ∧
    ∀ u ∈ since, ¬ u.Presents

/-! ## One action -/

theorem attachedIn_concat (past : List Moment) (t : Moment) :
    attachedIn (past ++ [t]) =
      match t.action with
      | .host (.attach f) _ => some f
      | .host .detach _ => none
      | _ => attachedIn past := by
  unfold attachedIn
  rw [List.foldl_append]
  rfl

theorem due_of_repaints (past : List Moment) {t : Moment} (repaints : t.Repaints) :
    Due (past ++ [t]) :=
  ⟨past, t, [], rfl, repaints, List.forall_mem_nil _⟩

theorem Due.concat {past : List Moment} {t : Moment} (due : Due past) (silent : ¬ t.Presents) :
    Due (past ++ [t]) := by
  obtain ⟨earlier, cause, since, rfl, repaints, quiet⟩ := due
  refine ⟨earlier, cause, since ++ [t], by simp, repaints, ?_⟩
  intro u member
  rcases List.mem_append.1 member with old | new
  · exact quiet u old
  · rw [List.mem_singleton.1 new]
    exact silent

theorem Processor.screen_execute (p : Processor) (i : Instruction) :
    i = .clearScreen ∨ (∃ x y height, i = .draw x y height) ∨
      ((p.execute i).processor.screen = p.screen ∧
        (p.execute i).processor.redraw = p.redraw) := by
  cases i with
  | clearScreen => exact Or.inl rfl
  | draw x y height => exact Or.inr (Or.inl ⟨x, y, height, rfl⟩)
  | skipIfByte | skipUnlessByte | skipIfSame | skipUnlessSame | skipIfKey | skipUnlessKey
  | storeUpTo | loadUpTo =>
    refine Or.inr (Or.inr ?_)
    simp only [execute, skipIf_eq, passTransfer_eq, and_self]
  | _ => exact Or.inr (Or.inr ⟨rfl, rfl⟩)

namespace Machine

theorem hasFrontend_congr {m m' : Machine} (frontend : m'.frontend = m.frontend) :
    m'.hasFrontend = m.hasFrontend := by
  unfold hasFrontend
  rw [frontend]

theorem shown_congr {m m' : Machine} (frontend : m'.frontend = m.frontend) :
    m'.shown = m.shown := by
  unfold shown
  rw [frontend]

theorem frontend_issue (m : Machine) : m.issue.frontend = m.frontend := by
  unfold issue
  split <;> rfl

theorem screen_issue (m : Machine) :
    (Moment.Repaints ⟨m, .issue⟩ ∧ m.issue.redraw) ∨
      (m.issue.screen = m.screen ∧ m.issue.redraw = m.redraw) := by
  cases next : Instruction.decode? m.nextWord with
  | none =>
    rw [issue_of_undecoded next]
    exact Or.inr ⟨rfl, rfl⟩
  | some i =>
    rw [issue_of_decode next]
    rcases m.fetched.toProcessor.screen_execute i with rfl | ⟨x, y, height, rfl⟩ | same
    · exact Or.inl ⟨Or.inl next, rfl⟩
    · exact Or.inl ⟨Or.inr ⟨x, y, height, next⟩, rfl⟩
    · exact Or.inr same

theorem redraw_service (m : Machine) : m.service.redraw = (m.redraw && !m.hasFrontend) := by
  unfold hasFrontend
  cases hf : m.frontend with
  | none => simp [service, tick, poll, present, hf]
  | some f => cases hr : m.redraw <;> simp [service, tick, poll, present, hf, hr]

theorem shown_service (m : Machine) :
    ∃ n, m.service.shown =
      if m.hasFrontend && m.redraw then (n, m.screen) :: m.shown else m.shown := by
  unfold shown hasFrontend
  rw [frontend_service]
  cases m.frontend with
  | none => exact ⟨0, rfl⟩
  | some f =>
    refine ⟨f.poll.polls, ?_⟩
    cases m.redraw <;> rfl

end Machine

inductive Moment.Effect (t : Moment) : Prop where
  | attach (f : Frontend) (put : t.action = .host (.attach f) rfl)
  | detach (taken : t.action = .host .detach rfl)
  | service (serviced : t.action = .service)
  | paint (repaints : t.Repaints) (kept : ∀ past, attachedIn (past ++ [t]) = attachedIn past)
      (frontend : t.after.frontend = t.before.frontend) (redraw : t.after.redraw)
  | aside (silent : ¬ t.Presents) (kept : ∀ past, attachedIn (past ++ [t]) = attachedIn past)
      (frontend : t.after.frontend = t.before.frontend)
      (screen : t.after.screen = t.before.screen) (redraw : t.after.redraw = t.before.redraw)

theorem Moment.effect (t : Moment) : t.Effect := by
  obtain ⟨m, a⟩ := t
  cases a with
  | host op single =>
    cases op with
    | attach f => exact .attach f rfl
    | detach => exact .detach rfl
    | changeScreen change =>
      exact .paint trivial (fun past => attachedIn_concat past _) rfl rfl
    | service | observeClose | step | steps | run | debug => cases single
    | _ =>
      refine .aside (not_presents ?_) (fun past => attachedIn_concat past _) rfl rfl rfl
      simp
  | issue =>
    have kept (past : List Moment) := attachedIn_concat past ⟨m, .issue⟩
    rcases m.screen_issue with ⟨repaints, redraw⟩ | ⟨screen, redraw⟩
    · exact .paint repaints kept m.frontend_issue redraw
    · refine .aside (not_presents ?_) kept m.frontend_issue screen redraw
      simp
  | service => exact .service rfl
  | look | store | note =>
    refine .aside (not_presents ?_) (fun past => attachedIn_concat past _) rfl rfl rfl
    simp

/-! ## Runs -/

structure Displayed (past : List Moment) (m : Machine) : Prop where
  attached : m.hasFrontend → ∃ f since, attachedIn past = some f ∧ m.shown = since ++ f.shown
  seen : m.hasFrontend → m.redraw = false → SeesScreen past m
  due : m.redraw → Due past

theorem displayed_start (settings : Settings) (now : Nat) :
    Displayed [] (.start settings now) where
  attached alone := absurd alone Bool.false_ne_true
  seen alone := absurd alone Bool.false_ne_true
  due changed := absurd changed Bool.false_ne_true

namespace Displayed

variable {past : List Moment} {m : Machine}

theorem sees_service (inv : Displayed past m) (attached : m.hasFrontend) :
    SeesScreen (past ++ [⟨m, .service⟩]) m.service := by
  have kept : attachedIn (past ++ [⟨m, .service⟩]) = attachedIn past := attachedIn_concat past _
  obtain ⟨n, shown⟩ := m.shown_service
  unfold SeesScreen
  rw [kept, shown, attached, Machine.screen_service]
  cases changed : m.redraw with
  | false => exact inv.seen attached changed
  | true =>
    obtain ⟨f, since, put, before⟩ := inv.attached attached
    refine ⟨f, n, since, put, ?_⟩
    rw [← before]
    rfl

theorem service (inv : Displayed past m) :
    Displayed (past ++ [⟨m, .service⟩]) m.service := by
  constructor
  · rw [Machine.hasFrontend_service]
    intro attached
    obtain ⟨f, n, since, put, shown⟩ := inv.sees_service attached
    exact ⟨f, _ :: since, put, shown⟩
  · rw [Machine.hasFrontend_service]
    intro attached _
    exact inv.sees_service attached
  · -- Only a service without a frontend leaves a changed screen changed, and it shows nothing.
    rw [Machine.redraw_service]
    intro changed
    rw [Bool.and_eq_true, Bool.not_eq_true'] at changed
    apply (inv.due changed.1).concat
    rintro ⟨-, presents⟩
    obtain ⟨n, shown⟩ := m.shown_service
    rw [changed.2] at shown
    exact presents shown

theorem next (inv : Displayed past m) (a : Action) :
    Displayed (past ++ [⟨m, a⟩]) (m.act a) := by
  have kind := Moment.effect ⟨m, a⟩
  cases kind with
  | attach f put =>
    cases put
    have put : attachedIn (past ++ [⟨m, .host (.attach f) rfl⟩]) = some f := attachedIn_concat past _
    constructor
    · intro _
      exact ⟨f, [], put, rfl⟩
    · intro _ unchanged
      exact absurd unchanged.symm Bool.false_ne_true
    · intro _
      exact due_of_repaints past trivial
  | detach taken =>
    cases taken
    constructor
    · intro alone
      exact absurd alone Bool.false_ne_true
    · intro alone
      exact absurd alone Bool.false_ne_true
    · intro changed
      apply (inv.due changed).concat
      exact Moment.not_presents (by simp)
  | service serviced =>
    cases serviced
    exact inv.service
  | paint repaints kept frontend redraw =>
    have attached : (m.act a).hasFrontend = m.hasFrontend := Machine.hasFrontend_congr frontend
    have shown : (m.act a).shown = m.shown := Machine.shown_congr frontend
    constructor
    · rw [attached, kept, shown]
      exact inv.attached
    · intro _ unchanged
      exact absurd (unchanged.symm.trans redraw) Bool.false_ne_true
    · intro _
      exact due_of_repaints past repaints
  | aside silent kept frontend screen redraw =>
    have attached : (m.act a).hasFrontend = m.hasFrontend := Machine.hasFrontend_congr frontend
    have shown : (m.act a).shown = m.shown := Machine.shown_congr frontend
    have screen : (m.act a).screen = m.screen := screen
    have redraw : (m.act a).redraw = m.redraw := redraw
    constructor
    · rw [attached, kept, shown]
      exact inv.attached
    · unfold SeesScreen
      rw [attached, redraw, kept, shown, screen]
      exact inv.seen
    · rw [redraw]
      intro changed
      exact (inv.due changed).concat silent

end Displayed

/-- **No stale screen.** Whenever a frontend is attached and the screen does not count as changed,
the frontend was shown it last, and after it was attached. So it is after every service; a service
shows the screen at most once, and only if that is due. -/
theorem never_stale (settings : Settings) (now : Nat) (ops : List Operation) :
    let start := Machine.start settings now
    ((start.afterAll ops).hasFrontend → (start.afterAll ops).redraw = false →
      SeesScreen (start.history ops) (start.afterAll ops)) ∧
    ∀ past t rest, start.history ops = past ++ t :: rest →
      (t.before.hasFrontend → t.before.redraw = false → SeesScreen past t.before) ∧
      (t.action = .service → t.before.hasFrontend →
        SeesScreen (past ++ [t]) t.after ∧
        (t.after.shown = t.before.shown ∨
          (∃ n, t.after.shown = (n, t.before.screen) :: t.before.shown) ∧ Due past)) := by
  intro start
  have displayed : ∀ actions, Displayed (start.moments actions) (start.play actions) :=
    Machine.moments_induction (displayed_start settings now) fun _ _ a inv => inv.next a
  constructor
  · have inv := displayed (start.allActions ops)
    rw [Machine.play_allActions] at inv
    exact inv.seen
  · intro past t rest split
    obtain ⟨front, back, rfl, before, -⟩ := Machine.moments_split split
    have inv := displayed front
    rw [← before] at inv
    refine ⟨inv.seen, ?_⟩
    obtain ⟨m, a⟩ := t
    rintro rfl attached
    refine ⟨inv.sees_service attached, ?_⟩
    obtain ⟨n, shown⟩ := m.shown_service
    rw [attached] at shown
    cases changed : m.redraw with
    | false =>
      rw [changed] at shown
      exact Or.inl shown
    | true =>
      rw [changed] at shown
      exact Or.inr ⟨⟨n, shown⟩, inv.due changed⟩

def replacement : List Operation :=
  [.attach { pending := [] }, .service, .changeScreen fun _ => .filled,
    .attach { pending := [{}] }, .service]

theorem never_stale_replacement :
    let start := Machine.start {} 0
    let last := start.afterAll replacement
    (last.hasFrontend ∧ last.redraw = false ∧ SeesScreen (start.history replacement) last) ∧
    ∃ past before n, start.history replacement = past ++ [⟨before, .service⟩] ∧
      before.service.shown = (n, .filled) :: before.shown ∧ Due past := by
  intro start last
  obtain ⟨sees, services⟩ := never_stale {} 0 replacement
  refine ⟨⟨rfl, rfl, sees rfl rfl⟩, ?_⟩
  let past := start.history (replacement.take 4)
  let before := start.afterAll (replacement.take 4)
  have parts : start.history replacement = past ++ [⟨before, .service⟩] := rfl
  obtain ⟨-, same | ⟨⟨n, shown⟩, due⟩⟩ :=
    (services past ⟨before, .service⟩ [] parts).2 rfl rfl
  · exact absurd (congrArg List.length same) (by decide)
  · exact ⟨past, before, n, parts, shown, due⟩

end Chip8
