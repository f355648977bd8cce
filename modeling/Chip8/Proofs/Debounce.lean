import Chip8.Proofs.Footprint
import Chip8.Proofs.Stepwise

/-!
# Debouncing

In the careful mode an instruction that waits for a key goes on only when that key is up again, so a
key that is held is taken once: before it is taken again, a poll or the host has pressed it anew.
Main statement: `debounce`.
-/

namespace Chip8

/-! ## Keys that come down -/

namespace Keypad

theorem isDown_foldl_press {keys : List Key} {p : Keypad} {k : Key}
    (down : (keys.foldl press p).isDown k) : p.isDown k ∨ k ∈ keys := by
  induction keys generalizing p with
  | nil => exact Or.inl down
  | cons j keys ih =>
    rcases ih down with before | member
    · unfold press at before
      rw [isDown_set] at before
      split at before
      · next same => exact Or.inr (by simp [same])
      · exact Or.inl before
    · exact Or.inr (List.mem_cons_of_mem j member)

theorem isDown_foldl_release {keys : List Key} {p : Keypad} {k : Key}
    (down : (keys.foldl release p).isDown k) : p.isDown k := by
  induction keys generalizing p with
  | nil => exact down
  | cons j keys ih =>
    have before := ih down
    unfold release at before
    rw [isDown_set] at before
    split at before
    · cases before
    · exact before

end Keypad

theorem Poll.isDown_apply {p : Poll} {keypad : Keypad} {k : Key}
    (down : (p.apply keypad).isDown k) : keypad.isDown k ∨ k ∈ p.press := by
  rcases Keypad.isDown_foldl_press down with before | member
  · have cleared := Keypad.isDown_foldl_release before
    split at cleared
    · simp at cleared
    · exact Or.inl cleared
  · exact Or.inr member

namespace Machine

theorem keypad_issue (m : Machine) : m.issue.keypad = m.keypad := by
  rw [m.change_issue.keypad_eq]
  rfl

theorem isDown_service {m : Machine} {k : Key} (down : m.service.keypad.isDown k) :
    m.keypad.isDown k ∨ ∃ f, m.frontend = some f ∧ k ∈ f.next.press := by
  cases attached : m.frontend with
  | none =>
    have alone : m.service.keypad = m.keypad := congrArg (·.keypad) (turn_of_headless attached)
    exact Or.inl (alone ▸ down)
  | some f =>
    have polled : m.service.keypad = f.next.apply m.keypad := (turn_of_frontend attached).2.1
    rw [polled] at down
    exact (Poll.isDown_apply down).imp_right fun member => ⟨f, rfl, member⟩

end Machine

namespace Moment

/-- A poll, or the host, presses a key that was up. -/
def Presses (t : Moment) (k : Key) : Prop :=
  t.before.keypad.isDown k = false ∧ t.after.keypad.isDown k ∧
    ((∃ single, t.action = .host (.press k) single) ∨
      t.action = .service ∧ ∃ f, t.before.frontend = some f ∧ k ∈ f.next.press)

def SeesClose (t : Moment) : Prop :=
  t.action = .look ∧ t.after.closing

theorem isDown_after {t : Moment} {k : Key} (down : t.after.keypad.isDown k) :
    t.before.keypad.isDown k ∨ t.Presses k := by
  by_cases held : t.before.keypad.isDown k
  · exact Or.inl held
  · have up : t.before.keypad.isDown k = false := by simpa using held
    right
    refine ⟨up, down, ?_⟩
    rcases t with ⟨m, a⟩
    rcases a with ⟨op, single⟩ | _ | _ | _ | _ | _
    case host =>
      left
      cases op
      case press j =>
        change (m.keypad.set j true).isDown k at down
        rw [Keypad.isDown_set] at down
        split at down
        · next same => exact ⟨single, by rw [same]⟩
        · exact absurd down held
      case release j =>
        change (m.keypad.set j false).isDown k at down
        rw [Keypad.isDown_set] at down
        split at down
        · cases down
        · exact absurd down held
      case clearKeys =>
        change Keypad.idle.isDown k at down
        simp at down
      case service | observeClose | step | steps | run | debug => simp [Operation.isSingle] at single
      all_goals exact absurd down held
    case issue =>
      change m.issue.keypad.isDown k at down
      rw [m.keypad_issue] at down
      exact absurd down held
    case service => exact Or.inr ⟨rfl, (Machine.isDown_service down).resolve_left held⟩
    all_goals exact absurd down held

end Moment

theorem Machine.presses_of_isDown {m : Machine} {k : Key} {actions : List Action}
    (up : m.keypad.isDown k = false) (down : (m.play actions).keypad.isDown k) :
    ∃ v ∈ m.moments actions, v.Presses k := by
  induction actions generalizing m with
  | nil =>
    have held : m.keypad.isDown k := down
    simp [up] at held
  | cons a actions ih =>
    by_cases later : (m.act a).keypad.isDown k
    · have first := (Moment.isDown_after (t := ⟨m, a⟩) later).resolve_left (by simp [up])
      exact ⟨_, List.mem_cons_self .., first⟩
    · obtain ⟨v, member, presses⟩ := ih (by simpa using later) down
      exact ⟨v, List.mem_cons_of_mem _ member, presses⟩

theorem append_eq_append_cons {α : Type} {front back early late : List α} {a : α}
    (same : front ++ back = early ++ a :: late) :
    (∃ rest, front = early ++ a :: rest ∧ late = rest ++ back) ∨
      ∃ rest, early = front ++ rest ∧ back = rest ++ a :: late := by
  rcases List.append_eq_append_iff.1 same with ⟨rest, first, second⟩ | ⟨rest, first, second⟩
  · exact Or.inr ⟨rest, first, second⟩
  · cases rest with
    | nil => exact Or.inr ⟨[], by simpa using first.symm, second.symm⟩
    | cons b rest =>
      obtain ⟨rfl, late⟩ := List.cons.inj second
      exact Or.inl ⟨rest, first, late⟩

/-! ## One wait -/

namespace Machine

variable {m : Machine} {x : Register} {k : Key}

theorem lowest?_awaitPress (got : (m.awaitPress x).1 = some k) :
    (m.awaitPress x).2.keypad.lowest? = some k := by
  induction m using awaitPress.induct with
  | case1 m j down =>
    rw [awaitPress_of_down down] at got ⊢
    cases got
    exact down
  | case2 m idle attached next opened ih =>
    replace opened : m.turn.closing = false := opened
    rw [awaitPress_of_attached idle attached, if_pos opened] at got ⊢
    exact ih got
  | case3 m idle attached next closed =>
    replace closed : ¬ m.turn.closing = false := closed
    rw [awaitPress_of_attached idle attached, if_neg closed] at got
    cases got
  | case4 m idle alone =>
    rw [awaitPress_of_headless idle (by simpa using alone)] at got
    cases got

theorem waitActions_of_press (got : (m.awaitPress x).1 = some k) :
    m.waitActions x = m.pressActions x ++ .store x k ::
      match (m.awaitPress x).2.keyWait with
      | .press => []
      | .release => ((m.awaitPress x).2.setRegister x k.toByte).releaseActions k := by
  unfold waitActions
  generalize m.awaitPress x = waited at got
  obtain ⟨key, pressed⟩ := waited
  obtain rfl : key = some k := got
  rfl

theorem awaitKey_of_release (got : (m.awaitPress x).1 = some k)
    (careful : (m.awaitPress x).2.keyWait = .release) :
    m.awaitKey x = ((m.awaitPress x).2.setRegister x k.toByte).awaitRelease k := by
  rw [← play_waitActions, waitActions_of_press got, careful, play_append, play_pressActions, play_cons]
  exact play_releaseActions _ k

theorem waitActions_of_none (got : (m.awaitPress x).1 = none) :
    m.waitActions x = m.pressActions x := by
  unfold waitActions
  generalize m.awaitPress x = waited at got
  obtain ⟨key, pressed⟩ := waited
  obtain rfl : key = none := got
  rfl

theorem isDown_awaitRelease (attached : m.hasFrontend)
    (opened : ∀ u ∈ m.moments (m.releaseActions k), ¬ u.SeesClose) :
    (m.awaitRelease k).keypad.isDown k = false := by
  induction m using awaitRelease.induct k with
  | case1 m down next still ih =>
    replace still : m.turn.closing = false := still
    rw [releaseActions_of_attached down.1 down.2, if_pos still] at opened
    rw [awaitRelease_of_attached down.1 down.2, if_pos still]
    apply ih
    · exact (hasFrontend_turn m).trans attached
    · intro u member
      exact opened u (List.mem_cons_of_mem _ (List.mem_cons_of_mem _ member))
  | case2 m down next closed =>
    replace closed : ¬ m.turn.closing = false := closed
    rw [releaseActions_of_attached down.1 down.2, if_neg closed] at opened
    have closing : m.turn.closing = true := by simpa using closed
    have seen : Moment.SeesClose ⟨m.service, .look⟩ := ⟨rfl, closing⟩
    exact absurd seen (opened _ (List.mem_cons_of_mem _ (List.mem_cons_self ..)))
  | case3 m ends =>
    rw [awaitRelease_of_up ends]
    simpa [attached] using ends

/-! ## Where keys are stored -/

theorem store_notMem_pressActions (x y : Register) (k : Key) : .store y k ∉ m.pressActions x := by
  intro member
  rcases mem_pressActions member with same | same | same <;> cases same

theorem store_notMem_releaseActions (j : Key) : .store x k ∉ m.releaseActions j := by
  intro member
  rcases mem_releaseActions member with same | same <;> cases same

/-- A wait stores one key, the one that its first phase got. -/
theorem waitActions_split {y : Register} {front back : List Action}
    (split : m.waitActions y = front ++ .store x k :: back) :
    y = x ∧ (m.awaitPress x).1 = some k ∧ front = m.pressActions x ∧
      back = match (m.awaitPress x).2.keyWait with
        | .press => []
        | .release => ((m.awaitPress x).2.setRegister x k.toByte).releaseActions k := by
  cases got : (m.awaitPress y).1 with
  | none =>
    rw [waitActions_of_none got] at split
    have member : .store x k ∈ m.pressActions y := by simp [split]
    exact absurd member (store_notMem_pressActions y x k)
  | some j =>
    rw [waitActions_of_press got] at split
    rcases append_eq_append_cons split with ⟨between, first, -⟩ | ⟨between, first, later⟩
    · have member : .store x k ∈ m.pressActions y := by simp [first]
      exact absurd member (store_notMem_pressActions y x k)
    · cases between with
      | nil =>
        obtain ⟨same, rest⟩ := List.cons.inj later
        cases same
        exact ⟨rfl, got, by simpa using first, rest.symm⟩
      | cons a between =>
        obtain ⟨-, rest⟩ := List.cons.inj later
        have member : .store x k ∈ between.append (.store x k :: back) :=
          List.mem_append_right between (List.mem_cons_self ..)
        rw [← rest] at member
        split at member
        · cases member
        · exact absurd member (store_notMem_releaseActions j)

end Machine

/-- At the moment `t`, with `past` before it, the instruction that met `w` stores the key that it
waited for, and `releasing` is the rest of its wait. -/
structure StoredBy (w : Machine) (x : Register) (past : List Moment) (t : Moment)
    (releasing : List Moment) : Prop where
  word : w.nextWord = Instruction.encode (.awaitKey x)
  wait : ∃ earlier pressing, past = earlier ++ ⟨w, .issue⟩ :: pressing ∧
    w.issue.moments (w.issue.waitActions x) = pressing ++ t :: releasing

theorem StoredBy.phases {w : Machine} {x : Register} {k : Key} {past releasing : List Moment}
    {t : Moment} (stored : StoredBy w x past t releasing) (stores : t.action = .store x k) :
    (w.issue.awaitPress x).1 = some k ∧ t.before = (w.issue.awaitPress x).2 ∧
      releasing = t.after.moments (match t.before.keyWait with
        | .press => []
        | .release => t.after.releaseActions k) := by
  obtain ⟨earlier, pressing, -, wait⟩ := stored.wait
  obtain ⟨front, back, -, before, rest, whole⟩ := Machine.moments_split wait
  rw [stores] at whole
  obtain ⟨-, got, first, last⟩ := Machine.waitActions_split whole
  rw [first, Machine.play_pressActions] at before
  have after : t.after = (w.issue.awaitPress x).2.setRegister x k.toByte := by
    unfold Moment.after
    rw [stores, before]
    rfl
  refine ⟨got, before, ?_⟩
  rw [rest, last, before, after]

theorem StoredBy.isDown {w : Machine} {x : Register} {k : Key} {past releasing : List Moment}
    {t : Moment} (stored : StoredBy w x past t releasing) (stores : t.action = .store x k) :
    t.before.keypad.isDown k := by
  obtain ⟨got, before, -⟩ := stored.phases stores
  rw [before]
  exact Keypad.isDown_of_lowest? (Machine.lowest?_awaitPress got)

theorem StoredBy.store_notMem {w : Machine} {x : Register} {k : Key} {past releasing : List Moment}
    {t u : Moment} (stored : StoredBy w x past t releasing) (stores : t.action = .store x k)
    (member : u ∈ releasing) (y : Register) (j : Key) : u.action ≠ .store y j := by
  obtain ⟨-, -, rest⟩ := stored.phases stores
  rw [rest] at member
  have listed := Machine.action_mem member
  intro again
  rw [again] at listed
  split at listed
  · cases listed
  · exact Machine.store_notMem_releaseActions k listed

theorem Machine.step_of_awaitKey {m : Machine} {x : Register}
    (next : m.nextWord = Instruction.encode (.awaitKey x)) : m.step = (m.issue.awaitKey x).service := by
  have decodes : Instruction.decode? m.nextWord = some (.awaitKey x) := by
    rw [next]
    exact Instruction.decode?_encode trivial
  rw [step_of_decode decodes, issue_of_decode decodes]
  rfl

theorem Machine.storedBy_of_step {m : Machine} {x : Register} {k : Key} {past later : List Moment}
    {t : Moment} (split : m.moments m.stepActions = past ++ t :: later)
    (stores : t.action = .store x k) :
    ∃ releasing, StoredBy m x past t releasing ∧
      later = releasing ++ [⟨m.issue.awaitKey x, .service⟩] := by
  cases waits : m.awaited with
  | none =>
    have two : m.moments m.stepActions = [⟨m, .issue⟩, ⟨m.issue, .service⟩] := by
      unfold stepActions
      rw [waits]
      rfl
    have member : t ∈ m.moments m.stepActions := by simp [split]
    rw [two] at member
    simp only [List.mem_cons, List.not_mem_nil, or_false] at member
    rcases member with rfl | rfl <;> cases stores
  | some y =>
    have parts : m.moments m.stepActions = ⟨m, .issue⟩ ::
        (m.issue.moments (m.issue.waitActions y) ++ [⟨m.issue.awaitKey y, .service⟩]) := by
      unfold stepActions
      rw [waits, List.cons_append]
      simp only
      rw [moments, moments_append, ← play_waitActions]
      rfl
    rw [parts] at split
    cases past with
    | nil =>
      obtain ⟨rfl, -⟩ := List.cons.inj split
      cases stores
    | cons u pressing =>
      obtain ⟨rfl, inner⟩ := List.cons.inj split
      rcases append_eq_append_cons inner with ⟨releasing, wait, rest⟩ | ⟨between, -, last⟩
      · obtain ⟨front, back, -, -, -, whole⟩ := moments_split wait
        rw [stores] at whole
        obtain ⟨rfl, -⟩ := waitActions_split whole
        refine ⟨releasing, ⟨?_, ⟨[], pressing, rfl, wait⟩⟩, rest⟩
        exact (Instruction.encode_of_decode? (decode?_of_awaited waits)).symm
      · have member : t ∈ [(⟨m.issue.awaitKey y, .service⟩ : Moment)] := by simp [last]
        rw [List.mem_singleton.1 member] at stores
        cases stores

theorem Stepwise.storedBy {m : Machine} {x : Register} {k : Key} {actions : List Action}
    {past later : List Moment} {t : Moment} (made : Stepwise (fun a => a.isOutside) m actions)
    (split : m.moments actions = past ++ t :: later) (stores : t.action = .store x k) :
    ∃ w releasing after, StoredBy w x past t releasing ∧
      later = releasing ++ (w.issue.awaitKey x).moments after := by
  induction made generalizing past with
  | nil => simp [Machine.moments] at split
  | @action m a _ outside _ ih =>
    cases past with
    | nil =>
      obtain ⟨rfl, -⟩ := List.cons.inj split
      rw [show a = .store x k from stores] at outside
      cases outside
    | cons u past =>
      obtain ⟨rfl, rest⟩ := List.cons.inj split
      obtain ⟨w, releasing, after, ⟨word, earlier, pressing, parts, wait⟩, ends⟩ := ih rest
      refine ⟨w, releasing, after, ⟨word, ⟨m, a⟩ :: earlier, pressing, ?_, wait⟩, ends⟩
      rw [parts]
      rfl
  | @step m back _ ih =>
    rw [Machine.moments_append, Machine.play_stepActions] at split
    rcases append_eq_append_cons split with ⟨rest, first, second⟩ | ⟨rest, first, second⟩
    · obtain ⟨releasing, stored, ends⟩ := Machine.storedBy_of_step first stores
      have returns := Machine.step_of_awaitKey stored.word
      refine ⟨m, releasing, .service :: back, stored, ?_⟩
      rw [second, ends, returns, List.append_assoc]
      rfl
    · obtain ⟨w, releasing, after, ⟨word, earlier, pressing, parts, wait⟩, ends⟩ := ih second
      refine ⟨w, releasing, after, ⟨word, m.moments m.stepActions ++ earlier, pressing, ?_, wait⟩,
        ends⟩
      rw [first, parts, List.append_assoc]

/-! ## Debouncing -/

theorem Machine.isDown_awaitKey {m : Machine} {x : Register} {k : Key} (careful : m.keyWait = .release)
    (attached : m.hasFrontend) (got : (m.awaitPress x).1 = some k)
    (opened : ∀ u ∈ m.moments (m.waitActions x), ¬ u.SeesClose) :
    (m.awaitKey x).keypad.isDown k = false := by
  obtain ⟨n, -, turns⟩ := m.awaitPress_turns x
  rw [noteSkipped_of_attached attached] at turns
  have mode : (m.awaitPress x).2.keyWait = .release := by rw [turns, keyWait_turns, careful]
  have still : ((m.awaitPress x).2.setRegister x k.toByte).hasFrontend := by
    show (m.awaitPress x).2.hasFrontend
    rw [turns, hasFrontend_turns, attached]
  rw [waitActions_of_press got, mode, moments_append, play_pressActions] at opened
  rw [awaitKey_of_release got mode]
  apply isDown_awaitRelease still
  intro u member
  exact opened u (List.mem_append_right _ (List.mem_cons_of_mem _ member))

theorem StoredBy.isDown_awaitKey {w : Machine} {x : Register} {k : Key}
    {past releasing : List Moment} {t : Moment} (stored : StoredBy w x past t releasing)
    (stores : t.action = .store x k) (careful : t.before.keyWait = .release)
    (attached : t.before.hasFrontend) (opened : ∀ u ∈ releasing, ¬ u.SeesClose) :
    (w.issue.awaitKey x).keypad.isDown k = false := by
  obtain ⟨got, before, rest⟩ := stored.phases stores
  have after : t.after = t.before.setRegister x k.toByte := by
    unfold Moment.after
    rw [stores]
    rfl
  rw [rest, careful, after, before] at opened
  rw [before] at careful attached
  rw [Machine.awaitKey_of_release got careful]
  exact Machine.isDown_awaitRelease attached opened

/-- **A held key is taken once.** A wait in the careful mode, with a frontend and without a close,
leaves the key that it stored up. So whatever a run does, it stores the same key again only after a
poll or the host has pressed it anew since that wait returned. -/
theorem debounce :
    (∀ (m : Machine) x k, m.keyWait = .release → m.hasFrontend → (m.awaitPress x).1 = some k →
      (∀ u ∈ m.moments (m.waitActions x), ¬ u.SeesClose) →
      (m.awaitKey x).keypad.isDown k = false) ∧
    ∀ (m : Machine) ops past t later x k, m.history ops = past ++ t :: later →
      t.action = .store x k →
      ∃ w releasing after, StoredBy w x past t releasing ∧
        later = releasing ++ (w.issue.awaitKey x).moments after ∧
        (t.before.keyWait = .release → t.before.hasFrontend → (∀ u ∈ releasing, ¬ u.SeesClose) →
          (w.issue.awaitKey x).keypad.isDown k = false ∧
          ∀ middle u last y, later = middle ++ u :: last → u.action = .store y k →
            ∃ between, middle = releasing ++ between ∧ ∃ v ∈ between, v.Presses k) := by
  constructor
  · intro m x k careful attached got opened
    exact Machine.isDown_awaitKey careful attached got opened
  · intro m ops past t later x k split stores
    have made := Machine.stepwise_allActions (m := m) ops
    obtain ⟨w, releasing, after, stored, ends⟩ := made.storedBy split stores
    refine ⟨w, releasing, after, stored, ends, ?_⟩
    intro careful attached opened
    have up := stored.isDown_awaitKey stores careful attached opened
    refine ⟨up, ?_⟩
    intro middle u last y again storesAgain
    -- The second key is down when it is stored, so it came down since the first wait returned.
    have down : u.before.keypad.isDown k := by
      rw [again, ← List.cons_append, ← List.append_assoc] at split
      obtain ⟨_, _, _, storedAgain, -⟩ := made.storedBy split storesAgain
      exact storedAgain.isDown storesAgain
    rw [ends] at again
    rcases append_eq_append_cons again with ⟨rest, inside, -⟩ | ⟨between, parts, rest⟩
    · exact absurd storesAgain (stored.store_notMem stores (by simp [inside]) y k)
    · obtain ⟨front, back, same, before, -⟩ := Machine.moments_split rest
      rw [before] at down
      rw [same] at parts
      exact ⟨_, parts, Machine.presses_of_isDown up down⟩

def Moment.stored? (t : Moment) : Option (Register × Key) :=
  match t.action with
  | .store x k => some (x, k)
  | _ => none

theorem Moment.action_of_stored? {t : Moment} {x : Register} {k : Key}
    (stored : t.stored? = some (x, k)) : t.action = .store x k := by
  unfold stored? at stored
  split at stored
  · next action =>
    cases stored
    exact action
  · cases stored

/-- Somebody taps `7`, and later `7` and `9` together, letting go of `9` first. -/
def tapping : Frontend where
  pending := [{ press := [.ofNat 7] }, { release := [.ofNat 7] }, {},
    { press := [.ofNat 9, .ofNat 7] }, { release := [.ofNat 9] }, { release := [.ofNat 7] }, {}]

def tapped : List Moment :=
  (Machine.start {} 0).history [.loadWords [0xF00A, 0xF10A], .attach tapping, .step, .step]

theorem debounce_tapped :
    (((Machine.start {} 0).attach tapping).awaitKey ⟨0⟩).keypad.isDown ⟨7⟩ = false ∧
    ∃ past t middle u last, tapped = past ++ t :: (middle ++ u :: last) ∧
      t.stored? = some (⟨0⟩, ⟨7⟩) ∧ u.stored? = some (⟨1⟩, ⟨7⟩) ∧ ∃ v ∈ middle, v.Presses ⟨7⟩ := by
  obtain ⟨returns, stores⟩ := debounce
  constructor
  · have opened : ∀ u ∈ ((Machine.start {} 0).attach tapping).moments
        (((Machine.start {} 0).attach tapping).waitActions ⟨0⟩), u.after.closing = false := by
      decide +kernel
    refine returns _ ⟨0⟩ ⟨7⟩ rfl rfl (by decide +kernel) ?_
    intro u member seen
    rw [Moment.SeesClose, opened u member] at seen
    exact absurd seen.2 (by decide)
  · have opened : ∀ u ∈ tapped, u.after.closing = false := by decide +kernel
    have long : 12 < tapped.length := by decide +kernel
    have attached : tapped[5].before.keyWait = .release ∧ tapped[5].before.hasFrontend ∧
        tapped[5].stored? = some (⟨0⟩, ⟨7⟩) ∧ tapped[12].stored? = some (⟨1⟩, ⟨7⟩) := by
      decide +kernel +revert
    have first : tapped = tapped.take 5 ++ tapped[5] :: tapped.drop 6 := by
      rw [← List.drop_eq_getElem_cons, List.take_append_drop]
    have second : tapped.drop 6 = (tapped.drop 6).take 6 ++ tapped[12] :: tapped.drop 13 := by
      rw [← List.drop_eq_getElem_cons, ← List.drop_drop (i := 6) (j := 6), List.take_append_drop]
    obtain ⟨careful, attached, one, two⟩ := attached
    obtain ⟨w, releasing, after, -, ends, since⟩ :=
      stores _ _ _ _ _ ⟨0⟩ ⟨7⟩ first (Moment.action_of_stored? one)
    have unseen : ∀ u ∈ releasing, ¬ u.SeesClose := by
      intro u member seen
      have inside : u ∈ tapped := by
        rw [first, ends]
        simp [member]
      rw [Moment.SeesClose, opened u inside] at seen
      exact absurd seen.2 (by decide)
    obtain ⟨-, anew⟩ := since careful attached unseen
    obtain ⟨between, parts, v, member, presses⟩ :=
      anew _ _ _ ⟨1⟩ second (Moment.action_of_stored? two)
    refine ⟨tapped.take 5, _, (tapped.drop 6).take 6, _, tapped.drop 13, ?_, one, two, v, ?_, presses⟩
    · rw [← second]
      exact first
    · rw [parts]
      exact List.mem_append_right releasing member

end Chip8
