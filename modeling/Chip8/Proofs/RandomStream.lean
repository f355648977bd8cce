import Chip8.Proofs.History

/-!
# One stream of random bytes

Instructions, the host and the debugger draw their random bytes from one and the same stream, and
nothing else moves the machine along it. So the bytes drawn in a run are the first ones of the stream
that the seed determines, whoever drew them. Main statement: `one_random_stream`.
-/

namespace Chip8

def Instruction.draws : Instruction → Bool
  | random _ _ => true
  | _ => false

namespace Moment

def draws (t : Moment) : Bool :=
  match t.action with
  | .host .drawRandom _ => true
  | .issue => (Instruction.decode? t.before.nextWord).any Instruction.draws
  | _ => false

def drawn? (t : Moment) : Option Byte :=
  if t.draws then some t.after.lastRandom else none

/-- The byte that counts as the last one drawn from now on: one that is drawn, or one that the host
puts in its place. -/
def lastByte? (t : Moment) : Option Byte :=
  match t.action with
  | .host (.setLastRandom b) _ => some b
  | _ => t.drawn?

end Moment

def drawnBytes (past : List Moment) : List Byte :=
  past.filterMap Moment.drawn?

def lastByte (past : List Moment) : Byte :=
  (past.filterMap Moment.lastByte?).getLastD 0

theorem drawnBytes_concat (past : List Moment) (t : Moment) :
    drawnBytes (past ++ [t]) = drawnBytes past ++ t.drawn?.toList := by
  unfold drawnBytes
  rw [List.filterMap_append]
  rcases h : t.drawn? <;> simp [h]

theorem lastByte_concat (past : List Moment) (t : Moment) :
    lastByte (past ++ [t]) = t.lastByte?.getD (lastByte past) := by
  unfold lastByte
  rw [List.filterMap_append]
  rcases h : t.lastByte? <;> simp [h]

/-! ## One action -/

theorem Processor.random_execute (p : Processor) (i : Instruction) :
    (p.execute i).processor.random = (if i.draws then p.random.advance else p.random) ∧
      (p.execute i).processor.lastRandom = if i.draws then p.random.peek else p.lastRandom := by
  cases i
  case skipIfByte | skipUnlessByte | skipIfSame | skipUnlessSame | skipIfKey | skipUnlessKey
      | storeUpTo | loadUpTo =>
    simp [execute, skipIf_eq, passTransfer_eq, Instruction.draws]
  all_goals exact ⟨rfl, rfl⟩

namespace Machine

theorem random_service (m : Machine) :
    m.service.random = m.random ∧ m.service.lastRandom = m.lastRandom := by
  rw [service_eq_withCore]
  exact ⟨rfl, rfl⟩

theorem random_issue (m : Machine) :
    m.issue.random =
        (if Moment.draws ⟨m, .issue⟩ then m.random.advance else m.random) ∧
      m.issue.lastRandom =
        if Moment.draws ⟨m, .issue⟩ then m.random.peek else m.lastRandom := by
  unfold Moment.draws
  rcases next : Instruction.decode? m.nextWord with _ | i
  · rw [issue_of_undecoded next]
    exact ⟨rfl, rfl⟩
  · rw [issue_of_decode next]
    simp only [Option.any_some]
    exact m.fetched.toProcessor.random_execute i

theorem v_issue_of_random {m : Machine} {x : Register} {mask : Byte}
    (next : Instruction.decode? m.nextWord = some (.random x mask)) :
    m.issue.v = m.v.set x (m.random.peek &&& mask) := by
  rw [issue_of_decode next]
  rfl

end Machine

namespace Moment

/-- An action that draws moves the machine along the stream; another one leaves it where it is. -/
theorem random_after (t : Moment) :
    t.after.random = if t.draws then t.before.random.advance else t.before.random := by
  rcases t with ⟨m, a⟩
  rcases a with ⟨op, single⟩ | _ | _ | _ | _ | _
  case host =>
    cases op
    case service | observeClose | step | steps | run | debug => simp [Operation.isSingle] at single
    all_goals rfl
  case issue => exact m.random_issue.1
  case service => exact m.random_service.1
  all_goals rfl

theorem drawn?_eq (t : Moment) :
    t.drawn? = if t.draws then some t.before.random.peek else none := by
  unfold drawn?
  by_cases draws : t.draws
  · rw [if_pos draws, if_pos draws]
    congr 1
    rcases t with ⟨m, a⟩
    rcases a with ⟨op, single⟩ | _ | _ | _ | _ | _
    case host =>
      cases op
      case drawRandom => rfl
      all_goals simp [Moment.draws] at draws
    case issue =>
      have last := m.random_issue.2
      rw [if_pos draws] at last
      exact last
    all_goals simp [Moment.draws] at draws
  · rw [if_neg draws, if_neg draws]

theorem lastRandom_after (t : Moment) :
    t.after.lastRandom = t.lastByte?.getD t.before.lastRandom := by
  rcases t with ⟨m, a⟩
  rcases a with ⟨op, single⟩ | _ | _ | _ | _ | _
  case host =>
    cases op
    case service | observeClose | step | steps | run | debug => simp [Operation.isSingle] at single
    all_goals rfl
  case issue =>
    unfold lastByte? drawn?
    by_cases draws : Moment.draws ⟨m, .issue⟩
    · simp [draws]
    · have last := m.random_issue.2
      rw [if_neg draws] at last
      simp [draws]
      exact last
  case service => exact m.random_service.2
  all_goals rfl

end Moment

/-! ## Runs -/

theorem Machine.step_of_random {m : Machine} {x : Register} {mask : Byte}
    (next : Instruction.decode? m.nextWord = some (.random x mask)) :
    drawnBytes (m.history [.step]) = [m.random.peek] ∧
      m.step.v = m.v.set x (m.random.peek &&& mask) ∧ m.step.random = m.random.advance := by
  have waitless : m.awaited = none := awaited_eq_none (by simp [next])
  have draws : Moment.draws ⟨m, .issue⟩ = true := by
    unfold Moment.draws
    rw [next]
    rfl
  have random := Moment.random_after ⟨m, .issue⟩
  have drawn := Moment.drawn?_eq ⟨m, .issue⟩
  rw [if_pos draws] at random drawn
  refine ⟨?_, ?_, ?_⟩
  · rw [history_step_of_unawaited waitless]
    unfold drawnBytes
    rw [List.filterMap_cons_some drawn]
    rfl
  · rw [step_of_unawaited waitless, service_eq_withCore]
    exact v_issue_of_random next
  · rw [step_of_unawaited waitless, m.issue.random_service.1]
    exact random

structure Drawn (seed : UInt64) (past : List Moment) (m : Machine) : Prop where
  source : m.random = ⟨Random.key seed, (drawnBytes past).length⟩
  bytes : drawnBytes past =
    (List.range (drawnBytes past).length).map (Random.byteAt (Random.key seed))
  last : m.lastRandom = lastByte past

theorem Drawn.peek {seed : UInt64} {past : List Moment} {m : Machine} (inv : Drawn seed past m) :
    m.random.peek = Random.byteAt (Random.key seed) (drawnBytes past).length := by
  unfold Random.Source.peek
  rw [inv.source]

theorem Drawn.next {seed : UInt64} {past : List Moment} {m : Machine} (inv : Drawn seed past m)
    (a : Action) : Drawn seed (past ++ [⟨m, a⟩]) (m.act a) := by
  have random := Moment.random_after ⟨m, a⟩
  have drawn := Moment.drawn?_eq ⟨m, a⟩
  have last := Moment.lastRandom_after ⟨m, a⟩
  unfold Moment.after at random last
  simp only at random drawn last
  have peek := inv.peek
  rcases inv with ⟨source, bytes, before⟩
  rw [before, ← lastByte_concat] at last
  by_cases draws : Moment.draws ⟨m, a⟩
  · rw [if_pos draws] at random drawn
    have more : drawnBytes (past ++ [⟨m, a⟩]) = drawnBytes past ++ [m.random.peek] := by
      rw [drawnBytes_concat, drawn, Option.toList_some]
    constructor
    · rw [random, more, source, List.length_append]
      rfl
    · rw [more, List.length_append, List.length_singleton, List.range_succ, List.map_append, ← bytes,
        peek]
      rfl
    · exact last
  · rw [if_neg draws] at random drawn
    have same : drawnBytes (past ++ [⟨m, a⟩]) = drawnBytes past := by
      rw [drawnBytes_concat, drawn, Option.toList_none, List.append_nil]
    constructor
    · rw [random, same, source]
    · rw [same]
      exact bytes
    · exact last

theorem drawn_play (settings : Settings) (now : Nat) (actions : List Action) :
    Drawn settings.seed ((Machine.start settings now).moments actions)
      ((Machine.start settings now).play actions) := by
  apply Machine.moments_induction
  · exact ⟨rfl, rfl, rfl⟩
  · intro past m a inv
    exact inv.next a

/-- **One stream.** The bytes drawn in a run are the first ones of the stream of its seed, in order.
An instruction that draws takes one of them for its register; nothing else moves the machine along
the stream or back. The byte on show is the last one drawn, unless the host put another in its
place. -/
theorem one_random_stream (settings : Settings) (now : Nat) (ops : List Operation) :
    let start := Machine.start settings now
    let stream := Random.byteAt (Random.key settings.seed)
    (∃ n, drawnBytes (start.history ops) = (List.range n).map stream) ∧
    (start.afterAll ops).lastRandom = lastByte (start.history ops) ∧
    (∀ past t rest, start.history ops = past ++ t :: rest →
      t.before.lastRandom = lastByte past ∧
      t.drawn? = (if t.draws then some (stream (drawnBytes past).length) else none) ∧
      t.after.random = (if t.draws then t.before.random.advance else t.before.random) ∧
      ∀ x mask, t.action = .issue →
        Instruction.decode? t.before.nextWord = some (.random x mask) →
        t.after.v = t.before.v.set x (stream (drawnBytes past).length &&& mask)) ∧
    ∀ (m : Machine) x mask, Instruction.decode? m.nextWord = some (.random x mask) →
      drawnBytes (m.history [.step]) = [m.random.peek] ∧
      m.step.v = m.v.set x (m.random.peek &&& mask) ∧ m.step.random = m.random.advance := by
  intro start stream
  refine ⟨?_, ?_, ?_, ?_⟩
  · exact ⟨_, (drawn_play settings now (start.allActions ops)).bytes⟩
  · rw [← Machine.play_allActions]
    exact (drawn_play settings now (start.allActions ops)).last
  · intro past t rest split
    obtain ⟨front, back, rfl, before, -⟩ := Machine.moments_split split
    have inv := drawn_play settings now front
    rw [← before] at inv
    have drawn := t.drawn?_eq
    rw [inv.peek] at drawn
    refine ⟨inv.last, drawn, t.random_after, ?_⟩
    intro x mask issues next
    unfold Moment.after
    rw [issues]
    refine (Machine.v_issue_of_random next).trans ?_
    rw [inv.peek]
  · intro m x mask next
    exact Machine.step_of_random next

def drawing : List Operation :=
  [.loadWords [0xC10F], .step, .drawRandom, .loadRom [0xC3, 0xF0],
    .debug (fun _ => .error .notFound) (Text.encode "rnd\n".toList), .step, .setLastRandom 5]

theorem one_random_stream_drawing :
    let start := Machine.start { seed := 7 } 0
    let stream := Random.byteAt (Random.key 7)
    let last := start.afterAll (drawing.take 5)
    drawnBytes (start.history drawing) = [stream 0, stream 1, stream 2, stream 3] ∧
      (start.afterAll drawing).lastRandom = 5 ∧
      last.step.v.get ⟨3⟩ = last.random.peek &&& 0xF0 := by
  intro start stream last
  obtain ⟨⟨n, bytes⟩, -, -, steps⟩ := one_random_stream { seed := 7 } 0 drawing
  have four : (drawnBytes (start.history drawing)).length = 4 := by decide +kernel
  have next : Instruction.decode? last.nextWord = some (.random ⟨3⟩ 0xF0) := by decide +kernel
  refine ⟨?_, ?_, ?_⟩
  · rw [bytes, List.length_map, List.length_range] at four
    rw [bytes, four]
    rfl
  · rfl
  · rw [(steps last ⟨3⟩ 0xF0 next).2.1, Registers.get_set_self]

end Chip8
