import Chip8.Proofs.Checked.Memory
import Chip8.Proofs.KeyWait

/-!
# The checked machine

A machine whose counters are words and whose stack depth is any number, so that they can leave their
range and an access can fail. Registers and keys are named by four bits, and their arrays have a place
for each name. It shows as a machine of the library, which it agrees with as long as it is in range.
-/

namespace Chip8.Checked

structure Bare where
  pc : Word
  index : Word
  depth : Nat
  slots : Vector Word 16
  /-- All else; its own counters and its own stack are not looked at. -/
  rest : Machine

namespace Bare

def stack (b : Bare) : CallStack :=
  ⟨b.slots, Fin.ofNat 17 b.depth⟩

def onto (b : Bare) (m : Machine) : Machine :=
  { m with pc := b.pc.address, index := b.index.address, stack := b.stack }

def view (b : Bare) : Machine :=
  b.onto b.rest

structure InRange (b : Bare) : Prop where
  pc : b.pc ≤ 0xFFF
  index : b.index ≤ 0xFFF
  depth : b.depth ≤ 16
  slots : ∀ w ∈ b.slots.toList, w ≤ 0xFFF

/-! ## What is shown -/

/-- There is an outcome, it is in range and it shows as the machine. -/
def Shows (outcome : Option Bare) (m : Machine) : Prop :=
  ∃ b, outcome = some b ∧ b.InRange ∧ b.view = m

theorem Shows.bind {outcome : Option Bare} {m m' : Machine} {f : Bare → Option Bare}
    (first : Shows outcome m) (later : ∀ b : Bare, b.InRange → b.view = m → Shows (f b) m') :
    Shows (outcome.bind f) m' := by
  obtain ⟨b, rfl, inside, shown⟩ := first
  exact later b inside shown

theorem Shows.of_inRange {b : Bare} {m : Machine} (inside : b.InRange) (shown : b.view = m) :
    Shows (some b) m :=
  ⟨b, rfl, inside, shown⟩

theorem InRange.onto {b : Bare} (inside : b.InRange) (m : Machine) :
    InRange { b with rest := m } :=
  ⟨inside.pc, inside.index, inside.depth, inside.slots⟩

theorem InRange.withPc {b : Bare} (inside : b.InRange) (w : Word) :
    InRange { b with pc := mask w } :=
  ⟨mask_le w, inside.index, inside.depth, inside.slots⟩

theorem InRange.withIndex {b : Bare} (inside : b.InRange) (w : Word) :
    InRange { b with index := mask w } :=
  ⟨inside.pc, mask_le w, inside.depth, inside.slots⟩

theorem InRange.toWord_pc {b : Bare} (inside : b.InRange) : b.view.pc.toWord = b.pc :=
  (toWord_address b.pc).trans (mask_of_le inside.pc)

/-! ## Counters -/

def passWord (b : Bare) : Bare :=
  { b with pc := mask (b.pc + 2) }

theorem view_withPc (b : Bare) (w : Word) :
    view { b with pc := mask w } = b.view.setPc w.address := by
  unfold view onto
  rw [address_mask]
  rfl

theorem view_withIndex (b : Bare) (w : Word) :
    view { b with index := mask w } = b.view.setIndex w.address := by
  unfold view onto
  rw [address_mask]
  rfl

theorem setPc_spec {b : Bare} (inside : b.InRange) (w : Word) :
    Shows (some { b with pc := mask w }) (b.view.setPc w.address) :=
  .of_inRange (inside.withPc w) (b.view_withPc w)

theorem setIndex_spec {b : Bare} (inside : b.InRange) (w : Word) :
    Shows (some { b with index := mask w }) (b.view.setIndex w.address) :=
  .of_inRange (inside.withIndex w) (b.view_withIndex w)

theorem view_passWord (b : Bare) : b.passWord.view = b.view.passWord := by
  unfold passWord
  rw [view_withPc, address_add]
  rfl

theorem passWord_spec {b : Bare} (inside : b.InRange) : Shows (some b.passWord) b.view.passWord :=
  .of_inRange (inside.withPc _) b.view_passWord

/-! ## The stack -/

def report (b : Bare) (notices : List Notice) : Bare :=
  { b with rest := b.rest.report notices }

def push (b : Bare) (w : Word) : Option Bare :=
  if b.depth = 16 then some (b.report [.returnDropped w])
  else if h : b.depth < 16 then
    some { b with slots := b.slots.set b.depth w, depth := b.depth + 1 }
  else none

def pop (b : Bare) : Option (Word × Bare) :=
  if b.depth = 0 then some (0, b)
  else do
    let top ← b.slots[b.depth - 1]?
    some (top, { b with depth := b.depth - 1 })

def dropTop (b : Bare) : Option Bare := do
  let (_, left) ← b.pop
  some left

/-- The live return addresses, if the depth is one that the array has. -/
def frames (b : Bare) : Option (List Word) :=
  if b.depth ≤ 16 then some (b.slots.toList.take b.depth) else none

theorem InRange.stack_eq {b : Bare} (inside : b.InRange) :
    b.stack = ⟨b.slots, ⟨b.depth, Nat.lt_succ_of_le inside.depth⟩⟩ := by
  unfold stack
  congr 1
  exact Fin.ext (Nat.mod_eq_of_lt (Nat.lt_succ_of_le inside.depth))

def pushWord (m : Machine) (w : Word) : Machine :=
  { m with stack := m.stack.push w }.report (Notice.ofPush m.stack w)

theorem push_spec {b : Bare} (inside : b.InRange) {w : Word} (small : w ≤ 0xFFF) :
    Shows (b.push w) (pushWord b.view w) := by
  have same : b.view.stack = _ := inside.stack_eq
  unfold push pushWord
  by_cases full : b.depth = 16
  · rw [if_pos full]
    refine .of_inRange (inside.onto _) ?_
    have dropped : b.view.stack.push w = b.view.stack := by
      apply CallStack.push_of_full
      rw [same]
      exact full
    have noted : Notice.ofPush b.view.stack w = [.returnDropped w] := by
      rw [Notice.ofPush, same]
      exact if_pos (beq_iff_eq.2 full)
    rw [dropped, noted]
    rfl
  · have room : b.depth < 16 := Nat.lt_of_le_of_ne inside.depth full
    have noted : Notice.ofPush b.view.stack w = [] := by
      rw [Notice.ofPush, same]
      exact if_neg (mt beq_iff_eq.1 full)
    have inside' : InRange { b with slots := b.slots.set b.depth w, depth := b.depth + 1 } := by
      refine ⟨inside.pc, inside.index, room, ?_⟩
      intro u member
      rw [Vector.toList_set] at member
      rcases List.mem_or_eq_of_mem_set member with old | rfl
      · exact inside.slots u old
      · exact small
    rw [if_neg full, dif_pos room, noted]
    refine .of_inRange inside' ?_
    have pushed : b.view.stack.push w =
        stack { b with slots := b.slots.set b.depth w, depth := b.depth + 1 } := by
      rw [inside'.stack_eq, same, CallStack.push, dif_pos room]
    rw [pushed]
    rfl

theorem pushMasked_spec {b : Bare} (inside : b.InRange) (a : Word) :
    Shows (b.push (mask a)) (b.view.push a.address) := by
  have pushed : Shows (b.push (mask a)) (pushWord b.view a.address.toWord) := by
    rw [toWord_address]
    exact push_spec inside (mask_le a)
  exact pushed

theorem pop_spec {b : Bare} (inside : b.InRange) :
    ∃ w b', b.pop = some (w, b') ∧ b'.InRange ∧ w = b.view.stack.top ∧ b'.view = b.view.pop := by
  have same : b.view.stack = _ := inside.stack_eq
  unfold pop
  by_cases bare : b.depth = 0
  · rw [if_pos bare]
    refine ⟨0, b, rfl, inside, ?_, ?_⟩
    · rw [same, CallStack.top, dif_neg (by simp [bare])]
    · have kept : b.view.stack.pop.2 = b.view.stack := by
        rw [same, CallStack.pop]
        simp [bare]
      rw [Machine.pop, kept]
  · have inside' : InRange { b with depth := b.depth - 1 } :=
      ⟨inside.pc, inside.index, Nat.le_trans (Nat.sub_le _ _) inside.depth, inside.slots⟩
    have below : b.depth - 1 < 16 := by
      have := inside.depth
      omega
    rw [if_neg bare, Vector.getElem?_eq_getElem below]
    refine ⟨_, _, rfl, inside', ?_, ?_⟩
    · rw [same, CallStack.top, dif_pos (Nat.pos_of_ne_zero bare)]
    · have left : b.view.stack.pop.2 = stack { b with depth := b.depth - 1 } := by
        rw [inside'.stack_eq, same, CallStack.pop]
      rw [Machine.pop, left]
      rfl

theorem dropTop_spec {b : Bare} (inside : b.InRange) : Shows b.dropTop b.view.pop := by
  obtain ⟨top, left, popped, inside', -, shown⟩ := pop_spec inside
  unfold dropTop
  rw [popped]
  exact .of_inRange inside' shown

theorem frames_spec {b : Bare} (inside : b.InRange) : b.frames = some b.view.stack.frames := by
  have same : b.view.stack = _ := inside.stack_eq
  rw [frames, if_pos inside.depth, same]
  rfl

/-! ## Peripherals -/

-- What services the peripherals looks at neither the counters nor the stack.

theorem service_onto (b : Bare) (m : Machine) : (b.onto m).service = b.onto m.service := by
  have screen : (b.onto m).screen = m.screen := rfl
  calc (b.onto m).service = m.service.withCore (b.onto m) := m.service_withCore screen
    _ = b.onto (m.service.withCore m) := rfl
    _ = b.onto m.service := by rw [← Machine.service_eq_withCore]

theorem turn_onto (b : Bare) (m : Machine) : (b.onto m).turn = b.onto m.turn := by
  unfold Machine.turn
  rw [service_onto]
  rfl

theorem awaitPress_onto (b : Bare) (m : Machine) (x : Register) :
    (b.onto m).awaitPress x = ((m.awaitPress x).1, b.onto (m.awaitPress x).2) := by
  induction m using Machine.awaitPress.induct with
  | case1 m k down =>
    rw [Machine.awaitPress_of_down down]
    exact Machine.awaitPress_of_down (show (b.onto m).keypad.lowest? = some k from down) x
  | case2 m idle attached next opened ih =>
    replace opened : m.turn.closing = false := opened
    rw [Machine.awaitPress_of_attached idle attached, if_pos opened]
    rw [Machine.awaitPress_of_attached (show (b.onto m).keypad.lowest? = none from idle) attached,
      turn_onto, if_pos (show (b.onto m.turn).closing = false from opened)]
    exact ih
  | case3 m idle attached next closed =>
    replace closed : ¬ m.turn.closing = false := closed
    rw [Machine.awaitPress_of_attached idle attached, if_neg closed]
    rw [Machine.awaitPress_of_attached (show (b.onto m).keypad.lowest? = none from idle) attached,
      turn_onto, if_neg (show ¬ (b.onto m.turn).closing = false from closed)]
  | case4 m idle alone =>
    replace alone : m.hasFrontend = false := by simpa using alone
    rw [Machine.awaitPress_of_headless idle alone]
    exact Machine.awaitPress_of_headless (show (b.onto m).keypad.lowest? = none from idle) alone x

theorem awaitRelease_onto (b : Bare) (m : Machine) (k : Key) :
    (b.onto m).awaitRelease k = b.onto (m.awaitRelease k) := by
  induction m using Machine.awaitRelease.induct k with
  | case1 m down next opened ih =>
    replace opened : m.turn.closing = false := opened
    rw [Machine.awaitRelease_of_attached down.1 down.2, if_pos opened]
    rw [Machine.awaitRelease_of_attached (show (b.onto m).hasFrontend from down.1) down.2,
      turn_onto, if_pos (show (b.onto m.turn).closing = false from opened)]
    exact ih
  | case2 m down next closed =>
    replace closed : ¬ m.turn.closing = false := closed
    rw [Machine.awaitRelease_of_attached down.1 down.2, if_neg closed]
    rw [Machine.awaitRelease_of_attached (show (b.onto m).hasFrontend from down.1) down.2,
      turn_onto, if_neg (show ¬ (b.onto m.turn).closing = false from closed)]
  | case3 m ends =>
    rw [Machine.awaitRelease_of_up ends]
    exact Machine.awaitRelease_of_up ends

theorem awaitKey_onto (b : Bare) (m : Machine) (x : Register) :
    (b.onto m).awaitKey x = b.onto (m.awaitKey x) := by
  unfold Machine.awaitKey
  rw [awaitPress_onto]
  rcases m.awaitPress x with ⟨_ | k, before⟩
  · rfl
  · have mode : (b.onto before).keyWait = before.keyWait := rfl
    simp only [mode]
    cases before.keyWait with
    | press => rfl
    | release => exact awaitRelease_onto b (before.setRegister x k.toByte) k

end Bare

end Chip8.Checked
