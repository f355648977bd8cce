import Chip8.Word

/-!
# Timers

Two counters, for delay and for sound, that go down to zero at about sixty steps in a second. Time
is counted in microseconds. However much time has passed, a tick takes at most one step, and the
next one is due a whole period later. Main statement: a tick with the clock at rest changes nothing.
-/

namespace Chip8

@[ext] structure Timers where
  delay : Byte
  sound : Byte
  /-- The time of the last step down, or of the start. -/
  since : Nat
  deriving DecidableEq

namespace Timers

/-- The microseconds from one step to the next. -/
def period : Nat := 16000

def start (now : Nat) : Timers :=
  ⟨0, 0, now⟩

def isDue (t : Timers) (now : Nat) : Bool :=
  period ≤ now - t.since

def down (b : Byte) : Byte :=
  if b = 0 then 0 else b - 1

def tick (t : Timers) (now : Nat) : Timers :=
  if t.isDue now then ⟨down t.delay, down t.sound, now⟩ else t

@[simp] theorem toNat_down (b : Byte) : (down b).toNat = b.toNat - 1 := by
  unfold down
  split
  · next h => simp [h]
  · next h =>
    have positive : b.toNat ≠ 0 := fun h0 => h (UInt8.toNat.inj (by simpa using h0))
    have one_le : (1 : Byte) ≤ b := by
      rw [UInt8.le_iff_toNat_le]
      exact Nat.one_le_iff_ne_zero.2 positive
    simp [UInt8.toNat_sub_of_le _ _ one_le]

theorem tick_of_isDue {t : Timers} {now : Nat} (h : t.isDue now) :
    t.tick now = ⟨down t.delay, down t.sound, now⟩ := by
  simp [tick, h]

theorem tick_of_not_isDue {t : Timers} {now : Nat} (h : ¬ t.isDue now) : t.tick now = t := by
  simp [tick, h]

theorem tick_tick (t : Timers) (now : Nat) : (t.tick now).tick now = t.tick now := by
  by_cases h : t.isDue now
  · rw [tick_of_isDue h, tick_of_not_isDue (by simp [isDue, period])]
  · rw [tick_of_not_isDue h, tick_of_not_isDue h]

end Timers

end Chip8
