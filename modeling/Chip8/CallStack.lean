import Chip8.Word

/-!
# The call stack

Room for sixteen return addresses. Misuse degrades and never fails: a push on a full stack is
dropped, and a pop from an empty one gives zero. The view of a stack is its list of live frames,
bottom first; the lemmas say what each operation does to that list.
-/

namespace Chip8

/-- Sixteen slots, of which the first `depth` are live. -/
structure CallStack where
  slots : Vector Word 16
  depth : Fin 17
  deriving DecidableEq

namespace CallStack

def capacity : Nat := 16

def empty : CallStack :=
  ⟨Vector.replicate 16 0, ⟨0, by decide⟩⟩

def isEmpty (s : CallStack) : Bool :=
  s.depth.val == 0

def isFull (s : CallStack) : Bool :=
  s.depth.val == capacity

def size (s : CallStack) : Nat :=
  s.depth.val

def frames (s : CallStack) : List Word :=
  s.slots.toList.take s.depth.val

def top (s : CallStack) : Word :=
  if h : 0 < s.depth.val then s.slots[s.depth.val - 1] else 0

def push (s : CallStack) (w : Word) : CallStack :=
  if h : s.depth.val < 16 then
    ⟨s.slots.set s.depth.val w, ⟨s.depth.val + 1, by omega⟩⟩
  else s

def pop (s : CallStack) : Word × CallStack :=
  (s.top, { s with depth := ⟨s.depth.val - 1, by omega⟩ })

@[simp] theorem length_frames (s : CallStack) : s.frames.length = s.size := by
  simp [frames, size]; omega

@[simp] theorem frames_empty : empty.frames = [] := by
  simp [frames, empty]

theorem size_le (s : CallStack) : s.size ≤ capacity :=
  Nat.le_of_lt_succ s.depth.isLt

theorem isEmpty_eq (s : CallStack) : s.isEmpty = s.frames.isEmpty := by
  rw [Bool.eq_iff_iff, List.isEmpty_iff_length_eq_zero, length_frames]
  simp [isEmpty, size]

theorem isFull_eq (s : CallStack) : s.isFull = (s.frames.length == capacity) := by
  rw [length_frames]
  rfl

theorem frames_eq_dropLast_concat (s : CallStack) (h : 0 < s.size) :
    s.frames = s.slots.toList.take (s.size - 1) ++ [s.top] := by
  have bound := s.size_le
  simp only [size, capacity] at h bound
  have split : s.depth.val = s.depth.val - 1 + 1 := by omega
  rw [frames, split, List.take_succ_eq_append_getElem (by simp; omega)]
  simp [top, size, h]

theorem frames_push_of_lt (s : CallStack) (w : Word) (h : s.size < capacity) :
    (s.push w).frames = s.frames ++ [w] := by
  simp only [size, capacity] at h
  rw [push, dif_pos h]
  simp only [frames]
  rw [List.take_succ_eq_append_getElem (by simp; omega)]
  simp [Vector.toList_set, List.take_set_of_le]

theorem push_of_full (s : CallStack) (w : Word) (h : s.size = capacity) : s.push w = s := by
  simp only [size, capacity] at h
  rw [push, dif_neg (by omega)]

/-- A push is dropped exactly when sixteen frames are live. -/
theorem frames_push (s : CallStack) (w : Word) :
    (s.push w).frames = if s.frames.length < capacity then s.frames ++ [w] else s.frames := by
  have := s.size_le
  split
  · next room => exact frames_push_of_lt s w (by simpa using room)
  · next full => rw [push_of_full s w (by simp at full; omega)]

theorem frames_push_eq_self (s : CallStack) (w : Word) :
    (s.push w).frames = s.frames ↔ s.frames.length = capacity := by
  have := s.size_le
  rw [frames_push]
  split <;> simp at * <;> omega

theorem top_eq (s : CallStack) : s.top = s.frames.getLast?.getD 0 := by
  by_cases h : 0 < s.size
  · rw [frames_eq_dropLast_concat s h]; simp
  · have bare : s.frames = [] := List.eq_nil_of_length_eq_zero (by simp; omega)
    simp only [size] at h
    rw [bare, top, dif_neg h]
    rfl

theorem pop_fst (s : CallStack) : s.pop.1 = s.frames.getLast?.getD 0 :=
  s.top_eq

theorem frames_pop (s : CallStack) : s.pop.2.frames = s.frames.dropLast := by
  by_cases h : 0 < s.size
  · rw [frames_eq_dropLast_concat s h]
    simp [pop, frames, size]
  · have bare : s.frames = [] := List.eq_nil_of_length_eq_zero (by simp; omega)
    simp only [size] at h
    rw [bare]
    simp [pop, frames, show s.depth.val = 0 by omega]

end CallStack

end Chip8
