import Mathlib.Data.ENat.Lattice
import Chip8.Proofs.History

/-!
# Runs of a given length

A run of a given length makes as many steps as it may, or as it takes to put a fault on record; what
is left of its length does nothing. So runs one after the other are one run, wherever it is cut. Main
statement: `steps_compose`.
-/

namespace Chip8

namespace Machine

open Classical in
/-- The number of steps after which a fault is first on record; no bound if there never is one. -/
noncomputable def stepsToFault (m : Machine) : ℕ∞ :=
  if faults : ∃ k, (step^[k] m).fault.isSome then (Nat.find faults : ℕ) else ⊤

variable {m : Machine}

theorem stepsToFault_eq_natCast {k : ℕ} :
    m.stepsToFault = k ↔ (step^[k] m).fault.isSome ∧ ∀ i < k, (step^[i] m).fault = none := by
  unfold stepsToFault
  by_cases faults : ∃ k, (step^[k] m).fault.isSome
  · simp [faults, Nat.find_eq_iff]
  · rw [dif_neg faults]
    simp only [ENat.top_ne_natCast, false_iff, not_and]
    exact fun recorded => absurd ⟨k, recorded⟩ faults

theorem stepsToFault_eq_top : m.stepsToFault = ⊤ ↔ ∀ i, (step^[i] m).fault = none := by
  unfold stepsToFault
  split
  · next faults =>
    simp only [ENat.natCast_ne_top, false_iff, not_forall, ← Option.ne_none_iff_isSome] at faults ⊢
    exact faults
  · next sound => simpa using sound

/-! ## Steps that find no fault -/

def iterateActions (n : ℕ) (m : Machine) : List Action :=
  (List.range n).flatMap fun i => (step^[i] m).stepActions

theorem iterateActions_succ (n : ℕ) :
    iterateActions (n + 1) m = m.stepActions ++ iterateActions n m.step := by
  simp [iterateActions, List.range_succ_eq_map, List.flatMap_map]

theorem steps_of_sound {n : ℕ} (sound : ∀ i < n, (step^[i] m).fault = none) :
    steps n m = step^[n] m ∧ stepsActions n m = iterateActions n m := by
  induction n generalizing m with
  | zero => exact ⟨rfl, rfl⟩
  | succ n ih =>
    have first : m.fault = none := sound 0 (by omega)
    obtain ⟨left, made⟩ := ih (m := m.step) fun i below => sound (i + 1) (by omega)
    simp [steps, stepsActions, first, left, made, iterateActions_succ]

/-! ## Steps past a fault -/

theorem stepsActions_of_fault (faulty : m.fault.isSome) (n : ℕ) : stepsActions n m = [] := by
  cases n <;> simp [stepsActions, faulty]

theorem stepsActions_add (a b : ℕ) :
    stepsActions (a + b) m = stepsActions a m ++ stepsActions b (steps a m) := by
  induction a generalizing m with
  | zero => simp [stepsActions, steps]
  | succ a ih =>
    rw [Nat.add_right_comm, stepsActions, stepsActions, steps]
    split
    · next stopped => simp [stepsActions_of_fault stopped]
    · rw [ih, List.append_assoc]

/-- A run ends with the step that puts a fault on record. -/
theorem steps_of_stepsToFault_le {k n : ℕ} (first : m.stepsToFault = k) (past : k ≤ n) :
    steps n m = step^[k] m ∧ stepsActions n m = iterateActions k m := by
  obtain ⟨recorded, sound⟩ := stepsToFault_eq_natCast.1 first
  obtain ⟨left, made⟩ := steps_of_sound sound
  obtain ⟨more, rfl⟩ := Nat.exists_eq_add_of_le past
  rw [steps_add, stepsActions_add, left, made]
  exact ⟨steps_of_fault recorded more, by simp [stepsActions_of_fault recorded]⟩

theorem steps_eq_iterate (n : ℕ) :
    steps n m = step^[(min (n : ℕ∞) m.stepsToFault).toNat] m ∧
      stepsActions n m = iterateActions (min (n : ℕ∞) m.stepsToFault).toNat m := by
  cases bound : m.stepsToFault with
  | top =>
    rw [stepsToFault_eq_top] at bound
    simpa using steps_of_sound fun i _ => bound i
  | coe k =>
    rcases Nat.le_total k n with past | short
    · rw [min_eq_right (by exact_mod_cast past), ENat.toNat_natCast]
      exact steps_of_stepsToFault_le bound past
    · rw [min_eq_left (by exact_mod_cast short), ENat.toNat_natCast]
      have sound := (stepsToFault_eq_natCast.1 bound).2
      exact steps_of_sound fun i below => sound i (by omega)

/-- **Runs of a given length compose.** Two of them one after the other are one of the length of both,
with the actions of both. Each makes so many steps as it may, or as it takes to put a fault on record,
and does nothing besides; a greater length changes nothing once a fault is on record. -/
theorem steps_compose (m : Machine) :
    (∀ a b, steps b (steps a m) = steps (a + b) m ∧
      m.actions (.steps (a + b)) = m.actions (.steps a) ++ (steps a m).actions (.steps b)) ∧
    (∀ k : ℕ, m.stepsToFault = k ↔
      (step^[k] m).fault.isSome ∧ ∀ i < k, (step^[i] m).fault = none) ∧
    (m.stepsToFault = ⊤ ↔ ∀ i, (step^[i] m).fault = none) ∧
    (∀ n : ℕ,
      let made := (min (n : ℕ∞) m.stepsToFault).toNat
      steps n m = step^[made] m ∧
        m.actions (.steps n) = (List.range made).flatMap fun i => (step^[i] m).stepActions) ∧
    ∀ n more : ℕ, m.stepsToFault ≤ n →
      steps (n + more) m = steps n m ∧ m.actions (.steps (n + more)) = m.actions (.steps n) := by
  refine ⟨?_, fun k => stepsToFault_eq_natCast, stepsToFault_eq_top, steps_eq_iterate, ?_⟩
  · intro a b
    exact ⟨(steps_add a b m).symm, stepsActions_add a b⟩
  · intro n more reached
    have further : m.stepsToFault ≤ (n + more : ℕ) :=
      reached.trans (by exact_mod_cast Nat.le_add_right n more)
    obtain ⟨left, made⟩ := steps_eq_iterate (m := m) n
    obtain ⟨left', made'⟩ := steps_eq_iterate (m := m) (n + more)
    rw [min_eq_right reached] at left made
    rw [min_eq_right further] at left' made'
    exact ⟨left'.trans left.symm, made'.trans made.symm⟩

def soonFaulty : Machine :=
  ((start {} 0).loadWords [0x6001, 0xFFFF, 0x6002]).attach { pending := [{}, {}, {}] }

theorem steps_compose_soonFaulty :
    soonFaulty.stepsToFault = (2 : ℕ) ∧ steps 10 soonFaulty = step^[2] soonFaulty ∧
      steps 8 (steps 2 soonFaulty) = steps 2 soonFaulty ∧
      soonFaulty.actions (.steps 10) = soonFaulty.actions (.steps 2) := by
  obtain ⟨compose, first, -, made, stays⟩ := steps_compose soonFaulty
  have bound : soonFaulty.stepsToFault = (2 : ℕ) := (first 2).2 (by decide +kernel)
  have ten := (made 10).1
  rw [bound, min_eq_right (by decide), ENat.toNat_natCast] at ten
  obtain ⟨same, quiet⟩ := stays 2 8 bound.le
  exact ⟨bound, ten, (compose 2 8).1.trans same, quiet⟩

end Machine

end Chip8
