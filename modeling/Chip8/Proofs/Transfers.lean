import Chip8.Proofs.History

/-!
# Storing and loading registers

The registers up to a given one lie in memory one byte behind the other, from the index on and round
the end, whether they are stored there or loaded. So a load brings back what a store has put down, as
long as nobody touches those bytes, and it does not matter whether the index moves. Main statement:
`load_of_store`.
-/

namespace Chip8

/-! ## Registers in memory -/

theorem Register.length_upTo (x : Register) : x.upTo.length = x.index.val + 1 := by
  simp [upTo]

theorem Memory.read_stored (m : Memory) (v : Registers) (a : Address) {x r : Register}
    (within : r.index ≤ x.index) :
    (m.writeAll a (x.upTo.map v.get)).read (a.advance r.index.val) = v.get r := by
  have fits : (x.upTo.map v.get).length ≤ size := by
    rw [List.length_map, x.length_upTo]
    unfold size
    omega
  have inside : r.index.val < (x.upTo.map v.get).length := by
    rw [List.length_map, x.length_upTo]
    exact Nat.lt_succ_of_le within
  rw [read_writeAll m a fits inside]
  simp [Register.upTo]

/-! ## Instructions -/

namespace Processor

def past (p : Processor) (x : Register) : Address :=
  if p.advancesIndex then .ofNat (p.index.val + x.index.val + 1) else p.index

def stored (p : Processor) (x : Register) : Processor :=
  { p with memory := p.memory.writeAll p.index (x.upTo.map p.v.get), index := p.past x }

def loaded (p : Processor) (x : Register) : Processor :=
  { p with v := p.v.loadUpTo x p.memory p.index, index := p.past x }

theorem handle?_storeUpTo (p : Processor) (x : Register) :
    p.handle? (.ofByte 0xF x 0x55) = some { processor := p.stored x } := by
  have handled := p.handle?_encode (i := .storeUpTo x) trivial
  simp only [execute, passTransfer_eq] at handled
  exact handled

theorem handle?_loadUpTo (p : Processor) (x : Register) :
    p.handle? (.ofByte 0xF x 0x65) = some { processor := p.loaded x } := by
  have handled := p.handle?_encode (i := .loadUpTo x) trivial
  simp only [execute, passTransfer_eq] at handled
  exact handled

variable {p later : Processor} {x : Register}

theorem read_stored_of_out {c : Address} (out : ∀ k ≤ x.index.val, c ≠ p.index.advance k) :
    (p.stored x).memory.read c = p.memory.read c := by
  apply Memory.read_writeAll_of_ne
  intro k bound
  rw [List.length_map, x.length_upTo] at bound
  exact out k (Nat.le_of_lt_succ bound)

/-- The processor that loads need only have the index and the bytes. -/
theorem get_loaded_of_stored (index : later.index = p.index)
    (kept : ∀ k ≤ x.index.val,
      later.memory.read (p.index.advance k) = (p.stored x).memory.read (p.index.advance k))
    (r : Register) :
    (later.loaded x).v.get r = if r.index ≤ x.index then p.v.get r else later.v.get r := by
  rw [loaded, Registers.get_loadUpTo, index]
  split
  · next within => exact (kept r.index.val within).trans (p.memory.read_stored p.v p.index within)
  · rfl

end Processor

/-! ## Steps -/

namespace Machine

variable {m : Machine} {x : Register}

theorem step_of_storeUpTo (next : m.nextWord = .ofByte 0xF x 0x55) :
    m.step = { m.fetched with toProcessor := m.fetched.stored x }.service := by
  have handled := m.fetched.handle?_storeUpTo x
  rw [← next] at handled
  exact step_of_handle handled rfl

theorem step_of_loadUpTo (next : m.nextWord = .ofByte 0xF x 0x65) :
    m.step = { m.fetched with toProcessor := m.fetched.loaded x }.service := by
  have handled := m.fetched.handle?_loadUpTo x
  rw [← next] at handled
  exact step_of_handle handled rfl

end Machine

/-- **A load undoes a store.** The word `Fx55` changes no register and no byte but those of the
registers it stores, which lie from the index on and round the end. From whatever processor has the
same index and these bytes, the word `Fx65` brings back the registers up to `x` and changes no other
and no byte. Either word leaves the index behind the last byte or where it was, as the processor that
carries it out has it; and nothing else changes. So it is for the steps of machines. -/
theorem load_of_store (x : Register) :
    (∀ p : Processor, ∃ memory : Memory,
      p.handle? (.ofByte 0xF x 0x55) =
        some { processor := { p with memory := memory, index := p.past x } } ∧
      (∀ c : Address, (∀ k ≤ x.index.val, c ≠ .ofNat (p.index.val + k)) →
        memory.read c = p.memory.read c) ∧
      ∀ later : Processor, later.index = p.index →
        (∀ k ≤ x.index.val,
          later.memory.read (.ofNat (p.index.val + k)) = memory.read (.ofNat (p.index.val + k))) →
        ∃ v : Registers,
          later.handle? (.ofByte 0xF x 0x65) =
            some { processor := { later with v := v, index := later.past x } } ∧
          ∀ r : Register,
            v.get r = if r.index ≤ x.index then p.v.get r else later.v.get r) ∧
    ∀ m : Machine, m.nextWord = .ofByte 0xF x 0x55 →
      m.step.v = m.v ∧ m.step.index = m.past x ∧
      (∀ c : Address, (∀ k ≤ x.index.val, c ≠ .ofNat (m.index.val + k)) →
        m.step.memory.read c = m.memory.read c) ∧
      ∀ later : Machine, later.nextWord = .ofByte 0xF x 0x65 → later.index = m.index →
        (∀ k ≤ x.index.val, later.memory.read (.ofNat (m.index.val + k)) =
          m.step.memory.read (.ofNat (m.index.val + k))) →
        later.step.memory = later.memory ∧ later.step.index = later.past x ∧
        ∀ r : Register,
          later.step.v.get r = if r.index ≤ x.index then m.v.get r else later.v.get r := by
  constructor
  · intro p
    refine ⟨(p.stored x).memory, p.handle?_storeUpTo x, ?_, ?_⟩
    · intro c out
      exact Processor.read_stored_of_out out
    · intro later index kept
      exact ⟨_, later.handle?_loadUpTo x, Processor.get_loaded_of_stored index kept⟩
  · intro m next
    have stored := Machine.step_of_storeUpTo next
    rw [stored, Machine.v_service, Machine.index_service, Machine.memory_service]
    refine ⟨rfl, rfl, ?_, ?_⟩
    · intro c out
      exact Processor.read_stored_of_out out
    · intro later next' index kept
      have loaded := Machine.step_of_loadUpTo next'
      rw [loaded, Machine.memory_service, Machine.index_service, Machine.v_service]
      refine ⟨rfl, rfl, ?_⟩
      exact Processor.get_loaded_of_stored (show later.fetched.index = m.fetched.index from index) kept

def Machine.acrossEnd : Machine :=
  (((start {} 0).loadWords [0xF355, 0xF365]).setIndex (.ofNat 0xFFE)).setRegister (.ofNat 3) 9

theorem load_of_store_across_end :
    let x := Register.ofNat 3
    let m := Machine.acrossEnd
    let p := m.toProcessor
    let later := (m.step.setIndex (.ofNat 0xFFE)).setRegister x 0
    m.nextWord = .ofByte 0xF x 0x55 ∧ later.nextWord = .ofByte 0xF x 0x65 ∧
      (m.step.index = .ofNat 2 ∧ m.step.memory.read .start = 0xF3) ∧
      (later.step.index = .ofNat 2 ∧ later.step.v.get x = 9) ∧
      ∃ (memory : Memory) (v : Registers),
        p.handle? (.ofByte 0xF x 0x55) =
          some { processor := { p with memory := memory, index := .ofNat 2 } } ∧
        { p with v := .zero, memory := memory }.handle? (.ofByte 0xF x 0x65) =
          some { processor := { p with v := v, memory := memory, index := .ofNat 2 } } ∧
        memory.read .start = 0xF3 ∧ v.get x = 9 := by
  intro x m p later
  have next : m.nextWord = .ofByte 0xF x 0x55 := by decide +kernel
  have next' : later.nextWord = .ofByte 0xF x 0x65 := by decide +kernel
  have first : p.memory.read .start = 0xF3 := by decide +kernel
  have out : ∀ k ≤ 3, Address.start ≠ .ofNat (p.index.val + k) := by decide
  have past : p.past x = .ofNat 2 := by decide
  obtain ⟨processors, machines⟩ := load_of_store x
  obtain ⟨-, index, kept, loads⟩ := machines m next
  obtain ⟨-, index', got⟩ := loads later next' rfl fun _ _ => rfl
  obtain ⟨memory, stored, kept', loads'⟩ := processors p
  obtain ⟨v, loaded, got'⟩ := loads' { p with v := .zero, memory := memory } rfl fun _ _ => rfl
  have past_later : later.past x = .ofNat 2 := by decide +kernel
  have past_load : { p with v := .zero, memory := memory }.past x = .ofNat 2 := past
  rw [past] at stored
  rw [past_load] at loaded
  refine ⟨next, next', ⟨index.trans past, ?_⟩, ⟨index'.trans past_later, got x⟩, memory, v, stored,
    loaded, ?_, got' x⟩
  · rw [kept .start out]
    exact first
  · rw [kept' .start out, first]

end Chip8
