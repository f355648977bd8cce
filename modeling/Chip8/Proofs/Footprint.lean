import Chip8.Proofs.History

/-!
# What an instruction may change

The digits of a word bound what it can do to each part of a processor; few words write to memory,
and those to few bytes. So a run that executes none of them leaves all of memory as it was. Main
statement: `footprint_of_word`.
-/

namespace Chip8

/-! ## Words by what they change -/

namespace Word

def IsSingle (w : Word) (byte : Byte) : Prop :=
  (w.nibble 3).val = 0xF ∧ w.low = byte

instance (w : Word) (byte : Byte) : Decidable (w.IsSingle byte) :=
  inferInstanceAs (Decidable ((w.nibble 3).val = 0xF ∧ w.low = byte))

/-- The words `Fx33` and `Fx55`. -/
def Stores (w : Word) : Prop :=
  w.IsSingle 0x33 ∨ w.IsSingle 0x55

instance : DecidablePred Stores := fun w =>
  inferInstanceAs (Decidable (w.IsSingle 0x33 ∨ w.IsSingle 0x55))

def Reaches (w : Word) (index c : Address) : Prop :=
  (w.IsSingle 0x33 ∧ ∃ k < 3, c = index.advance k) ∨
    (w.IsSingle 0x55 ∧ ∃ k ≤ w.x.index.val, c = index.advance k)

/-- The words `2nnn` and `00EE`. -/
def Nests (w : Word) : Prop :=
  (w.nibble 3).val = 0x2 ∨ w = 0x00EE

/-- The words `00E0` and `Dxyn`. -/
def Paints (w : Word) : Prop :=
  w = 0x00E0 ∨ (w.nibble 3).val = 0xD

/-- The words `Annn`, `Fx1E`, `Fx29`, `Fx55` and `Fx65`. -/
def MovesIndex (w : Word) : Prop :=
  (w.nibble 3).val = 0xA ∨ w.IsSingle 0x1E ∨ w.IsSingle 0x29 ∨ w.IsSingle 0x55 ∨ w.IsSingle 0x65

/-- The words `8xy1` to `8xyE` and `Dxyn`. -/
def Flags (w : Word) : Prop :=
  ((w.nibble 3).val = 0x8 ∧ 0x1 ≤ (w.nibble 0).val ∧ (w.nibble 0).val ≤ 0xE) ∨
    (w.nibble 3).val = 0xD

/-- The `x` of a word `6xkk`, `7xkk`, `8xy_`, `Cxkk` or `Fx07`, and all up to the `x` of `Fx65`. -/
def Targets (w : Word) (r : Register) : Prop :=
  (((w.nibble 3).val ∈ [0x6, 0x7, 0x8, 0xC] ∨ w.IsSingle 0x07) ∧ r = w.x) ∨
    (w.IsSingle 0x65 ∧ r.index ≤ w.x.index)

/-- Registers hold what they held, but for targets and, where the word flags, the flag. -/
def Spares (w : Word) (v v' : Registers) : Prop :=
  ∀ r, ¬ w.Targets r → (r = .flag → ¬ w.Flags) → v'.get r = v.get r

theorem isSingle_ofByte (x : Register) (byte : Byte) : (ofByte 0xF x byte).IsSingle byte := by
  unfold IsSingle
  simp [fields_ofByte]

theorem targets_ofByte {group : Nat} (writes : group = 0x6 ∨ group = 0x7 ∨ group = 0xC)
    (x : Register) (byte : Byte) : (ofByte group x byte).Targets x := by
  have small : group < 16 := by omega
  obtain ⟨digit, register, -⟩ := fields_ofByte small x byte
  refine Or.inl ⟨Or.inl ?_, register.symm⟩
  rw [digit]
  simp
  omega

theorem targets_combine (how : Combination) (x y : Register) :
    (ofPair 0x8 x y how.code).Targets x := by
  obtain ⟨digit, register, -⟩ := fields_ofPair (show 0x8 < 16 by decide) how.code_lt x y
  refine Or.inl ⟨Or.inl ?_, register.symm⟩
  rw [digit]
  decide

theorem flags_combine {how : Combination} (flagged : how ≠ .copy) (x y : Register) :
    (ofPair 0x8 x y how.code).Flags := by
  obtain ⟨digit, -, -, last⟩ := fields_ofPair (show 0x8 < 16 by decide) how.code_lt x y
  refine Or.inl ⟨digit, ?_⟩
  rw [last]
  cases how <;> simp [Combination.code] at flagged ⊢

namespace Spares

variable {w : Word} {v v' : Registers}

theorem refl (w : Word) (v : Registers) : w.Spares v v :=
  fun _ _ _ => rfl

theorem set (kept : w.Spares v v') {x : Register} (target : w.Targets x) (b : Byte) :
    w.Spares v (v'.set x b) := by
  intro r spared unflagged
  have apart : x ≠ r := by
    rintro rfl
    exact spared target
  rw [Registers.get_set_of_ne _ _ apart]
  exact kept r spared unflagged

theorem setFlag (kept : w.Spares v v') (flags : w.Flags) (raised : Bool) :
    w.Spares v (v'.setFlag raised) := by
  intro r spared unflagged
  have apart : .flag ≠ r := by
    rintro rfl
    exact unflagged rfl flags
  rw [Registers.setFlag, Registers.get_set_of_ne _ _ apart]
  exact kept r spared unflagged

end Spares

end Word

/-! ## Instructions by what they change -/

namespace Processor

inductive Change (w : Word) (p : Processor) : Processor → Prop where
  | flow (pc : Address) : Change w p { p with pc := pc }
  | nest (nests : w.Nests) (stack : CallStack) (pc : Address) :
      Change w p { p with stack := stack, pc := pc }
  | paint (paints : w.Paints) {v : Registers} (kept : w.Spares p.v v) (screen : Screen) :
      Change w p { p with v := v, screen := screen, redraw := true }
  | registers {v : Registers} (kept : w.Spares p.v v) : Change w p { p with v := v }
  | random (draws : (w.nibble 3).val = 0xC) {v : Registers} (kept : w.Spares p.v v)
      (source : Random.Source) (last : Byte) :
      Change w p { p with v := v, random := source, lastRandom := last }
  | index (moves : w.MovesIndex) (index : Address) : Change w p { p with index := index }
  | delay (sets : w.IsSingle 0x15) (b : Byte) : Change w p { p with timers.delay := b }
  | sound (sets : w.IsSingle 0x18) (b : Byte) : Change w p { p with timers.sound := b }
  | store {data : List Byte} (within : ∀ k < data.length, w.Reaches p.index (p.index.advance k))
      {index : Address} (moves : index ≠ p.index → w.MovesIndex) :
      Change w p { p with memory := p.memory.writeAll p.index data, index := index }
  | load (moves : w.MovesIndex) {v : Registers} (kept : w.Spares p.v v) (index : Address) :
      Change w p { p with v := v, index := index }

theorem spares_combine (v : Registers) (how : Combination) (x y : Register) :
    (Word.ofPair 0x8 x y how.code).Spares v (v.combine how x y) := by
  have target := Word.targets_combine how x y
  unfold Registers.combine
  rcases outcome : how.apply (v.get x) (v.get y) with ⟨result, _ | raised⟩
  · exact (Word.Spares.refl _ v).set target result
  · have flagged : how ≠ .copy := by
      rintro rfl
      cases outcome
    exact ((Word.Spares.refl _ v).set target result).setFlag (Word.flags_combine flagged x y) raised

theorem spares_loadUpTo (v : Registers) (x : Register) (m : Memory) (a : Address) :
    (Word.ofByte 0xF x 0x65).Spares v (v.loadUpTo x m a) := by
  intro r spared _
  rw [Registers.get_loadUpTo, if_neg]
  intro within
  have register := (Word.fields_ofByte (show 0xF < 16 by decide) x 0x65).2.1
  refine spared (Or.inr ⟨Word.isSingle_ofByte x 0x65, ?_⟩)
  rwa [register]

theorem change_execute (p : Processor) (i : Instruction) :
    Change i.encode p (p.execute i).processor := by
  have kept := Word.Spares.refl i.encode p.v
  cases i with
  | system | awaitKey => exact .flow p.pc
  | jump | jumpPast => exact .flow _
  | skipIfByte | skipUnlessByte | skipIfSame | skipUnlessSame | skipIfKey | skipUnlessKey =>
    simp only [execute, skipIf_eq]
    exact .flow _
  | call target => exact .nest (Or.inl (Word.fields_ofAddress (by decide) target).1) _ _
  | ret => exact .nest (Or.inr rfl) _ _
  | clearScreen => exact .paint (Or.inl rfl) kept .blank
  | draw x y height =>
    have digit := (Word.fields_ofPair (show 0xD < 16 by decide) height.isLt x y).1
    exact .paint (Or.inr digit) (kept.setFlag (Or.inr digit) _) _
  | load x byte => exact .registers (kept.set (Word.targets_ofByte (by decide) x byte) _)
  | addByte x byte => exact .registers (kept.set (Word.targets_ofByte (by decide) x byte) _)
  | combine how x y => exact .registers (spares_combine p.v how x y)
  | readDelay x =>
    have fields := Word.fields_ofByte (show 0xF < 16 by decide) x 0x07
    exact .registers (kept.set (Or.inl ⟨Or.inr (Word.isSingle_ofByte x 0x07), fields.2.1.symm⟩) _)
  | random x mask =>
    have digit := (Word.fields_ofByte (show 0xC < 16 by decide) x mask).1
    exact .random digit (kept.set (Word.targets_ofByte (by decide) x mask) _) _ _
  | loadIndex target => exact .index (Or.inl (Word.fields_ofAddress (by decide) target).1) _
  | addIndex x => exact .index (Or.inr (Or.inl (Word.isSingle_ofByte x 0x1E))) _
  | loadGlyph x => exact .index (Or.inr (Or.inr (Or.inl (Word.isSingle_ofByte x 0x29)))) _
  | setDelay x => exact .delay (Word.isSingle_ofByte x 0x15) _
  | setSound x => exact .sound (Word.isSingle_ofByte x 0x18) _
  | storeDecimal x =>
    refine .store ?_ fun moved => absurd rfl moved
    intro k bound
    exact Or.inl ⟨Word.isSingle_ofByte x 0x33, k, bound, rfl⟩
  | storeUpTo x =>
    have single := Word.isSingle_ofByte x 0x55
    have register := (Word.fields_ofByte (show 0xF < 16 by decide) x 0x55).2.1
    simp only [execute, passTransfer_eq]
    refine .store ?_ fun _ => Or.inr (Or.inr (Or.inr (Or.inl single)))
    intro k bound
    refine Or.inr ⟨single, k, ?_, rfl⟩
    rw [Instruction.encode, register]
    simp [Register.upTo] at bound
    omega
  | loadUpTo x =>
    have moves : (Word.ofByte 0xF x 0x65).MovesIndex :=
      Or.inr (Or.inr (Or.inr (Or.inr (Word.isSingle_ofByte x 0x65))))
    simp only [execute, passTransfer_eq]
    exact .load moves (spares_loadUpTo p.v x p.memory p.index) _

theorem change_of_handle {p : Processor} {w : Word} {e : Effect} (handled : p.handle? w = some e) :
    Change w p e.processor := by
  obtain ⟨i, next, rfl⟩ := exists_of_handle? handled
  rw [← Instruction.encode_of_decode? next]
  exact change_execute p i

namespace Change

variable {w : Word} {p q : Processor}

theorem read_memory (change : Change w p q) {c : Address} (out : ¬ w.Reaches p.index c) :
    q.memory.read c = p.memory.read c := by
  cases change with
  | store within =>
    apply Memory.read_writeAll_of_ne
    rintro k bound rfl
    exact out (within k bound)
  | _ => rfl

theorem memory_eq (change : Change w p q) (spares : ¬ w.Stores) : q.memory = p.memory := by
  apply Memory.ext
  intro c
  apply change.read_memory
  rintro (⟨single, -⟩ | ⟨single, -⟩)
  · exact spares (Or.inl single)
  · exact spares (Or.inr single)

theorem stack_eq (change : Change w p q) (level : ¬ w.Nests) : q.stack = p.stack := by
  cases change with
  | nest nests => exact absurd nests level
  | _ => rfl

theorem screen_eq (change : Change w p q) (unpainted : ¬ w.Paints) :
    q.screen = p.screen ∧ q.redraw = p.redraw := by
  cases change with
  | paint paints => exact absurd paints unpainted
  | _ => exact ⟨rfl, rfl⟩

theorem index_eq (change : Change w p q) (stays : ¬ w.MovesIndex) : q.index = p.index := by
  cases change with
  | index moves | load moves => exact absurd moves stays
  | store _ moves => exact not_imp_comm.1 moves stays
  | _ => rfl

theorem delay_eq (change : Change w p q) (kept : ¬ w.IsSingle 0x15) :
    q.timers.delay = p.timers.delay := by
  cases change with
  | delay sets => exact absurd sets kept
  | _ => rfl

theorem sound_eq (change : Change w p q) (kept : ¬ w.IsSingle 0x18) :
    q.timers.sound = p.timers.sound := by
  cases change with
  | sound sets => exact absurd sets kept
  | _ => rfl

theorem since_eq (change : Change w p q) : q.timers.since = p.timers.since := by
  cases change <;> rfl

theorem random_eq (change : Change w p q) (undrawn : (w.nibble 3).val ≠ 0xC) :
    q.random = p.random ∧ q.lastRandom = p.lastRandom := by
  cases change with
  | random draws => exact absurd draws undrawn
  | _ => exact ⟨rfl, rfl⟩

theorem keypad_eq (change : Change w p q) : q.keypad = p.keypad := by
  cases change <;> rfl

theorem advancesIndex_eq (change : Change w p q) : q.advancesIndex = p.advancesIndex := by
  cases change <;> rfl

theorem spares (change : Change w p q) : w.Spares p.v q.v := by
  cases change with
  | paint _ kept | registers kept | random _ kept | load _ kept => exact kept
  | _ => exact .refl w p.v

end Change

end Processor

/-! ## Decimal digits -/

/-- Three decimal digits of a number up to 255 lie from an address on, the highest one first. -/
def Memory.HoldsDigits (m : Memory) (a : Address) (n : Nat) : Prop :=
  ∃ c₀ c₁ c₂ : Byte, m.readAll a 3 = [c₀, c₁, c₂] ∧ c₀.toNat ≤ 2 ∧ c₁.toNat ≤ 9 ∧ c₂.toNat ≤ 9 ∧
    100 * c₀.toNat + 10 * c₁.toNat + c₂.toNat = n

theorem Memory.holdsDigits_writeAll (m : Memory) (a : Address) (b : Byte) :
    (m.writeAll a b.decimalDigits).HoldsDigits a b.toNat := by
  have := b.toNat_lt
  have fits : b.decimalDigits.length ≤ size := by
    unfold Byte.decimalDigits size
    simp
  refine ⟨_, _, _, m.readAll_writeAll a fits, ?_⟩
  simp
  omega

namespace Processor

theorem holdsDigits_of_handle {p : Processor} {w : Word} {e : Effect}
    (handled : p.handle? w = some e) (single : w.IsSingle 0x33) :
    e.processor.memory.HoldsDigits p.index (p.v.get w.x).toNat := by
  have decodes : Instruction.decode? w = some (.storeDecimal w.x) := by
    unfold Instruction.decode?
    rw [single.1, single.2]
    rfl
  unfold handle? at handled
  rw [decodes] at handled
  cases handled
  exact p.memory.holdsDigits_writeAll p.index (p.v.get w.x)

/-! ## Footprints -/

structure Footprint (w : Word) (p q : Processor) : Prop where
  memory : ∀ c, ¬ w.Reaches p.index c → q.memory.read c = p.memory.read c
  digits : w.IsSingle 0x33 → q.memory.HoldsDigits p.index (p.v.get w.x).toNat
  stack : ¬ w.Nests → q.stack = p.stack
  screen : ¬ w.Paints → q.screen = p.screen ∧ q.redraw = p.redraw
  index : ¬ w.MovesIndex → q.index = p.index
  delay : ¬ w.IsSingle 0x15 → q.timers.delay = p.timers.delay
  sound : ¬ w.IsSingle 0x18 → q.timers.sound = p.timers.sound
  random : (w.nibble 3).val ≠ 0xC → q.random = p.random ∧ q.lastRandom = p.lastRandom
  keypad : q.keypad = p.keypad
  advancesIndex : q.advancesIndex = p.advancesIndex
  registers : w.Spares p.v q.v

theorem footprint_of_handle {p : Processor} {w : Word} {e : Effect}
    (handled : p.handle? w = some e) : Footprint w p e.processor := by
  have change := change_of_handle handled
  exact {
    memory := fun _ => change.read_memory
    digits := holdsDigits_of_handle handled
    stack := change.stack_eq
    screen := change.screen_eq
    index := change.index_eq
    delay := change.delay_eq
    sound := change.sound_eq
    random := change.random_eq
    keypad := change.keypad_eq
    advancesIndex := change.advancesIndex_eq
    registers := change.spares }

end Processor

/-! ## Runs -/

namespace Machine

theorem change_issue (m : Machine) :
    Processor.Change m.nextWord m.fetched.toProcessor m.issue.toProcessor := by
  cases handled : m.fetched.toProcessor.handle? m.nextWord with
  | none =>
    rw [issue_of_undecoded (Option.map_eq_none_iff.1 handled)]
    exact .flow m.fetched.pc
  | some e =>
    rw [issue_of_handle handled]
    exact Processor.change_of_handle handled

theorem memory_step {m : Machine} (spares : ¬ m.nextWord.Stores) :
    m.step.memory = m.memory := by
  obtain ⟨v, core⟩ := m.step_eq_withCore
  rw [core]
  exact m.change_issue.memory_eq spares

theorem memory_iterate_step {m : Machine} {n : Nat}
    (spares : ∀ k < n, ¬ (step^[k] m).nextWord.Stores) : (step^[n] m).memory = m.memory := by
  induction n with
  | zero => rfl
  | succ n ih =>
    rw [Function.iterate_succ_apply', memory_step (spares n (by omega))]
    exact ih fun k bound => spares k (by omega)

end Machine

/-- **What a word may change.** Carried out on any processor, a word changes no more of it than its
digits allow; and as long as none of the words that a machine comes to stores, its memory stays as
it was. -/
theorem footprint_of_word :
    (∀ (p : Processor) (w : Word) (e : Effect), p.handle? w = some e →
      Processor.Footprint w p e.processor) ∧
    ∀ (m : Machine) (n : Nat),
      (∀ k < n, ¬ (Machine.step^[k] m).nextWord.Stores) →
        (Machine.step^[n] m).memory = m.memory := by
  constructor
  · intro p w e handled
    exact Processor.footprint_of_handle handled
  · intro m n spares
    exact Machine.memory_iterate_step spares

def Processor.counted : Processor :=
  { Processor.start 0 false 0 with index := .ofNat 0xFFE }.setRegister .first 254

theorem footprint_of_word_round_end :
    (∃ (e : Effect) (c₀ c₁ c₂ : Byte), Processor.counted.handle? 0xF033 = some e ∧
      e.processor.memory.readAll Processor.counted.index 3 = [c₀, c₁, c₂] ∧
      c₀.toNat = 2 ∧ c₁.toNat = 5 ∧ c₂.toNat = 4 ∧ e.processor.memory.read Font.base = 0xF0) ∧
    let looping := (Machine.start {} 0).loadWords [0x1200]
    (Machine.step^[2] looping).memory = looping.memory := by
  constructor
  · have handled := Processor.counted.handle?_encode (i := .storeDecimal .first) trivial
    have footprint := footprint_of_word.1 _ 0xF033 _ handled
    have value : (Processor.counted.v.get (Word.x 0xF033)).toNat = 254 := by decide
    obtain ⟨c₀, c₁, c₂, digits, high, middle, low, sum⟩ := footprint.digits (by decide)
    rw [value] at sum
    refine ⟨_, c₀, c₁, c₂, handled, digits, by omega, by omega, by omega, ?_⟩
    rw [footprint.memory]
    · decide +kernel
    · rintro (⟨-, k, bound, same⟩ | ⟨single, -⟩)
      · have place : Processor.counted.index.val = 0xFFE := rfl
        have round := congrArg Fin.val same
        rw [Address.val_advance, place, show Font.base.val = 0x050 from rfl] at round
        omega
      · exact absurd single (by decide)
  · exact footprint_of_word.2 _ 2 (by decide +kernel)

end Chip8
