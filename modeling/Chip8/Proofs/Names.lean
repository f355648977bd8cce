import Chip8.Proofs.Numbers
import Chip8.Text.Line

/-!
# Names as typed

A register is named by a letter and one hexadecimal digit, a key by the digit alone or behind a
letter. What is no name is refused as it was typed. A name can also be read in steps: the letter is
taken off, what is left has to be one byte long, and it is read as a number is, which may have a sign.
No text is read differently that way. Main statement: `names_as_typed`.
-/

namespace Chip8

/-! ## One digit -/

namespace Text

theorem length_encode_eq_one_iff {cs : List Char} :
    (encode cs).length = 1 ↔ ∃ c, cs = [c] ∧ c.utf8Size = 1 := by
  rcases cs with _ | ⟨c, _ | ⟨d, rest⟩⟩
  · simp [encode]
  · simp [encode]
  · -- Two characters take two bytes at least.
    have := c.utf8Size_pos
    have := d.utf8Size_pos
    simp [encode_cons]
    omega

end Text

namespace Numeral

theorem utf8Size_of_isDigit {c : Char} {d : Nat} (digit : IsDigit 16 c d) : c.utf8Size = 1 := by
  have ascii : c.toNat < 128 := toNat_lt_of_digitValue? (digitValue?_eq_some_iff.2 digit)
  exact Char.utf8Size_eq_one_iff.2 (Nat.le_of_lt_succ ascii)

theorem hexDigit?_eq_some_iff {c : Char} {d : Fin 16} :
    hexDigit? c = some d ↔ IsDigit 16 c d := by
  unfold hexDigit?
  simp only [Option.map_eq_some_iff, digitValue?_eq_some_iff]
  constructor
  · rintro ⟨n, digit, rfl⟩
    rwa [val_lastDigit, Nat.mod_eq_of_lt digit.1]
  · intro digit
    exact ⟨d, digit, lastDigit_val d⟩

theorem spells_singleton {radix : Nat} {c : Char} {n : Nat} :
    Spells radix [c] n ↔ IsDigit radix c n := by
  rw [← List.nil_append [c], spells_append_digit]
  simp [Spells]

def ofOneByte? (cs : List Char) : Option Nat :=
  if (Text.encode cs).length = 1 then read? 16 0xFF cs else none

theorem ofOneByte?_eq_some_iff {cs : List Char} {n : Nat} :
    ofOneByte? cs = some n ↔ ∃ c, cs = [c] ∧ IsDigit 16 c n := by
  unfold ofOneByte?
  constructor
  · intro number
    split at number
    · next short =>
      obtain ⟨c, rfl, -⟩ := Text.length_encode_eq_one_iff.1 short
      obtain ⟨sign, signs, digits, some_digits, written, spelled, -⟩ :=
        (read?_eq_some_iff (by decide)).1 number
      refine ⟨c, rfl, ?_⟩
      rcases List.mem_pair.1 signs with rfl | rfl
      · rw [List.nil_append] at written
        rwa [← spells_singleton, written]
      · -- A sign leaves no room for a digit.
        exact absurd (List.cons.inj written).2.symm some_digits
    · cases number
  · rintro ⟨c, rfl, digit⟩
    rw [if_pos (Text.length_encode_eq_one_iff.2 ⟨c, rfl, utf8Size_of_isDigit digit⟩)]
    have small : n ≤ 0xFF := by
      have := digit.1
      omega
    exact (read?_eq_some_iff (by decide)).2
      ⟨[], by simp, [c], by simp, rfl, spells_singleton.2 digit, small⟩

end Numeral

/-! ## Names -/

/-- Whether a text is typed as a name: one of the marks that may stand in front, and one hexadecimal
digit in either case. -/
def IsName (marks : List String) (text : String) (d : Fin 16) : Prop :=
  ∃ mark ∈ marks, ∃ c, text = mark ++ String.singleton c ∧ Numeral.IsDigit 16 c d

theorem isName_iff {marks : List String} {text : String} {d : Fin 16} :
    IsName marks text d ↔
      ∃ mark ∈ marks, ∃ c, text.toList = mark.toList ++ [c] ∧ Numeral.IsDigit 16 c d := by
  simp [IsName, ← String.toList_inj]

/-- Whether a reader takes just the names with certain marks, each for what has its digit, and
refuses all other texts as they were typed. -/
structure ReadsNames {α : Type} (marks : List String) (digit : α → Fin 16)
    (refusal : String → UnknownName) (read : String → Except UnknownName α) : Prop where
  taken : ∀ text a, read text = .ok a ↔ IsName marks text (digit a)
  refused : ∀ text e, read text = .error e ↔ e = refusal text ∧ ∀ d, ¬ IsName marks text d

def orRefuse {α : Type} (refusal : UnknownName) : Option α → Except UnknownName α
  | some a => .ok a
  | none => .error refusal

section Readers

variable {α : Type} {marks : List String} {digit : α → Fin 16} {refusal : String → UnknownName}
  {read read' : String → Except UnknownName α}

theorem readsNames_of_parse {parse : String → Option α}
    (each : ∀ text, read text = orRefuse (refusal text) (parse text))
    (parsed : ∀ text a, parse text = some a ↔ IsName marks text (digit a))
    (onto : Function.Surjective digit) : ReadsNames marks digit refusal read := by
  constructor
  · intro text a
    rw [each, ← parsed]
    cases parse text <;> simp [orRefuse]
  · intro text e
    have none_iff : (∀ d, ¬ IsName marks text d) ↔ parse text = none := by
      rw [onto.forall, Option.eq_none_iff_forall_ne_some]
      simp only [← parsed, ne_eq]
    rw [each, none_iff]
    cases parse text <;> simp [orRefuse, eq_comm]

theorem ReadsNames.unique (reads : ReadsNames marks digit refusal read)
    (reads' : ReadsNames marks digit refusal read') : read = read' := by
  funext text
  cases told : read text with
  | error e => exact ((reads'.refused text e).2 ((reads.refused text e).1 told)).symm
  | ok a => exact ((reads'.taken text a).2 ((reads.taken text a).1 told)).symm

end Readers

/-! ## Reading in steps -/

def afterLetter? (capital small : Char) (cs : List Char) : Option (List Char) :=
  ([capital].isPrefixOf? cs).or ([small].isPrefixOf? cs)

theorem afterLetter?_eq_some_iff {capital small : Char} {cs rest : List Char} :
    afterLetter? capital small cs = some rest ↔ cs = capital :: rest ∨ cs = small :: rest := by
  unfold afterLetter?
  simp only [Option.or_eq_some_iff, List.isPrefixOf?_eq_some_iff_append_eq, List.singleton_append]
  constructor
  · rintro (rfl | ⟨-, rfl⟩) <;> simp
  · rintro (rfl | rfl)
    · exact .inl rfl
    · by_cases same : capital = small
      · exact .inl (by rw [same])
      · exact .inr ⟨by simp [List.isPrefixOf?, same], rfl⟩

namespace Register

def readInSteps (text : String) : Except UnknownName Register :=
  orRefuse (.register text)
    (((afterLetter? 'V' 'v' text.toList).bind Numeral.ofOneByte?).map ofNat)

theorem isName_iff_toList {text : String} {d : Fin 16} : IsName ["V", "v"] text d ↔
    ∃ c, (text.toList = ['V', c] ∨ text.toList = ['v', c]) ∧ Numeral.IsDigit 16 c d := by
  simp [isName_iff, or_and_right, exists_or]

theorem ofName?_eq_some_iff {cs : List Char} {r : Register} : ofName? cs = some r ↔
    ∃ c, (cs = ['V', c] ∨ cs = ['v', c]) ∧ Numeral.IsDigit 16 c r.index := by
  constructor
  · intro parsed
    unfold ofName? at parsed
    split at parsed
    · next v c =>
      split at parsed
      · next marked =>
        obtain ⟨d, digit, rfl⟩ := Option.map_eq_some_iff.1 parsed
        exact ⟨c, by simpa using marked, Numeral.hexDigit?_eq_some_iff.1 digit⟩
      · cases parsed
    · cases parsed
  · rintro ⟨c, rfl | rfl, digit⟩ <;> simp [ofName?, Numeral.hexDigit?_eq_some_iff.2 digit]

theorem readsNames_read : ReadsNames ["V", "v"] index .register read := by
  have each (text : String) : read text = orRefuse (.register text) (ofName? text.toList) := by
    unfold read
    cases ofName? text.toList <;> rfl
  refine readsNames_of_parse each (fun text r => ?_) fun d => ⟨⟨d⟩, rfl⟩
  rw [ofName?_eq_some_iff, isName_iff_toList]

theorem readsNames_readInSteps : ReadsNames ["V", "v"] index .register readInSteps := by
  refine readsNames_of_parse (fun _ => rfl) (fun text r => ?_) fun d => ⟨⟨d⟩, rfl⟩
  simp only [Option.map_eq_some_iff, Option.bind_eq_some_iff, afterLetter?_eq_some_iff,
    Numeral.ofOneByte?_eq_some_iff, isName_iff_toList]
  constructor
  · rintro ⟨n, ⟨_, marked, c, rfl, digit⟩, rfl⟩
    exact ⟨c, marked, by rwa [index_ofNat, Nat.mod_eq_of_lt digit.1]⟩
  · rintro ⟨c, marked, digit⟩
    exact ⟨r.index, ⟨[c], marked, c, rfl, digit⟩, ofNat_index r⟩

end Register

namespace Key

def readInSteps (text : String) : Except UnknownName Key :=
  orRefuse (.key text)
    ((Numeral.ofOneByte? ((afterLetter? 'K' 'k' text.toList).getD text.toList)).map ofNat)

theorem isName_iff_toList {text : String} {d : Fin 16} : IsName ["", "K", "k"] text d ↔
    ∃ c, (text.toList = [c] ∨ text.toList = ['K', c] ∨ text.toList = ['k', c]) ∧
      Numeral.IsDigit 16 c d := by
  simp [isName_iff, or_and_right, exists_or]

theorem ofName?_eq_some_iff {cs : List Char} {k : Key} : ofName? cs = some k ↔
    ∃ c, (cs = [c] ∨ cs = ['K', c] ∨ cs = ['k', c]) ∧ Numeral.IsDigit 16 c k.digit := by
  constructor
  · intro parsed
    unfold ofName? at parsed
    split at parsed
    · next c =>
      obtain ⟨d, digit, rfl⟩ := Option.map_eq_some_iff.1 parsed
      exact ⟨c, .inl rfl, Numeral.hexDigit?_eq_some_iff.1 digit⟩
    · next v c =>
      split at parsed
      · next marked =>
        obtain ⟨d, digit, rfl⟩ := Option.map_eq_some_iff.1 parsed
        exact ⟨c, by simpa using marked, Numeral.hexDigit?_eq_some_iff.1 digit⟩
      · cases parsed
    · cases parsed
  · rintro ⟨c, rfl | rfl | rfl, digit⟩ <;>
      simp [ofName?, Numeral.hexDigit?_eq_some_iff.2 digit]

theorem afterLetter?_digit {c : Char} {d : Nat} (digit : Numeral.IsDigit 16 c d) :
    afterLetter? 'K' 'k' [c] = none := by
  rw [Option.eq_none_iff_forall_ne_some]
  intro rest behind
  rcases afterLetter?_eq_some_iff.1 behind with same | same
  all_goals
    obtain ⟨rfl, -⟩ := List.cons.inj same
    exact Numeral.not_isDigit_of_digitValue? (by decide) rfl d digit

theorem ofOneByte?_afterLetter? {cs : List Char} {n : Nat} :
    Numeral.ofOneByte? ((afterLetter? 'K' 'k' cs).getD cs) = some n ↔
      ∃ c, (cs = [c] ∨ cs = ['K', c] ∨ cs = ['k', c]) ∧ Numeral.IsDigit 16 c n := by
  rw [Numeral.ofOneByte?_eq_some_iff]
  constructor
  · rintro ⟨c, alone, digit⟩
    refine ⟨c, ?_, digit⟩
    cases behind : afterLetter? 'K' 'k' cs with
    | none => exact .inl (by rwa [behind] at alone)
    | some rest =>
      obtain rfl : rest = [c] := by rwa [behind] at alone
      exact .inr (afterLetter?_eq_some_iff.1 behind)
  · rintro ⟨c, bare | marked, digit⟩
    · exact ⟨c, by rw [bare, afterLetter?_digit digit, Option.getD_none], digit⟩
    · exact ⟨c, by rw [afterLetter?_eq_some_iff.2 marked, Option.getD_some], digit⟩

theorem readsNames_read : ReadsNames ["", "K", "k"] digit .key read := by
  have each (text : String) : read text = orRefuse (.key text) (ofName? text.toList) := by
    unfold read
    cases ofName? text.toList <;> rfl
  refine readsNames_of_parse each (fun text k => ?_) fun d => ⟨⟨d⟩, rfl⟩
  rw [ofName?_eq_some_iff, isName_iff_toList]

theorem readsNames_readInSteps : ReadsNames ["", "K", "k"] digit .key readInSteps := by
  refine readsNames_of_parse (fun _ => rfl) (fun text k => ?_) fun d => ⟨⟨d⟩, rfl⟩
  simp only [Option.map_eq_some_iff, ofOneByte?_afterLetter?, isName_iff_toList]
  constructor
  · rintro ⟨n, ⟨c, written, digit⟩, rfl⟩
    exact ⟨c, written, by rwa [digit_ofNat, Nat.mod_eq_of_lt digit.1]⟩
  · rintro ⟨c, written, digit⟩
    exact ⟨k.digit, ⟨c, written, digit⟩, ofNat_digit k⟩

end Key

/-- **Names as typed.** A register is read from a `V` and one hexadecimal digit, a key from one such
digit with or without a `K` in front, and letters may be of either case. All other texts are refused
as they were typed. Reading in steps comes to the same. What a register or a key is called reads back
as itself. -/
theorem names_as_typed :
    ReadsNames ["V", "v"] Register.index .register Register.read ∧
    ReadsNames ["", "K", "k"] Key.digit .key Key.read ∧
    Register.readInSteps = Register.read ∧ Key.readInSteps = Key.read ∧
    (∀ r : Register, Register.read r.name = .ok r) ∧ ∀ k : Key, Key.read k.name = .ok k := by
  refine ⟨Register.readsNames_read, Key.readsNames_read, ?_, ?_, Register.read_name, Key.read_name⟩
  · exact Register.readsNames_readInSteps.unique Register.readsNames_read
  · exact Key.readsNames_readInSteps.unique Key.readsNames_read

example : Register.read "v+" = .error (.register "v+") ∧ Key.read "Kk1" = .error (.key "Kk1") := by
  decide

end Chip8
