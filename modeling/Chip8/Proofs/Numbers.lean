import Mathlib.Data.List.Forall2
import Mathlib.Data.List.Induction
import Mathlib.Data.Nat.Digits.Defs
import Chip8.Debugger.Command

/-!
# Typed numbers

Which texts are numbers, and which numbers they are, is a matter of their digits: a mark may stand in
front of hexadecimal ones, then a plus sign, and zeros do not count. What is no number is refused as
it was typed. Main statement: `numbers_as_typed`.
-/

namespace Chip8

namespace Numeral

/-! ## Digits -/

def IsDigit (radix : Nat) (c : Char) (d : Nat) : Prop :=
  d < radix ∧
    ("0123456789abcdef".toList[d]? = some c ∨ "0123456789ABCDEF".toList[d]? = some c)

instance (radix : Nat) (c : Char) (d : Nat) : Decidable (IsDigit radix c d) :=
  inferInstanceAs (Decidable (_ ∧ _))

/-- Whether characters are digits, the last one for the ones, and which number they spell. -/
def Spells (radix : Nat) (cs : List Char) (n : Nat) : Prop :=
  ∃ ds, List.Forall₂ (IsDigit radix) cs.reverse ds ∧ Nat.ofDigits radix ds = n

theorem toNat_lt_of_digitValue? {c : Char} {d : Nat} (h : digitValue? c = some d) :
    c.toNat < 128 := by
  unfold digitValue? at h
  have bound {e : Char} (le : c ≤ e) (small : e.toNat < 128) : c.toNat < 128 :=
    Nat.lt_of_le_of_lt le small
  split at h
  · next inside => exact bound inside.2 (by decide)
  split at h
  · next inside => exact bound inside.2 (by decide)
  split at h
  · next inside => exact bound inside.2 (by decide)
  · cases h

theorem digitValue?_eq_some_iff {c : Char} {d : Nat} :
    digitValue? c = some d ↔ IsDigit 16 c d := by
  constructor
  · intro h
    have table : ∀ k < 128, ∀ d ∈ digitValue? (Char.ofNat k), IsDigit 16 (Char.ofNat k) d := by
      decide
    have := table c.toNat (toNat_lt_of_digitValue? h) d
    rw [Char.ofNat_toNat] at this
    exact this h
  · rintro ⟨small, spelled⟩
    have table : ∀ d < 16, "0123456789abcdef".toList[d]?.bind digitValue? = some d ∧
        "0123456789ABCDEF".toList[d]?.bind digitValue? = some d := by
      decide
    have read := table d small
    rcases spelled with lower | upper
    · rw [lower] at read
      exact read.1
    · rw [upper] at read
      exact read.2

theorem digit?_eq_some_iff {radix : Nat} (hr : radix ≤ 16) {c : Char} {d : Nat} :
    digit? radix c = some d ↔ IsDigit radix c d := by
  unfold digit?
  rw [Option.filter_eq_some_iff, digitValue?_eq_some_iff]
  unfold IsDigit
  rw [decide_eq_true_eq]
  constructor
  · rintro ⟨⟨-, spelled⟩, small⟩
    exact ⟨small, spelled⟩
  · rintro ⟨small, spelled⟩
    exact ⟨⟨small.trans_le hr, spelled⟩, small⟩

theorem spells_append_digit {radix : Nat} {cs : List Char} {c : Char} {n : Nat} :
    Spells radix (cs ++ [c]) n ↔
      ∃ m, Spells radix cs m ∧ ∃ d, IsDigit radix c d ∧ radix * m + d = n := by
  unfold Spells
  rw [List.reverse_append]
  constructor
  · rintro ⟨ds, digits, rfl⟩
    obtain ⟨d, rest, first, later, rfl⟩ := List.forall₂_cons_left_iff.1 digits
    exact ⟨_, ⟨rest, later, rfl⟩, d, first, by rw [Nat.ofDigits_cons]; simp [Nat.add_comm]⟩
  · rintro ⟨m, ⟨ds, digits, rfl⟩, d, first, rfl⟩
    exact ⟨d :: ds, .cons first digits, by rw [Nat.ofDigits_cons]; simp [Nat.add_comm]⟩

theorem value?_eq_some_iff {radix : Nat} (hr : radix ≤ 16) {cs : List Char} {n : Nat} :
    value? radix cs = some n ↔ Spells radix cs n := by
  induction cs using List.reverseRecOn generalizing n with
  | nil => simp [value?, Spells]
  | append_singleton cs c ih =>
    rw [value?_append_digit, spells_append_digit]
    simp only [Option.bind_eq_some_iff, Option.map_eq_some_iff, ih, digit?_eq_some_iff hr]

theorem not_mem_of_spells {radix : Nat} {cs : List Char} {n : Nat} (spelled : Spells radix cs n)
    {c : Char} (other : ∀ d, ¬ IsDigit radix c d) : c ∉ cs := by
  obtain ⟨ds, digits, -⟩ := spelled
  rw [← List.mem_reverse]
  generalize cs.reverse = reversed at digits
  induction digits with
  | nil => exact List.not_mem_nil
  | cons first _ ih =>
    rw [List.mem_cons, not_or]
    exact ⟨fun same => other _ (same ▸ first), ih⟩

theorem not_isDigit_of_digitValue? {radix : Nat} (hr : radix ≤ 16) {c : Char}
    (none : digitValue? c = none) (d : Nat) : ¬ IsDigit radix c d := by
  rw [← digit?_eq_some_iff hr, digit?, none, Option.filter_none]
  simp

/-! ## Numbers -/

theorem read?_eq_some_iff {radix limit : Nat} (hr : radix ≤ 16) {cs : List Char} {n : Nat} :
    read? radix limit cs = some n ↔ ∃ sign ∈ [[], ['+']], ∃ digits, digits ≠ [] ∧
      cs = sign ++ digits ∧ Spells radix digits n ∧ n ≤ limit := by
  have unsigned {digits : List Char} (spelled : Spells radix digits n) : digits.head? ≠ some '+' := by
    intro first
    exact not_mem_of_spells spelled (not_isDigit_of_digitValue? hr rfl) (List.mem_of_mem_head? first)
  -- What follows the sign, if there is one, is tested to be a number.
  have digits_iff {digits : List Char} :
      (if digits.isEmpty then none else (value? radix digits).filter (· ≤ limit)) = some n ↔
        digits ≠ [] ∧ Spells radix digits n ∧ n ≤ limit := by
    rw [← value?_eq_some_iff hr]
    by_cases empty : digits = []
    · simp [empty]
    · simp [empty, Option.filter_eq_some_iff]
  unfold read?
  simp only [digits_iff]
  constructor
  · rintro ⟨some_digits, spelled, small⟩
    by_cases signed : cs.head? = some '+'
    · rw [if_pos signed] at some_digits spelled
      obtain ⟨rest, rfl⟩ := List.head?_eq_some_iff.1 signed
      exact ⟨['+'], by simp, rest, some_digits, rfl, spelled, small⟩
    · rw [if_neg signed] at some_digits spelled
      exact ⟨[], by simp, cs, some_digits, rfl, spelled, small⟩
  · rintro ⟨sign, allowed, digits, some_digits, rfl, spelled, small⟩
    simp only [List.mem_cons, List.not_mem_nil, or_false] at allowed
    rcases allowed with rfl | rfl
    · rw [List.nil_append, if_neg (unsigned spelled)]
      exact ⟨some_digits, spelled, small⟩
    · exact ⟨some_digits, spelled, small⟩

end Numeral

namespace Debugger

open Numeral

/-- Whether a text is typed as a number: with one of the marks that may stand in front, one plus sign
at most, and one digit at least, of no more than `limit` in value. -/
def IsNumber (marks : List String) (radix limit : Nat) (text : String) (n : Nat) : Prop :=
  ∃ mark ∈ marks, ∃ sign ∈ ["", "+"], ∃ digits : List Char, digits ≠ [] ∧
    text = mark ++ sign ++ String.ofList digits ∧ Spells radix digits n ∧ n ≤ limit

theorem IsNumber.le {marks : List String} {radix limit : Nat} {text : String} {n : Nat}
    (number : IsNumber marks radix limit text n) : n ≤ limit := by
  obtain ⟨_, -, _, -, _, -, -, -, small⟩ := number
  exact small

theorem isNumber_iff {marks : List String} {radix limit : Nat} (hr : radix ≤ 16) {text : String}
    {n : Nat} : IsNumber marks radix limit text n ↔
      ∃ mark ∈ marks, ∃ rest, text.toList = mark.toList ++ rest ∧ read? radix limit rest = some n := by
  unfold IsNumber
  simp only [read?_eq_some_iff hr]
  constructor
  · rintro ⟨mark, allowed, sign, signs, digits, some_digits, rfl, number⟩
    refine ⟨mark, allowed, sign.toList ++ digits, by simp, sign.toList, ?_, digits, some_digits, rfl,
      number⟩
    rcases List.mem_pair.1 signs with rfl | rfl <;> decide
  · rintro ⟨mark, allowed, rest, written, sign, signs, digits, some_digits, rfl, number⟩
    refine ⟨mark, allowed, String.ofList sign, ?_, digits, some_digits, ?_, number⟩
    · rcases List.mem_pair.1 signs with rfl | rfl <;> decide
    · apply String.toList_inj.1
      simp [written]

theorem read?_of_mark (limit : Nat) (cs : List Char) :
    read? 16 limit ('0' :: 'x' :: cs) = none := by
  rw [Option.eq_none_iff_forall_ne_some]
  intro n number
  obtain ⟨sign, signs, digits, -, written, spelled, -⟩ := (read?_eq_some_iff (by decide)).1 number
  apply not_mem_of_spells spelled (not_isDigit_of_digitValue? (c := 'x') (by decide) rfl)
  rcases List.mem_pair.1 signs with rfl | rfl
  · rw [List.nil_append] at written
    simp [← written]
  · cases written

theorem read?_withoutMark_eq_some_iff {limit : Nat} {text : String} {n : Nat} :
    read? 16 limit (withoutMark text.toList) = some n ↔ IsNumber ["", "0x"] 16 limit text n := by
  rw [isNumber_iff (by decide)]
  constructor
  · intro number
    unfold withoutMark at number
    split at number
    · next digits written => exact ⟨"0x", by simp, digits, written, number⟩
    · exact ⟨"", by simp, text.toList, rfl, number⟩
  · rintro ⟨mark, allowed, rest, written, number⟩
    rcases List.mem_pair.1 allowed with rfl | rfl
    · unfold withoutMark
      split
      · next digits marked =>
        have same : rest = '0' :: 'x' :: digits := written.symm.trans marked
        rw [same, read?_of_mark] at number
        cases number
      · rwa [written]
    · rwa [written]

/-! ## Readers -/

def Takes {α : Type} (read : String → Except CommandError α) (written : String → α → Prop) : Prop :=
  ∀ text, (∀ a, read text = .ok a ↔ written text a) ∧
    ((∀ a, ¬ written text a) → read text = .error (.notNumber text))

theorem Takes.map {α β : Type} {read : String → Except CommandError α} {written : String → α → Prop}
    (takes : Takes read written) (f : α → β) :
    Takes (fun text => (read text).map f) fun text b => ∃ a, written text a ∧ f a = b := by
  intro text
  obtain ⟨taken, refused⟩ := takes text
  constructor
  · intro b
    simp only [← taken]
    rcases read text with e | a <;> simp [Except.map]
  · intro none
    show (read text).map f = _
    rw [refused fun a way => none (f a) ⟨a, way, rfl⟩]
    rfl

theorem Takes.congr {α : Type} {read : String → Except CommandError α}
    {written written' : String → α → Prop} (takes : Takes read written)
    (same : ∀ text a, written text a ↔ written' text a) : Takes read written' := by
  simpa only [Takes, same] using takes

theorem takes_of_parse {α : Type} {read : String → Except CommandError α}
    {parse : String → Option α} (taken : ∀ text a, parse text = some a → read text = .ok a)
    (refused : ∀ text, parse text = none → read text = .error (.notNumber text)) :
    Takes read fun text a => parse text = some a := by
  intro text
  cases parsed : parse text with
  | none => simp [refused text parsed, parsed]
  | some a => simp [taken text a parsed, parsed]

theorem takes_readHex (limit : Nat) : Takes (readHex limit) (IsNumber ["", "0x"] 16 limit) := by
  have takes : Takes (readHex limit) fun text n =>
      read? 16 limit (withoutMark text.toList) = some n := by
    apply takes_of_parse <;> unfold readHex <;> simp +contextual
  exact takes.congr fun _ _ => read?_withoutMark_eq_some_iff

theorem takes_readDecimal : Takes readDecimal (IsNumber [""] 10 maxLong) := by
  have takes : Takes readDecimal fun text n => read? 10 maxLong text.toList = some n := by
    apply takes_of_parse <;> unfold readDecimal <;> simp +contextual
  apply takes.congr
  intro text n
  rw [isNumber_iff (by decide)]
  simp

theorem takes_readWord : Takes readWord fun text w => IsNumber ["", "0x"] 16 0xFFFF text w.toNat := by
  apply ((takes_readHex 0xFFFF).map UInt16.ofNat).congr
  intro text w
  constructor
  · rintro ⟨n, number, rfl⟩
    rwa [UInt16.toNat_ofNat_of_lt' (Nat.lt_succ_of_le number.le)]
  · intro number
    exact ⟨w.toNat, number, UInt16.ofNat_toNat⟩

theorem takes_readByte : Takes readByte fun text b => IsNumber ["", "0x"] 16 0xFF text b.toNat := by
  apply ((takes_readHex 0xFF).map UInt8.ofNat).congr
  intro text b
  constructor
  · rintro ⟨n, number, rfl⟩
    rwa [UInt8.toNat_ofNat_of_lt' (Nat.lt_succ_of_le number.le)]
  · intro number
    exact ⟨b.toNat, number, UInt8.ofNat_toNat⟩

/-- The places of a line at which a word is typed, each behind the name and the operands that come
before it, and the commands that come of them. -/
def wordPlaces : List (String × List String × (Word → Command)) :=
  [("set", ["PC"], fun w => .set (.pc w)), ("set", ["I"], fun w => .set (.index w)),
    ("mem", [], fun w => .memory w 0), ("mem", ["200"], fun w => .memory 0x200 w),
    ("dasm", [], fun w => .listing (some w) 0),
    ("dasm", ["200"], fun w => .listing (some 0x200) w), ("push", [], fun w => .push w)]

theorem read_set (target text : String) :
    Command.read "set" [target, text] = (Assignment.read target text).map .set := by
  show (do return Command.set (← Assignment.read target text)) = _
  rcases Assignment.read target text with e | a <;> rfl

theorem read_of_wordPlaces {name : String} {front : List String} {f : Word → Command}
    (place : (name, front, f) ∈ wordPlaces) (text : String) :
    Command.read name (front ++ [text]) = (readWord text).map f := by
  have begins : readWord "200" = .ok 0x200 := by rfl
  have pc : Assignment.read "PC" text = (readWord text).map .pc := by rfl
  have index : Assignment.read "I" text = (readWord text).map .index := by rfl
  simp only [wordPlaces, List.mem_cons, List.not_mem_nil, or_false, Prod.mk.injEq] at place
  rcases place with ⟨rfl, rfl, rfl⟩ | ⟨rfl, rfl, rfl⟩ | ⟨rfl, rfl, rfl⟩ | ⟨rfl, rfl, rfl⟩ |
    ⟨rfl, rfl, rfl⟩ | ⟨rfl, rfl, rfl⟩ | ⟨rfl, rfl, rfl⟩
  case inl =>
    rw [List.singleton_append, read_set, pc]
    rcases readWord text with e | w <;> rfl
  case inr.inl =>
    rw [List.singleton_append, read_set, index]
    rcases readWord text with e | w <;> rfl
  all_goals
    unfold Command.read
    simp only [List.nil_append, List.cons_append, List.getElem?_cons_zero,
      List.getElem?_cons_succ, List.getElem?_nil, readWordOr, Option.mapM_some, begins]
    rcases readWord text with e | w <;> rfl

/-- **Numbers as typed.** Words and bytes are read from hexadecimal digits of either case, behind one
`0x` at most and then one plus sign at most; counts are read from decimal digits behind one plus sign
at most. There is one digit at least, there may be zeros in front, and the value has an upper bound.
So it is wherever a command has a word or a count, and all other texts are refused as they were
typed. -/
theorem numbers_as_typed :
    Takes readWord (fun text w => IsNumber ["", "0x"] 16 0xFFFF text w.toNat) ∧
    Takes readByte (fun text b => IsNumber ["", "0x"] 16 0xFF text b.toNat) ∧
    Takes readDecimal (IsNumber [""] 10 (2 ^ 64 - 1)) ∧
    (∀ name front f, (name, front, f) ∈ wordPlaces →
      Takes (fun text => Command.read name (front ++ [text])) fun text c =>
        ∃ w : Word, IsNumber ["", "0x"] 16 0xFFFF text w.toNat ∧ f w = c) ∧
    ∀ rest, Takes (fun text => Command.read "si" (text :: rest)) fun text c =>
      ∃ n, IsNumber [""] 10 (2 ^ 64 - 1) text n ∧ .step n = c := by
  refine ⟨takes_readWord, takes_readByte, takes_readDecimal, ?_, ?_⟩
  · intro name front f place
    simp only [read_of_wordPlaces place]
    exact takes_readWord.map f
  · intro rest
    have count (text : String) :
        Command.read "si" (text :: rest) = (readDecimal text).map .step := by
      show (do return Command.step ((← some <$> readDecimal text).getD 1)) = _
      rcases readDecimal text with e | n <;> rfl
    simp only [count]
    exact takes_readDecimal.map Command.step

theorem numbers_as_typed_listing :
    Command.read "dasm" ["200", "0x+00fF"] = .ok (.listing (some 0x200) 0xFF) ∧
      Command.read "dasm" ["200", "+0x1"] = .error (.notNumber "+0x1") := by
  obtain ⟨-, -, -, places, -⟩ := numbers_as_typed
  have place := places "dasm" ["200"] (fun w => .listing (some 0x200) w) (by simp [wordPlaces])
  constructor
  · refine ((place "0x+00fF").1 _).2 ⟨0xFF, ?_, rfl⟩
    exact ⟨"0x", by simp, "+", by simp, "00fF".toList, by decide, by decide,
      ⟨[15, 15, 0, 0], by decide, by decide⟩, by decide⟩
  · apply (place "+0x1").2
    rintro _ ⟨w, number, -⟩
    have taken := ((takes_readWord "+0x1").1 w).2 number
    cases taken

end Debugger

end Chip8
