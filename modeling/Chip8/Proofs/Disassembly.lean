import Mathlib.Data.List.Induction
import Chip8.Instruction.Notation
import Chip8.Proofs.Assembly

/-!
# Disassembling words

The table that words are written by tells the decoder as well: what it finds is the operator of the
first row that fits, on the operands that the word spells. No two templates can be filled in to the
same text, and a filled template shows all that the operator reads, so a text belongs to one word. Main
statements: `Word.disassembly_eq_text`, `disassembly_faithful`.
-/

namespace Chip8

/-! ## The digits of a written number -/

namespace Numeral

theorem padded_succ {radix width : Nat} (h : 1 < radix) (some_width : 0 < width) (n : Nat) :
    padded radix (width + 1) n = padded radix width (n / radix) ++ [(n % radix).digitChar] := by
  unfold padded
  rw [Nat.toDigits_eq_if h]
  split
  · next small =>
    rw [Nat.div_eq_of_lt small, Nat.mod_eq_of_lt small, Nat.toDigits_eq_if h, if_pos (by omega)]
    obtain ⟨width, rfl⟩ := Nat.exists_eq_succ_of_ne_zero (Nat.ne_of_gt some_width)
    simp [List.leftpad, List.replicate_succ', Nat.digitChar]
  · simp [List.leftpad]

theorem padded_one {radix n : Nat} (h : 1 < radix) (small : n < radix) :
    padded radix 1 n = [n.digitChar] := by
  unfold padded
  rw [Nat.toDigits_eq_if h, if_pos small]
  rfl

end Numeral

namespace Word

theorem low_eq (w : Word) : w.low.toNat = (w.nibble 1).val * 16 + (w.nibble 0).val := by
  have digits := w.val_nibbles
  rw [toNat_low]
  omega

theorem address_eq (w : Word) :
    w.address.val = (w.nibble 2).val * 256 + (w.nibble 1).val * 16 + (w.nibble 0).val := by
  have digits := w.val_nibbles
  rw [address, Address.val_ofWord]
  omega

theorem toList_text_low (w : Word) :
    w.low.text.toList = [(w.nibble 1).val.digitChar, (w.nibble 0).val.digitChar] := by
  have low := w.low_eq
  unfold Byte.text Numeral.hex
  rw [String.toList_ofList, Numeral.padded_succ (by decide) (by decide),
    Numeral.padded_one (by decide) (by omega), show w.low.toNat / 16 = (w.nibble 1).val by omega,
    show w.low.toNat % 16 = (w.nibble 0).val by omega]
  rfl

theorem toList_text_address (w : Word) :
    w.address.text.toList =
      [(w.nibble 2).val.digitChar, (w.nibble 1).val.digitChar, (w.nibble 0).val.digitChar] := by
  have address := w.address_eq
  unfold Address.text Numeral.hex
  rw [String.toList_ofList, Numeral.padded_succ (by decide) (by decide),
    Numeral.padded_succ (by decide) (by decide), Numeral.padded_one (by decide) (by omega),
    show w.address.val / 16 / 16 = (w.nibble 2).val by omega,
    show w.address.val / 16 % 16 = (w.nibble 1).val by omega,
    show w.address.val % 16 = (w.nibble 0).val by omega]
  rfl

theorem toList_text (w : Word) :
    w.text.toList = [(w.nibble 3).val.digitChar, (w.nibble 2).val.digitChar,
      (w.nibble 1).val.digitChar, (w.nibble 0).val.digitChar] := by
  have digits := w.val_nibbles
  have bound := w.toNat_lt
  unfold text Numeral.hex
  rw [String.toList_ofList, Numeral.padded_succ (by decide) (by decide),
    Numeral.padded_succ (by decide) (by decide), Numeral.padded_succ (by decide) (by decide),
    Numeral.padded_one (by decide) (by omega),
    show w.toNat / 16 / 16 / 16 = (w.nibble 3).val by omega,
    show w.toNat / 16 / 16 % 16 = (w.nibble 2).val by omega,
    show w.toNat / 16 % 16 = (w.nibble 1).val by omega,
    show w.toNat % 16 = (w.nibble 0).val by omega]
  rfl

theorem low_eq_iff {a b : Word} :
    a.low = b.low ↔ a.nibble 1 = b.nibble 1 ∧ a.nibble 0 = b.nibble 0 := by
  have first := a.low_eq
  have second := b.low_eq
  rw [← UInt8.toNat_inj, Fin.ext_iff, Fin.ext_iff]
  omega

theorem address_eq_iff {a b : Word} :
    a.address = b.address ↔
      a.nibble 2 = b.nibble 2 ∧ a.nibble 1 = b.nibble 1 ∧ a.nibble 0 = b.nibble 0 := by
  have first := a.address_eq
  have second := b.address_eq
  rw [Fin.ext_iff, Fin.ext_iff, Fin.ext_iff, Fin.ext_iff]
  omega

theorem ext_nibbles {a b : Word} (same : ∀ i ∈ [3, 2, 1, 0], a.nibble i = b.nibble i) : a = b := by
  have first := a.val_nibbles
  have second := b.val_nibbles
  simp only [List.forall_mem_cons, Fin.ext_iff] at same
  apply UInt16.toNat.inj
  omega

end Word

/-! ## Templates -/

namespace Slot

def place? : Slot → Option Nat
  | literal _ => none
  | upper place | lower place | decimal place => some place

def starts : Slot → List Char
  | literal c => [c]
  | upper _ => "0123456789ABCDEF".toList
  | lower _ => "0123456789abcdef".toList
  | decimal _ => "0123456789".toList

def isSingle : Slot → Bool
  | decimal _ => false
  | _ => true

theorem text_of_isSingle {s : Slot} (single : s.isSingle) (w : Word) : ∃ c ∈ s.starts, s.text w = [c] := by
  have upper : ∀ d : Fin 16, Numeral.upperDigit d ∈ "0123456789ABCDEF".toList := by decide
  have lower : ∀ d : Fin 16, d.val.digitChar ∈ "0123456789abcdef".toList := by decide
  cases s with
  | literal c => exact ⟨c, List.mem_singleton_self c, rfl⟩
  | upper place => exact ⟨_, upper (w.nibble place), rfl⟩
  | lower place => exact ⟨_, lower (w.nibble place), rfl⟩
  | decimal place => cases single

theorem text_eq_cons (s : Slot) (w : Word) : ∃ c ∈ s.starts, ∃ more, s.text w = c :: more := by
  have decimal : ∀ d : Fin 16, (Numeral.padded 10 1 d.val).head?.any (· ∈ "0123456789".toList) := by
    decide
  by_cases single : s.isSingle
  · obtain ⟨c, member, text⟩ := text_of_isSingle single w
    exact ⟨c, member, [], text⟩
  · cases s with
    | decimal place =>
      have first := decimal (w.nibble place)
      rw [Option.any_eq_true_iff_get] at first
      obtain ⟨some_head, member⟩ := first
      obtain ⟨more, text⟩ := List.head?_eq_some_iff.1 (Option.some_get some_head).symm
      exact ⟨_, of_decide_eq_true member, more, text⟩
    | _ => exact absurd rfl single

theorem nibble_eq_of_text_eq {s : Slot} {a b : Word} (same : s.text a = s.text b) :
    ∀ place ∈ s.place?, a.nibble place = b.nibble place := by
  have upper : ∀ d e : Fin 16, Numeral.upperDigit d = Numeral.upperDigit e → d = e := by decide
  have lower : ∀ d e : Fin 16, d.val.digitChar = e.val.digitChar → d = e := by decide
  have decimal : ∀ d e : Fin 16, Numeral.padded 10 1 d.val = Numeral.padded 10 1 e.val → d = e := by
    decide
  rintro place shown
  cases s with
  | literal c => cases shown
  | upper _ =>
    cases shown
    exact upper _ _ (List.cons.inj same).1
  | lower _ =>
    cases shown
    exact lower _ _ (List.cons.inj same).1
  | decimal _ =>
    cases shown
    exact decimal _ _ same

end Slot

namespace Template

/-- The places whose digits a template shows. -/
def places (t : Template) : List Nat :=
  t.filterMap Slot.place?

def isClosed : Template → Bool
  | [] => true
  | s :: t => (s.isSingle || t.isEmpty) && isClosed t

/-- Whether two templates differ in every text, for a reason that the slots tell. -/
def isApart : Template → Template → Bool
  | [], [] => false
  | [], _ :: _ | _ :: _, [] => true
  | s :: t, s' :: t' =>
    s.starts.all (· ∉ s'.starts) || (s.isSingle && s'.isSingle && isApart t t')

theorem text_cons (s : Slot) (t : Template) (w : Word) : text (s :: t) w = s.text w ++ text t w :=
  List.flatMap_cons

theorem places_append (t t' : Template) : places (t ++ t') = places t ++ places t' :=
  List.filterMap_append

theorem text_ne_of_isApart {t t' : Template} (apart : isApart t t') (a b : Word) :
    t.text a ≠ t'.text b := by
  intro same
  induction t, t' using isApart.induct with
  | case1 => cases apart
  | case2 s t =>
    obtain ⟨c, -, more, start⟩ := s.text_eq_cons b
    rw [text_cons, start] at same
    cases same
  | case3 s t =>
    obtain ⟨c, -, more, start⟩ := s.text_eq_cons a
    rw [text_cons, start] at same
    cases same
  | case4 s t s' t' ih =>
    unfold isApart at apart
    rw [Bool.or_eq_true] at apart
    rw [text_cons, text_cons] at same
    rcases apart with differ | rest
    · obtain ⟨c, member, more, start⟩ := s.text_eq_cons a
      obtain ⟨c', member', more', start'⟩ := s'.text_eq_cons b
      rw [start, start'] at same
      obtain ⟨rfl, -⟩ := List.cons.inj same
      rw [List.all_eq_true] at differ
      simpa [member'] using differ c member
    · simp only [Bool.and_eq_true] at rest
      obtain ⟨c, -, start⟩ := Slot.text_of_isSingle rest.1.1 a
      obtain ⟨c', -, start'⟩ := Slot.text_of_isSingle rest.1.2 b
      rw [start, start'] at same
      exact ih rest.2 (List.cons.inj same).2

theorem mem_places_cons {s : Slot} {t : Template} {place : Nat} :
    place ∈ places (s :: t) ↔ place ∈ s.place? ∨ place ∈ t.places := by
  unfold places
  cases shown : s.place? with
  | none => simp [shown]
  | some other => simp [shown, eq_comm]

theorem nibble_eq_of_text_eq {t : Template} (closed : t.isClosed) {a b : Word}
    (same : t.text a = t.text b) : ∀ place ∈ t.places, a.nibble place = b.nibble place := by
  induction t with
  | nil => exact fun place shown => by cases shown
  | cons s t ih =>
    unfold isClosed at closed
    rw [Bool.and_eq_true, Bool.or_eq_true] at closed
    obtain ⟨single | last, closed⟩ := closed
    · obtain ⟨c, -, start⟩ := Slot.text_of_isSingle single a
      obtain ⟨c', -, start'⟩ := Slot.text_of_isSingle single b
      rw [text_cons, text_cons, start, start'] at same
      obtain ⟨rfl, rest⟩ := List.cons.inj same
      intro place shown
      rcases mem_places_cons.1 shown with first | later
      · exact Slot.nibble_eq_of_text_eq (start.trans start'.symm) place first
      · exact ih closed rest place later
    · obtain rfl : t = [] := List.isEmpty_iff.1 last
      intro place shown
      have first := (mem_places_cons.1 shown).resolve_right List.not_mem_nil
      exact Slot.nibble_eq_of_text_eq (List.append_cancel_right same) place first

end Template

/-! ## Decoding by the table -/

namespace Word

theorem fits_three (w : Word) (a b c : Option Nat) :
    w.fits [a, b, c] = (a.all ((w.nibble 2).val = ·) && b.all ((w.nibble 1).val = ·) &&
      c.all ((w.nibble 0).val = ·)) := by
  simp [fits, nibbles, Bool.and_assoc]

theorem decode?_eq_operator? (w : Word) :
    Instruction.decode? w = w.operator?.map (·.on w.operands) := by
  have low := w.low_eq
  have address := w.address_eq
  have target := w.address_target_operands
  have height := w.lastDigit_height_operands
  have high : (w.nibble 1).val = w.low.toNat / 16 := by omega
  have last : (w.nibble 0).val = w.low.toNat % 16 := by omega
  unfold Instruction.decode? operator?
  split
  case h_17 =>
    unfold Operator.rows
    simp [*]
  all_goals rename_i group; rw [group]
  case h_1 =>
    split
    · next clears =>
      have digits : (w.nibble 2).val = 0 ∧ (w.nibble 1).val = 0xE ∧ (w.nibble 0).val = 0 := by omega
      simp [Operator.rows, fits_three, digits]
      rfl
    · split
      · next clears returns =>
        have digits : (w.nibble 2).val = 0 ∧ (w.nibble 1).val = 0xE ∧ (w.nibble 0).val = 0xE := by
          omega
        simp [Operator.rows, fits_three, digits]
        rfl
      · next clears returns =>
        have first : w.fits [some 0x0, some 0xE, some 0x0] = false := by
          simp [fits_three]
          omega
        have second : w.fits [some 0x0, some 0xE, some 0xE] = false := by
          simp [fits_three]
          omega
        simp only [Operator.rows, List.find?_cons, first, second]
        exact congrArg some (by unfold Operator.on; rw [target])
  case h_2 | h_3 | h_11 | h_12 => exact congrArg some (by unfold Operator.on; rw [target])
  case h_14 => exact congrArg some (by unfold Operator.on; rw [height]; rfl)
  case h_6 | h_10 =>
    by_cases zero : (w.nibble 0).val = 0
    · simp [Operator.rows, fits_three, zero]
      rfl
    · simp [Operator.rows, fits_three, zero]
  case h_9 =>
    unfold Combination.ofCode?
    split
    case h_10 =>
      rw [List.find?_eq_none.2]
      · rfl
      · simp [Operator.rows, fits_three, -Fin.val_eq_zero_iff]
        grind
    all_goals next code => simp [Operator.rows, fits_three, code]; rfl
  case h_15 =>
    unfold Instruction.ofKeyTest?
    split
    case h_3 =>
      rw [List.find?_eq_none.2]
      · rfl
      · simp [Operator.rows, fits_three]
        grind
    all_goals next byte =>
      simp only [Operator.rows, List.find?_cons, fits_three, Option.all_none, Option.all_some, high,
        last]
      rw [byte]
      rfl
  case h_16 =>
    unfold Instruction.ofSingle?
    split
    case h_10 =>
      rw [List.find?_eq_none.2]
      · rfl
      · simp [Operator.rows, fits_three, -Fin.val_eq_zero_iff]
        grind
    all_goals next byte =>
      simp only [Operator.rows, List.find?_cons, fits_three, Option.all_none, Option.all_some, high,
        last]
      rw [byte]
      rfl
  all_goals rfl

end Word

/-! ## Templates and texts -/

namespace Template

theorem text_append (t t' : Template) (w : Word) : (t ++ t').text w = t.text w ++ t'.text w :=
  List.flatMap_append

theorem text_literally (written : String) (w : Word) :
    (literally written).text w = written.toList := by
  unfold text literally
  rw [List.flatMap_map]
  exact List.flatMap_singleton' _

theorem places_literally (written : String) : (literally written).places = [] := by
  unfold places literally
  simp [List.filterMap_map, Function.comp_def, Slot.place?]

theorem text_x (w : Word) : x.text w = w.x.name.toList := by
  unfold Register.name
  rw [String.toList_ofList]
  rfl

theorem text_y (w : Word) : y.text w = w.y.name.toList := by
  unfold Register.name
  rw [String.toList_ofList]
  rfl

theorem text_byte (w : Word) : byte.text w = w.low.text.toList := by
  rw [w.toList_text_low]
  rfl

theorem text_target (w : Word) : target.text w = w.address.text.toList := by
  rw [w.toList_text_address]
  rfl

theorem text_height (w : Word) :
    height.text w = (Numeral.decimal (w.nibble 0).val).toList := by
  unfold Numeral.decimal
  rw [String.toList_ofList]
  exact List.append_nil _

theorem text_invalid (w : Word) : invalid.text w = ("INVALID " ++ w.text).toList := by
  unfold invalid
  rw [text_append, text_literally, String.toList_append, w.toList_text]
  rfl

end Template

def Combination.text (how : Combination) (x y : Register) : String :=
  match how with
  | copy => "LD " ++ x.name ++ ", " ++ y.name
  | or => "OR " ++ x.name ++ ", " ++ y.name
  | and => "AND " ++ x.name ++ ", " ++ y.name
  | xor => "XOR " ++ x.name ++ ", " ++ y.name
  | add => "ADD " ++ x.name ++ ", " ++ y.name
  | sub => "SUB " ++ x.name ++ ", " ++ y.name
  | shiftRight => "SHR " ++ x.name ++ " (, " ++ y.name ++ ")"
  | subFrom => "SUBN " ++ x.name ++ ", " ++ y.name
  | shiftLeft => "SHL " ++ x.name ++ " (, " ++ y.name ++ ")"

def Instruction.text : Instruction → String
  | system target => "SYS " ++ target.text
  | clearScreen => "CLS"
  | ret => "RET"
  | jump target => "JP " ++ target.text
  | call target => "CALL " ++ target.text
  | skipIfByte x byte => "SE " ++ x.name ++ ", " ++ byte.text
  | skipUnlessByte x byte => "SNE " ++ x.name ++ ", " ++ byte.text
  | skipIfSame x y => "SE " ++ x.name ++ ", " ++ y.name
  | skipUnlessSame x y => "SNE " ++ x.name ++ ", " ++ y.name
  | load x byte => "LD " ++ x.name ++ ", " ++ byte.text
  | addByte x byte => "ADD " ++ x.name ++ ", " ++ byte.text
  | combine how x y => how.text x y
  | loadIndex target => "LD I, " ++ target.text
  | jumpPast target => "JP V0, " ++ target.text
  | random x mask => "RND " ++ x.name ++ ", " ++ mask.text
  | draw x y height => "DRW " ++ x.name ++ ", " ++ y.name ++ ", " ++ Numeral.decimal height.val
  | skipIfKey x => "SKP " ++ x.name
  | skipUnlessKey x => "SKNP " ++ x.name
  | readDelay x => "LD " ++ x.name ++ ", DT"
  | awaitKey x => "LD " ++ x.name ++ ", K"
  | setDelay x => "LD DT, " ++ x.name
  | setSound x => "LD ST, " ++ x.name
  | addIndex x => "ADD I, " ++ x.name
  | loadGlyph x => "LD F, " ++ x.name
  | storeDecimal x => "LD B, " ++ x.name
  | storeUpTo x => "LD [I], " ++ x.name
  | loadUpTo x => "LD " ++ x.name ++ ", [I]"

namespace Operator

theorem toList_text_on (o : Operator) (w : Word) :
    (o.on w.operands).text.toList = o.template.text w := by
  have target := w.address_target_operands
  have height := w.lastDigit_height_operands
  unfold on template
  cases o
  case combine how =>
    cases how <;>
      simp only [Instruction.text, Combination.text, String.toList_append, Template.text_append,
        Template.text_literally, Template.text_x, Template.text_y] <;> rfl
  all_goals
    simp only [Instruction.text, String.toList_append, Template.text_append,
      Template.text_literally, Template.text_x, Template.text_y, Template.text_byte,
      Template.text_target, Template.text_height, target, height]
    try rfl

def all : List Operator :=
  ((List.range 16).flatMap rows).map Prod.snd

theorem mem_all (o : Operator) : o ∈ all := by
  cases o
  case combine how => cases how <;> decide
  all_goals decide

theorem isApart_template {o o' : Operator} (differ : o ≠ o') : o.template.isApart o'.template := by
  have table : ∀ o ∈ all, ∀ o' ∈ all, o ≠ o' → o.template.isApart o'.template := by
    decide +kernel
  exact table o o.mem_all o' o'.mem_all differ

theorem isApart_invalid (o : Operator) : Template.invalid.isApart o.template := by
  have table : ∀ o ∈ all, Template.invalid.isApart o.template := by decide +kernel
  exact table o o.mem_all

theorem isClosed_template (o : Operator) : o.template.isClosed := by
  have table : ∀ o ∈ all, o.template.isClosed := by decide +kernel
  exact table o o.mem_all

/-- A template shows the digits that the operator reads, and no others. -/
theorem on_eq_iff (o : Operator) (a b : Word) :
    o.on a.operands = o.on b.operands ↔
      ∀ place ∈ o.template.places, a.nibble place = b.nibble place := by
  have x : Template.x.places = [2] := rfl
  have y : Template.y.places = [1] := rfl
  have byte : Template.byte.places = [1, 0] := rfl
  have target : Template.target.places = [2, 1, 0] := rfl
  have height : Template.height.places = [0] := rfl
  have registers : ∀ {v w : Word}, (v.x = w.x ↔ v.nibble 2 = w.nibble 2) ∧
      (v.y = w.y ↔ v.nibble 1 = w.nibble 1) := by
    simp [Word.x, Word.y]
  unfold on template
  cases o
  case combine how =>
    cases how <;>
      simp only [Template.places_append, Template.places_literally, x, y] <;>
      simp [Word.operands, registers]
  case clearScreen | ret => simp [Template.places_literally]
  case draw =>
    simp only [Template.places_append, Template.places_literally, x, y, height,
      Word.lastDigit_height_operands]
    simp [Word.operands, registers]
  case system | jump | call | loadIndex | jumpPast =>
    simp only [Template.places_append, Template.places_literally, target, Word.address_target_operands]
    simp [Word.address_eq_iff]
  case skipIfByte | skipUnlessByte | load | addByte | random =>
    simp only [Template.places_append, Template.places_literally, x, byte]
    simp [Word.operands, registers, Word.low_eq_iff]
  all_goals
    simp only [Template.places_append, Template.places_literally, x, y]
    simp [Word.operands, registers]

end Operator

/-! ## Texts and words -/

namespace Word

theorem operator?_eq_none_iff {w : Word} : w.operator? = none ↔ Instruction.decode? w = none := by
  rw [w.decode?_eq_operator?, Option.map_eq_none_iff]

theorem toList_disassembly (w : Word) : w.disassembly.toList = w.template.text w :=
  String.toList_ofList

theorem disassembly_eq_text (w : Word) :
    w.disassembly =
      match Instruction.decode? w with
      | some i => i.text
      | none => "INVALID " ++ w.text := by
  apply String.toList_inj.1
  rw [w.toList_disassembly, w.decode?_eq_operator?]
  unfold template
  cases w.operator? with
  | none => exact Template.text_invalid w
  | some o => exact (o.toList_text_on w).symm

theorem invalid_isPrefix_iff (w : Word) :
    "INVALID".toList <+: w.disassembly.toList ↔ Instruction.decode? w = none := by
  have starts : ∀ o ∈ Operator.all, o.template.head?.any ('I' ∉ ·.starts) := by decide +kernel
  rw [← operator?_eq_none_iff, w.toList_disassembly]
  unfold template
  rcases w.operator? with _ | o
  · simp only [Option.elim_none, iff_true]
    rw [Template.text_invalid, String.toList_append]
    exact ⟨' ' :: w.text.toList, rfl⟩
  · simp only [Option.elim_some, reduceCtorEq, iff_false]
    rintro ⟨more, text⟩
    have first := starts o o.mem_all
    rcases written : o.template with _ | ⟨s, t⟩ <;> rw [written] at first text
    · cases first
    · obtain ⟨c, member, rest, start⟩ := s.text_eq_cons w
      rw [Template.text_cons, start] at text
      have same : 'I' = c := (List.cons.inj text).1
      rw [← same] at member
      simp [member] at first

/-- Words that are written alike do the same. -/
theorem operator?_eq_of_text_eq {a b : Word} (same : a.template.text a = b.template.text b) :
    a.operator? = b.operator? := by
  unfold template at same
  generalize a.operator? = first at same ⊢
  generalize b.operator? = second at same ⊢
  rcases first with _ | o <;> rcases second with _ | o'
  · rfl
  · exact absurd same (Template.text_ne_of_isApart o'.isApart_invalid a b)
  · exact absurd same.symm (Template.text_ne_of_isApart o.isApart_invalid b a)
  · by_contra differ
    have apart := Operator.isApart_template fun alike => differ (congrArg some alike)
    exact Template.text_ne_of_isApart apart a b same

theorem disassembly_injective : Function.Injective disassembly := by
  intro a b same
  have texts : a.template.text a = b.template.text b := by
    rw [← toList_disassembly, ← toList_disassembly, same]
  have alike := operator?_eq_of_text_eq texts
  rw [template, template, ← alike] at texts
  cases does : a.operator? with
  | none =>
    rw [does] at texts
    exact ext_nibbles (Template.nibble_eq_of_text_eq (t := .invalid) rfl texts)
  | some o =>
    rw [does] at texts
    have reads := (o.on_eq_iff a b).2 (Template.nibble_eq_of_text_eq o.isClosed_template texts)
    have first := a.decode?_eq_operator?
    have second := b.decode?_eq_operator?
    rw [does, Option.map_some] at first
    rw [← alike, does, Option.map_some, ← reads] at second
    rw [← Instruction.encode_of_decode? first, Instruction.encode_of_decode? second]

end Word

/-- **Disassembly is faithful.** The mark of an invalid word stands exactly where the decoder finds no
instruction. Both follow one table: what the decoder finds is an operator on the operands that the
word spells, and the text is the template of that operator, filled in with the digits that it reads
and no others. Different words have different texts. -/
theorem disassembly_faithful :
    (∀ w : Word, "INVALID".toList <+: w.disassembly.toList ↔ Instruction.decode? w = none) ∧
    (∀ w : Word, Instruction.decode? w = w.operator?.map (·.on w.operands) ∧
      w.disassembly.toList = (w.operator?.elim .invalid Operator.template).text w) ∧
    (∀ (o : Operator) (a b : Word), o.on a.operands = o.on b.operands ↔
      ∀ place ∈ o.template.places, a.nibble place = b.nibble place) ∧
    Function.Injective Word.disassembly := by
  refine ⟨Word.invalid_isPrefix_iff, ?_, Operator.on_eq_iff, Word.disassembly_injective⟩
  intro w
  exact ⟨w.decode?_eq_operator?, w.toList_disassembly⟩

example :
    Word.disassembly 0x8126 = "SHR V1 (, V2)" ∧ Word.disassembly 0xD12F = "DRW V1, V2, 15" ∧
      Word.disassembly 0x812F = "INVALID 812f" := by
  decide +kernel

end Chip8
