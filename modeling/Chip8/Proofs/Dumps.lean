import Mathlib.Data.List.Nodup
import Chip8.Debugger.Session
import Chip8.Proofs.Disassembly
import Chip8.Proofs.Numbers
import Chip8.Proofs.Printed

/-!
# Dumps and listings

A dump shows whole rows of memory, so of a last row that its range does not fill nothing is shown. A
listing without a range starts two words before the program counter, or at address zero, and goes on
by words from there, which misses the program counter at the addresses one and three. Main statements:
`dump_of_range` and `listing_around_pc`.
-/

namespace Chip8

/-! ## Texts of one line -/

theorem Numeral.newline_not_mem_padded {radix : Nat} (h : 1 < radix) (hr : radix ≤ 16)
    (width n : Nat) : '\n' ∉ padded radix width n :=
  not_mem_of_spells ((value?_eq_some_iff hr).1 (value?_padded h hr width n))
    (not_isDigit_of_digitValue? hr rfl)

theorem Numeral.newline_not_mem_hex (width n : Nat) : '\n' ∉ (hex width n).toList := by
  unfold hex
  rw [String.toList_ofList]
  exact newline_not_mem_padded (by decide) (by decide) width n

theorem Slot.newline_not_mem_text {s : Slot} (single : '\n' ∉ s.starts) (w : Word) :
    '\n' ∉ s.text w := by
  by_cases narrow : s.isSingle
  · obtain ⟨c, member, text⟩ := Slot.text_of_isSingle narrow w
    rw [text, List.mem_singleton]
    rintro rfl
    exact single member
  · cases s with
    | decimal place => exact Numeral.newline_not_mem_padded (by decide) (by decide) 1 _
    | _ => exact absurd rfl narrow

theorem Word.newline_not_mem_disassembly (w : Word) : '\n' ∉ w.disassembly.toList := by
  have table : ∀ o ∈ Operator.all, ∀ s ∈ o.template, '\n' ∉ s.starts := by decide +kernel
  have single : ∀ s ∈ w.template, '\n' ∉ s.starts := by
    unfold Word.template
    cases w.operator? with
    | none => decide +kernel
    | some o => exact table o o.mem_all
  rw [w.toList_disassembly]
  intro member
  obtain ⟨s, slot, inside⟩ := List.mem_flatMap.1 member
  exact Slot.newline_not_mem_text (single s slot) w inside

namespace Debugger

/-! ## Dumps -/

def dumpLine (m : Memory) (a : Nat) : List Char :=
  (" " ++ (Address.ofNat a).text ++ "  ").toList ++
    (List.range 16).flatMap fun k => ((m.read (Address.ofNat (a + k))).text ++ " ").toList

/-- What a printed dump shows: under its head the rows that start at the given addresses. -/
structure Dumped (m : Memory) (text : String) (starts : List Nat) : Prop where
  printed : Text.printed text = dumpHead.toList :: starts.map (dumpLine m) ++ [[]]
  aligned : ∀ a ∈ starts, a % 16 = 0 ∧ a + 16 ≤ 4096
  ascending : starts.Pairwise (· < ·)

theorem newline_not_mem_dumpLine (m : Memory) (a : Nat) : '\n' ∉ dumpLine m a := by
  unfold dumpLine Address.text Byte.text
  simp [Numeral.newline_not_mem_hex]

theorem dumpRow_eq (m : Memory) {a : Nat} (aligned : a % 16 = 0) (inside : a < 4096) :
    dumpRow (a, m.readAll (Address.ofNat a) 16) = "\n" ++ String.ofList (dumpLine m a) := by
  have later (k : Nat) : (Address.ofNat a).advance k = Address.ofNat (a + k) := by
    apply Fin.ext
    simp
  have address : (Address.ofNat a).text.toList = (Numeral.hex 2 (a / 16)).toList ++ ['0'] := by
    unfold Address.text Numeral.hex
    rw [Address.val_ofNat, Nat.mod_eq_of_lt inside, String.toList_ofList, String.toList_ofList,
      Numeral.padded_succ (by decide) (by decide), aligned]
    rfl
  apply String.toList_inj.1
  unfold dumpRow dumpLine Memory.readAll
  simp [address, later, List.flatMap_map]

def rowsFrom (start stop : Nat) : List Nat :=
  (List.range ((stop - start) / 16)).map (start + 16 * ·)

theorem dumped_dumpRows (m : Memory) {start stop : Nat} (aligned : start % 16 = 0)
    (inside : stop ≤ 4096) :
    Dumped m (closed (dumpHead ++ String.join ((dumpRows m start stop).map dumpRow)))
      (rowsFrom start stop) := by
  have rows : (dumpRows m start stop).map dumpRow =
      ((rowsFrom start stop).map fun a => String.ofList (dumpLine m a)).map ("\n" ++ ·) := by
    unfold dumpRows rowsFrom
    simp only [List.map_map]
    apply List.map_congr_left
    intro k below
    rw [List.mem_range] at below
    exact dumpRow_eq m (by omega) (by omega)
  constructor
  · rw [rows, closed_append_join, printed_join_closed]
    · simp
    · rw [List.forall_mem_cons]
      refine ⟨by decide, ?_⟩
      simp [newline_not_mem_dumpLine]
  · intro a member
    simp only [rowsFrom, List.mem_map, List.mem_range] at member
    obtain ⟨k, below, rfl⟩ := member
    omega
  · unfold rowsFrom
    rw [List.pairwise_map]
    apply List.pairwise_lt_range.imp
    omega

/-- The addresses that are shown are those of the rows that the range fills to their end. -/
theorem exists_row_iff (first last a : Nat) :
    (∃ start ∈ rowsFrom (first / 16 * 16) (last / 16 * 16), start ≤ a ∧ a < start + 16) ↔
      first / 16 * 16 ≤ a ∧ a < last / 16 * 16 := by
  simp only [rowsFrom, List.mem_map, List.mem_range]
  constructor
  · rintro ⟨_, ⟨k, below, rfl⟩, low, high⟩
    omega
  · rintro ⟨low, high⟩
    exact ⟨_, ⟨a / 16 - first / 16, by omega, rfl⟩, by omega, by omega⟩

theorem dumpBounds_of_lt {first last : Word} (ascending : first.toNat < last.toNat)
    (inside : last.toNat ≤ 0x1000) :
    dumpBounds first last = (first.toNat / 16 * 16, last.toNat / 16 * 16) := by
  have begins : first.address.val = first.toNat := Nat.mod_eq_of_lt (by omega)
  unfold dumpBounds
  simp only [begins]
  rw [if_pos (by omega), Memory.size, Nat.min_eq_left inside]

theorem ofLine_of_memory {line begins ends : String} {others : List String} {first last : Word}
    (words : Text.words line = "mem" :: begins :: ends :: others)
    (begun : readWord begins = .ok first) (ended : readWord ends = .ok last) :
    Command.ofLine line = .ok (some (.memory first last)) := by
  have told : Command.read "mem" (begins :: ends :: others) =
      (do return .memory (← readWord begins) (← readWord ends)) := rfl
  rw [Command.ofLine_of_words words, told, begun, ended]
  rfl

/-- **Dump of a range.** A range of ascending bounds within memory is dumped in whole rows of sixteen
bytes at ascending addresses, each with the bytes that lie there. The dump shows the rows from that of
the first address on, and of the last row only what the range fills to its end. -/
theorem dump_of_range (read : Reader) (m : Machine) {line begins ends : String}
    {others : List String} {first last : Word}
    (words : Text.words line = "mem" :: begins :: ends :: others)
    (begun : readWord begins = .ok first) (ended : readWord ends = .ok last)
    (ascending : first.toNat < last.toNat) (inside : last.toNat ≤ 0x1000) :
    ∃ text starts, reply read m line = .answer text m ∧ Dumped m.memory text starts ∧
      ∀ a, (∃ start ∈ starts, start ≤ a ∧ a < start + 16) ↔
        first.toNat / 16 * 16 ≤ a ∧ a < last.toNat / 16 * 16 := by
  have replied : reply read m line = .answer (dumpText m.memory first last) m :=
    reply_of_command (ofLine_of_memory words begun ended) nofun
  refine ⟨dumpText m.memory first last, rowsFrom (first.toNat / 16 * 16) (last.toNat / 16 * 16),
    replied, ?_, exists_row_iff _ _⟩
  unfold dumpText
  rw [dumpBounds_of_lt ascending inside]
  exact dumped_dumpRows m.memory (Nat.mul_mod_left _ 16) (by omega)

theorem dump_of_range_last_row :
    let m := Machine.start {} 0
    ∃ text starts, reply (fun _ => .error .notFound) m "mem ff1 0x1000\n" = .answer text m ∧
      Dumped m.memory text starts ∧ ∃ start ∈ starts, start ≤ 0xFFF ∧ 0xFFF < start + 16 := by
  intro m
  have words : Text.words "mem ff1 0x1000\n" = ["mem", "ff1", "0x1000"] := by decide
  have begun : readWord "ff1" = .ok 0xFF1 := rfl
  have ended : readWord "0x1000" = .ok 0x1000 := rfl
  obtain ⟨text, starts, replied, dumped, shown⟩ :=
    dump_of_range (fun _ => .error .notFound) m words begun ended (by decide) (by decide)
  exact ⟨text, starts, replied, dumped, (shown 0xFFF).2 (by decide)⟩

/-- A range that does not reach the end of its row is dumped without that row, so that of the bytes
from 200 to 204 none is shown. -/
theorem dump_leaves_out_row :
    let m := Machine.start {} 0
    readWord "200" = .ok 0x200 ∧ readWord "205" = .ok 0x205 ∧
      reply (fun _ => .error .notFound) m "mem 200 205\n" = .answer (closed dumpHead) m ∧
      ¬ ∃ starts, Dumped m.memory (closed dumpHead) starts ∧
        ∀ a, 0x200 ≤ a → a < 0x205 → ∃ start ∈ starts, start ≤ a ∧ a < start + 16 := by
  intro m
  have begun : readWord "200" = .ok 0x200 := rfl
  have ended : readWord "205" = .ok 0x205 := rfl
  refine ⟨begun, ended, ?_, ?_⟩
  · have words : Text.words "mem 200 205\n" = ["mem", "200", "205"] := by decide
    exact reply_of_command (ofLine_of_memory words begun ended) nofun
  · rintro ⟨starts, dumped, shown⟩
    have lines := dumped.printed
    have single : '\n' ∉ dumpHead.toList := by decide
    have nothing : Text.printed "" = [[]] := rfl
    rw [← String.append_empty (s := closed dumpHead), printed_closed_append single, nothing] at lines
    obtain ⟨start, row, -⟩ := shown 0x200 (by decide) (by decide)
    rcases starts with _ | ⟨first, others⟩
    · cases row
    · simp at lines

/-! ## Listings -/

def listingLine (m : Machine) (a : Address) : List Char :=
  let word := Word.ofBytes (m.memory.read a) (m.memory.read (a.advance 1))
  (a.text ++ (if a = m.pc then " [=]" else "") ++ "\t" ++ word.text ++ "\t" ++
    word.disassembly).toList

def isMarked (line : List Char) : Bool :=
  " [=]".toList.isPrefixOf (line.drop 3)

theorem length_text_address (a : Address) : a.text.toList.length = 3 := by
  have digits := (Address.toWord a).toList_text_address
  rw [Word.address, Address.ofWord_toWord] at digits
  rw [digits]
  rfl

theorem isMarked_listingLine (m : Machine) (a : Address) :
    isMarked (listingLine m a) = decide (a = m.pc) := by
  unfold isMarked listingLine
  simp only [String.toList_append, List.append_assoc]
  rw [List.drop_append_of_le_length (by rw [length_text_address]),
    List.drop_of_length_le (by rw [length_text_address]), List.nil_append]
  split
  · next current => simp [current]
  · next other =>
    rw [decide_eq_false other]
    rfl

theorem newline_not_mem_listingLine (m : Machine) (a : Address) : '\n' ∉ listingLine m a := by
  unfold listingLine Address.text Word.text
  simp only [String.toList_append, List.mem_append, not_or]
  refine ⟨⟨⟨⟨⟨Numeral.newline_not_mem_hex 3 _, ?_⟩, by decide⟩, Numeral.newline_not_mem_hex 4 _⟩,
    by decide⟩, Word.newline_not_mem_disassembly _⟩
  split <;> decide

def wordsFrom (start stop : Nat) : List Address :=
  (List.range ((stop - start + 1) / 2)).map fun k => .ofNat (start + 2 * k)

theorem text_listed (m : Machine) {a : Nat} (inside : a < 4096) :
    ListingLine.text ⟨a, a == m.pc.val, m.memory.readWord (.ofNat a)⟩ =
      String.ofList (listingLine m (.ofNat a)) := by
  have value : (Address.ofNat a).val = a := Nat.mod_eq_of_lt inside
  have current : (a == m.pc.val) = decide (Address.ofNat a = m.pc) := by
    simp only [beq_eq_decide, Fin.ext_iff, value]
  unfold listingLine ListingLine.text Memory.readWord Address.text
  simp only [value, current, decide_eq_true_eq, String.ofList_toList]

theorem printed_listingLines (m : Machine) {start stop : Nat} (inside : stop ≤ 4096) :
    Text.printed (String.join ((listingLines m start stop).map fun line => closed line.text)) =
      (wordsFrom start stop).map (listingLine m) ++ [[]] := by
  have lines : (listingLines m start stop).map (fun line => closed line.text) =
      ((wordsFrom start stop).map fun a => String.ofList (listingLine m a)).map closed := by
    unfold listingLines wordsFrom
    simp only [List.map_map]
    apply List.map_congr_left
    intro k below
    rw [List.mem_range] at below
    exact congrArg closed (text_listed m (by omega))
  rw [lines, printed_join_closed]
  · simp
  · simp [newline_not_mem_listingLine]

theorem mem_wordsFrom {start stop : Nat} (inside : stop ≤ 4096) {a : Address} :
    a ∈ wordsFrom start stop ↔ start ≤ a.val ∧ a.val < stop ∧ (a.val - start) % 2 = 0 := by
  unfold wordsFrom
  simp only [List.mem_map, List.mem_range, Fin.ext_iff, Address.val_ofNat]
  constructor
  · rintro ⟨k, below, same⟩
    omega
  · rintro ⟨low, high, even⟩
    exact ⟨(a.val - start) / 2, by omega, by omega⟩

theorem nodup_wordsFrom {start stop : Nat} (inside : stop ≤ 4096) :
    (wordsFrom start stop).Nodup := by
  unfold wordsFrom
  apply List.Nodup.map_on
  · intro j first k second same
    have := congrArg Fin.val same
    simp only [List.mem_range, Address.val_ofNat] at first second this
    omega
  · exact List.nodup_range

theorem isChain_wordsFrom {start stop : Nat} (inside : stop ≤ 4096) :
    (wordsFrom start stop).IsChain fun a b => b.val = a.val + 2 := by
  unfold wordsFrom
  rw [List.isChain_iff_getElem]
  intro k below
  simp only [List.length_map, List.length_range] at below
  simp only [List.getElem_map, List.getElem_range, Address.val_ofNat]
  omega

/-- The program counter is among the words that a listing without a range shows, unless it is one of
the two odd addresses that are less than two words from zero. -/
theorem count_pc (pc : Address) :
    (wordsFrom (pc.val - 4) (min (pc.val - 4 + 0x10) 4096)).count pc =
      if pc.val = 1 ∨ pc.val = 3 then 0 else 1 := by
  have inside : min (pc.val - 4 + 0x10) 4096 ≤ 4096 := by omega
  rw [(nodup_wordsFrom inside).count]
  simp only [mem_wordsFrom inside]
  split <;> split <;> omega

theorem printed_listing (m : Machine) :
    Text.printed (listingText m none 0) =
      (wordsFrom (m.pc.val - 4) (min (m.pc.val - 4 + 0x10) 4096)).map (listingLine m) ++ [[]] := by
  have bounds : listingBounds m none 0 = (m.pc.val - 4, min (m.pc.val - 4 + 0x10) 4096) := by
    unfold listingBounds
    simp [Memory.size]
  unfold listingText
  rw [bounds]
  exact printed_listingLines m (by omega)

theorem countP_isMarked_listing (m : Machine) :
    (Text.printed (listingText m none 0)).countP isMarked =
      if m.pc.val = 1 ∨ m.pc.val = 3 then 0 else 1 := by
  have marks : isMarked ∘ listingLine m = fun a => a == m.pc := by
    funext a
    rw [Function.comp_apply, isMarked_listingLine]
    rfl
  have unmarked : [([] : List Char)].countP isMarked = 0 := rfl
  rw [printed_listing, List.countP_append, List.countP_map, marks, unmarked, Nat.add_zero,
    ← List.count_eq_countP]
  exact count_pc m.pc

theorem reply_of_listing (read : Reader) (m : Machine) {line : String}
    (words : Text.words line = ["dasm"]) :
    reply read m line = .answer (listingText m none 0) m := by
  have parsed : Command.ofLine line = .ok (some (.listing none 0)) :=
    Command.ofLine_of_words words
  exact reply_of_command parsed nofun

/-- **Listing around the program counter.** A listing without a range has eight lines at most, for
words one behind the other within memory, each with the address, the word and its text. Unless the
program counter is 1 or 3, just one line is marked, which is that of the program counter; in these two
cases none is. -/
theorem listing_around_pc (read : Reader) (m : Machine) {line : String}
    (words : Text.words line = ["dasm"]) :
    ∃ (text : String) (addresses : List Address), reply read m line = .answer text m ∧
      Text.printed text = addresses.map (listingLine m) ++ [[]] ∧
      addresses.length ≤ 8 ∧ (addresses.IsChain fun a b => b.val = a.val + 2) ∧
      (∀ a ∈ addresses, isMarked (listingLine m a) ↔ a = m.pc) ∧
      (Text.printed text).countP isMarked = if m.pc.val = 1 ∨ m.pc.val = 3 then 0 else 1 := by
  have inside : min (m.pc.val - 4 + 0x10) 4096 ≤ 4096 := by omega
  refine ⟨listingText m none 0, wordsFrom (m.pc.val - 4) (min (m.pc.val - 4 + 0x10) 4096),
    reply_of_listing read m words, printed_listing m, ?_, isChain_wordsFrom inside, ?_,
    countP_isMarked_listing m⟩
  · unfold wordsFrom
    rw [List.length_map, List.length_range]
    omega
  · intro a _
    rw [isMarked_listingLine, decide_eq_true_iff]

theorem listing_around_pc_at_end :
    let m := (Machine.start {} 0).setPc 0xFFF
    ∃ text, reply (fun _ => .error .notFound) m " dasm \n" = .answer text m ∧
      (Text.printed text).countP isMarked = 1 := by
  intro m
  have words : Text.words " dasm \n" = ["dasm"] := by decide
  obtain ⟨text, _, replied, -, -, -, -, marked⟩ :=
    listing_around_pc (fun _ => .error .notFound) m words
  exact ⟨text, replied, marked⟩

/-- A program that jumps to address one is listed with no line marked. -/
theorem listing_misses_pc :
    let m := ((Machine.start {} 0).loadWords [0x1001]).step
    m.pc.val = 1 ∧ ∃ text, reply (fun _ => .error .notFound) m "dasm\n" = .answer text m ∧
      (Text.printed text).countP isMarked ≠ 1 := by
  intro m
  have jumped : m.pc.val = 1 := by decide +kernel
  have words : Text.words "dasm\n" = ["dasm"] := by decide
  refine ⟨jumped, _, reply_of_listing _ m words, ?_⟩
  rw [countP_isMarked_listing, if_pos (Or.inl jumped)]
  decide

end Debugger

end Chip8
