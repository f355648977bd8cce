import Chip8.Debugger.Listing

/-!
# Printed lines

A text is read off line by line. Main statement: lines that are closed one after the other are read
as they were written.
-/

namespace Chip8

namespace Text

/-- The lines of a text: what stands before, between and behind its line feeds. -/
def printed (text : String) : List (List Char) :=
  text.toList.splitOn '\n'

theorem printed_intercalate {lines : List String} (written : lines ≠ [])
    (single : ∀ line ∈ lines, '\n' ∉ line.toList) :
    printed (String.intercalate "\n" lines) = lines.map String.toList := by
  unfold printed
  rw [String.toList_intercalate]
  apply List.splitOn_intercalate
  · simpa using single
  · simpa using written

end Text

namespace Debugger

open Text

theorem printed_closed_append {line : String} (single : '\n' ∉ line.toList) (rest : String) :
    printed (closed line ++ rest) = line.toList :: printed rest := by
  unfold printed closed
  rw [String.toList_append, String.toList_append, List.append_assoc]
  exact List.splitOn_append_cons_self_of_not_mem single rest.toList

theorem printed_join_closed {lines : List String} (single : ∀ line ∈ lines, '\n' ∉ line.toList) :
    printed (String.join (lines.map closed)) = lines.map String.toList ++ [[]] := by
  induction lines with
  | nil => rfl
  | cons line lines ih =>
    rw [List.forall_mem_cons] at single
    rw [List.map_cons, String.join_cons, printed_closed_append single.1, ih single.2]
    rfl

/-- To open each line but the first by a line feed, and to close the last, is to close them all. -/
theorem closed_append_join (first : String) (rest : List String) :
    closed (first ++ String.join (rest.map ("\n" ++ ·))) =
      String.join ((first :: rest).map closed) := by
  induction rest generalizing first with
  | nil => simp
  | cons next rest ih =>
    show _ = String.join (closed first :: (next :: rest).map closed)
    rw [String.join_cons, ← ih, List.map_cons, String.join_cons]
    unfold closed
    simp only [String.append_assoc]

end Debugger

end Chip8
