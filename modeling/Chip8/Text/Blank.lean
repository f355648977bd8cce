/-!
# Blanks and words

The characters that separate words are those with the White_Space property, and words are the
longest runs without one.
-/

namespace Chip8.Text

/-- The first and last code points of each range of White_Space characters. -/
def blankRanges : List (Nat × Nat) :=
  [(0x09, 0x0D), (0x20, 0x20), (0x85, 0x85), (0xA0, 0xA0), (0x1680, 0x1680), (0x2000, 0x200A),
    (0x2028, 0x2029), (0x202F, 0x202F), (0x205F, 0x205F), (0x3000, 0x3000)]

def isBlank (c : Char) : Bool :=
  blankRanges.any fun (first, last) => first ≤ c.toNat && c.toNat ≤ last

/-- The words of a line. A character that is not blank opens a word of its own if a blank or the
end follows, and otherwise joins the word that starts right after it. -/
def splitWords : List Char → List (List Char)
  | [] => []
  | c :: rest =>
    if isBlank c then splitWords rest
    else if rest.head?.all isBlank then [c] :: splitWords rest
    else
      match splitWords rest with
      | [] => [[c]]
      | word :: words => (c :: word) :: words

def words (line : String) : List String :=
  (splitWords line.toList).map String.ofList

end Chip8.Text
