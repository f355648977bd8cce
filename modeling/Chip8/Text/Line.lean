/-!
# Lines of input

Input is a sequence of bytes, and a line ends with the line feed that closes it or with the input.
Main statements: no byte is lost, so the lines put together are the input; and the lines of a text are
texts.
-/

namespace Chip8.Text

def lineFeed : UInt8 := 10

/-- The lines of the input in order, each with its line feed; the last one may lack it. -/
def lines : List UInt8 → List (List UInt8)
  | [] => []
  | b :: rest =>
    if b = lineFeed then [b] :: lines rest
    else
      match lines rest with
      | [] => [[b]]
      | line :: others => (b :: line) :: others

def decode? (line : List UInt8) : Option String :=
  String.fromUTF8? line.toByteArray

@[simp] theorem flatten_lines (input : List UInt8) : (lines input).flatten = input := by
  induction input with
  | nil => rfl
  | cons b rest ih =>
    rw [lines]
    split
    · simp [ih]
    · cases h : lines rest <;> simp_all

theorem lines_of_mem_lines {input line : List UInt8} (member : line ∈ lines input) :
    lines line = [line] := by
  induction input generalizing line with
  | nil => cases member
  | cons b rest ih =>
    rw [lines] at member
    split at member
    · next closes =>
      rcases List.mem_cons.1 member with rfl | later
      · simp [lines, closes]
      · exact ih later
    · next more =>
      rcases split : lines rest with _ | ⟨first, others⟩ <;> rw [split] at ih member
      · rw [List.mem_singleton.1 member]
        simp [lines, more]
      · rcases List.mem_cons.1 member with rfl | later
        · simp [lines, more, ih (List.mem_cons_self ..)]
        · exact ih (List.mem_cons_of_mem _ later)

theorem ne_nil_of_mem_lines {input line : List UInt8} (member : line ∈ lines input) :
    line ≠ [] := by
  rintro rfl
  cases lines_of_mem_lines member

/-- Input whose last line is closed has its own lines, whatever follows it. -/
theorem lines_append {front : List UInt8} (closed : ∀ b ∈ front.getLast?, b = lineFeed)
    (back : List UInt8) : lines (front ++ back) = lines front ++ lines back := by
  induction front with
  | nil => rfl
  | cons b rest ih =>
    rw [List.cons_append, lines, lines]
    by_cases h : b = lineFeed
    · rw [if_pos h, if_pos h, List.cons_append]
      congr 1
      apply ih
      intro c last
      apply closed
      simp_all [List.getLast?_cons]
    · have more : rest ≠ [] := by
        rintro rfl
        exact h (closed b (by simp))
      have last : ∀ c ∈ rest.getLast?, c = lineFeed := by
        intro c last
        apply closed
        simp_all [List.getLast?_cons]
      rw [if_neg h, if_neg h, ih last]
      rcases split : lines rest with _ | ⟨line, others⟩
      · have whole := flatten_lines rest
        rw [split] at whole
        exact absurd whole.symm more
      · rfl

theorem lines_open_append {front : List UInt8} (some : front ≠ []) (h : lineFeed ∉ front)
    (back : List UInt8) :
    lines (front ++ back) =
      match lines back with
      | [] => [front]
      | line :: others => (front ++ line) :: others := by
  induction front with
  | nil => exact absurd rfl some
  | cons b rest ih =>
    simp only [List.mem_cons, not_or] at h
    rw [List.cons_append, lines, if_neg (Ne.symm h.1)]
    by_cases last : rest = []
    · subst last
      rfl
    · rw [ih last h.2]
      rcases lines back with _ | ⟨line, others⟩ <;> rfl

/-! ## Lines of a text -/

def encode (cs : List Char) : List UInt8 :=
  cs.flatMap String.utf8EncodeChar

theorem encode_cons (c : Char) (cs : List Char) :
    encode (c :: cs) = String.utf8EncodeChar c ++ encode cs := by
  unfold encode
  rw [List.flatMap_cons]

theorem isSome_decode?_iff (bytes : List UInt8) :
    (decode? bytes).isSome ↔ ∃ cs, bytes = encode cs := by
  unfold decode? String.fromUTF8?
  constructor
  · intro decodes
    split at decodes
    · next valid =>
      obtain ⟨cs, same⟩ := valid
      exact ⟨cs, List.toByteArray_inj.1 same⟩
    · simp at decodes
  · rintro ⟨cs, rfl⟩
    have valid : (encode cs).toByteArray.IsValidUTF8 := ⟨cs, rfl⟩
    rw [dif_pos valid]
    rfl

theorem lineFeed_not_mem_utf8EncodeChar {c : Char} (h : c ≠ '\n') :
    lineFeed ∉ String.utf8EncodeChar c := by
  have other : c.val.toNat ≠ 10 := by
    intro same
    exact h (Char.ext (UInt32.toNat.inj same))
  have byte (n : Nat) : lineFeed = UInt8.ofNat n → n % 256 = 10 := by
    intro same
    simpa [lineFeed] using (congrArg UInt8.toNat same).symm
  unfold String.utf8EncodeChar
  intro member
  -- All bytes of a longer encoding have their top bit set.
  simp only at member
  split at member
  · have := byte _ (List.mem_singleton.1 member)
    omega
  · split at member
    · simp only [List.mem_cons, List.not_mem_nil, or_false] at member
      rcases member with same | same <;> have := byte _ same <;> omega
    · split at member <;> simp only [List.mem_cons, List.not_mem_nil, or_false] at member
      · rcases member with same | same | same <;> have := byte _ same <;> omega
      · rcases member with same | same | same | same <;> have := byte _ same <;> omega

theorem exists_encode_of_mem_lines (cs : List Char) {line : List UInt8}
    (member : line ∈ lines (encode cs)) : ∃ ds, line = encode ds := by
  induction cs generalizing line with
  | nil => simp [encode, lines] at member
  | cons c rest ih =>
    rw [encode_cons] at member
    by_cases h : c = '\n'
    · subst h
      have closing : String.utf8EncodeChar '\n' = [lineFeed] := by decide
      rw [closing, List.singleton_append, lines, if_pos rfl] at member
      rcases List.mem_cons.1 member with rfl | later
      · exact ⟨['\n'], by decide⟩
      · exact ih later
    · rw [lines_open_append String.utf8EncodeChar_ne_nil (lineFeed_not_mem_utf8EncodeChar h)]
        at member
      rcases split : lines (encode rest) with _ | ⟨first, others⟩
      · rw [split] at member
        exact ⟨[c], by simpa [encode] using member⟩
      · rw [split] at ih member
        rcases List.mem_cons.1 member with rfl | later
        · obtain ⟨ds, same⟩ := ih (List.mem_cons_self ..)
          exact ⟨c :: ds, by rw [encode_cons, same]⟩
        · exact ih (List.mem_cons_of_mem _ later)

theorem isSome_decode?_of_mem_lines {input line : List UInt8} (valid : (decode? input).isSome)
    (member : line ∈ lines input) : (decode? line).isSome := by
  obtain ⟨cs, rfl⟩ := (isSome_decode?_iff input).1 valid
  exact (isSome_decode?_iff line).2 (exists_encode_of_mem_lines cs member)

end Chip8.Text
