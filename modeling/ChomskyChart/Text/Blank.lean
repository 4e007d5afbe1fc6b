namespace ChomskyChart.Text

/-- The code points with the property `White_Space`, as closed ranges in
increasing order. -/
def blankRanges : List (Nat × Nat) :=
  [(0x0009, 0x000D), (0x0020, 0x0020), (0x0085, 0x0085), (0x00A0, 0x00A0),
    (0x1680, 0x1680), (0x2000, 0x200A), (0x2028, 0x2029), (0x202F, 0x202F),
    (0x205F, 0x205F), (0x3000, 0x3000)]

def isBlank (c : Char) : Bool :=
  blankRanges.any fun range => range.1 ≤ c.toNat && c.toNat ≤ range.2

example : (blankRanges.map fun range => range.2 + 1 - range.1).sum = 25 := by decide

example : isBlank '\u00A0' = true ∧ isBlank '\u200B' = false := by decide

def trimStart (text : List Char) : List Char :=
  text.dropWhile isBlank

def trimEnd (text : List Char) : List Char :=
  (text.reverse.dropWhile isBlank).reverse

def trim (text : List Char) : List Char :=
  trimEnd (trimStart text)

def words (text : List Char) : List (List Char) :=
  (text.splitOnP isBlank).filter fun piece => !piece.isEmpty

def symbols (text : List Char) : List String :=
  (words text).map String.ofList

@[simp] theorem words_nil : words [] = [] := rfl

theorem words_blank_cons {c : Char} (hblank : isBlank c = true) (rest : List Char) :
    words (c :: rest) = words rest := by
  simp [words, List.splitOnP_cons_eq_if_modifyHead, hblank]

theorem ne_nil_of_mem_words {text word : List Char} (hword : word ∈ words text) :
    word ≠ [] := by
  simp only [words, List.mem_filter, Bool.not_eq_true',
    List.isEmpty_eq_false_iff] at hword
  exact hword.2

theorem words_cons {c : Char} (hletter : isBlank c = false) (rest : List Char) :
    ∃ word others, words (c :: rest) = (c :: word) :: others := by
  obtain ⟨word, others, hsplit⟩ :=
    List.exists_cons_of_ne_nil (List.splitOnP_ne_nil isBlank rest)
  refine ⟨word, others.filter fun piece => !piece.isEmpty, ?_⟩
  rw [words, List.splitOnP_cons_eq_if_modifyHead, if_neg (by simp [hletter]),
    hsplit]
  simp

@[simp] theorem words_trimStart (text : List Char) :
    words (trimStart text) = words text := by
  induction text with
  | nil => rfl
  | cons c rest ih =>
      cases hblank : isBlank c with
      | true =>
          rw [trimStart, List.dropWhile_cons_of_pos hblank,
            words_blank_cons hblank, ← ih, trimStart]
      | false => rw [trimStart, List.dropWhile_cons_of_neg (by simp [hblank])]

theorem trimStart_cases (text : List Char) :
    trimStart text = [] ∨
      ∃ c rest, trimStart text = c :: rest ∧ isBlank c = false := by
  cases hletters : trimStart text with
  | nil => exact .inl rfl
  | cons c rest =>
      have hhead := List.head?_dropWhile_not isBlank text
      rw [← trimStart, hletters] at hhead
      exact .inr ⟨c, rest, rfl, hhead⟩

theorem head_words (text : List Char) :
    (words text).head?.bind List.head? = (trimStart text).head? := by
  rw [← words_trimStart]
  rcases trimStart_cases text with hnil | ⟨c, rest, hletters, hletter⟩
  · rw [hnil]
    rfl
  · obtain ⟨word, others, hwords⟩ := words_cons hletter rest
    rw [hletters, hwords]
    rfl

theorem trimEnd_cons_ne_nil {c : Char} (hletter : isBlank c = false)
    (rest : List Char) :
    trimEnd (c :: rest) ≠ [] := by
  rw [trimEnd, List.reverse_cons, List.dropWhile_append,
    List.dropWhile_cons_of_neg (by simp [hletter])]
  split
  · simp
  · simp

theorem trim_eq_nil_iff {text : List Char} : trim text = [] ↔ words text = [] := by
  rw [trim, ← words_trimStart]
  rcases trimStart_cases text with hnil | ⟨c, rest, hletters, hletter⟩
  · rw [hnil]
    exact ⟨fun _ => rfl, fun _ => rfl⟩
  · obtain ⟨word, others, hwords⟩ := words_cons hletter rest
    rw [hletters, hwords]
    simp [trimEnd_cons_ne_nil hletter]

end ChomskyChart.Text
