import ChomskyChart.Proofs.RuleLine

namespace ChomskyChart

namespace Text

/-- A text is without blanks, or it is two texts with a blank between them. -/
@[elab_as_elim]
theorem blankInduction {holds : List Char → Prop}
    (unbroken : ∀ text, (∀ c ∈ text, isBlank c = false) → holds text)
    (broken : ∀ first c rest, isBlank c = true → holds first → holds rest →
      holds (first ++ c :: rest))
    (text : List Char) : holds text := by
  induction hlength : text.length using Nat.strongRecOn generalizing text with
  | ind length ih =>
      by_cases hbroken : ∀ c ∈ text, isBlank c = false
      · exact unbroken text hbroken
      · simp only [not_forall, Bool.not_eq_false] at hbroken
        obtain ⟨c, hmem, hblank⟩ := hbroken
        obtain ⟨first, rest, rfl⟩ := List.append_of_mem hmem
        rw [List.length_append, List.length_cons] at hlength
        exact broken first c rest hblank (ih first.length (by omega) first rfl)
          (ih rest.length (by omega) rest rfl)

theorem not_isBlank_of_mem_words {text word : List Char}
    (hword : word ∈ words text) :
    ∀ c ∈ word, isBlank c = false := by
  induction text using blankInduction with
  | unbroken text hunbroken =>
      by_cases hne : text = []
      · rw [hne, words_nil] at hword
        cases hword
      · rw [words_unbroken hne hunbroken] at hword
        rw [List.mem_singleton.mp hword]
        exact hunbroken
  | broken first c rest hblank ihFirst ihRest =>
      rw [words_append_blank hblank] at hword
      rcases List.mem_append.mp hword with hfirst | hrest
      · exact ihFirst hfirst
      · exact ihRest hrest

theorem words_eq_nil {text : List Char} (hblanks : ∀ c ∈ text, isBlank c = true) :
    words text = [] := by
  induction text with
  | nil => rfl
  | cons c rest ih =>
      obtain ⟨hblank, hrest⟩ := List.forall_mem_cons.mp hblanks
      rw [words_blank_cons hblank, ih hrest]

theorem words_eq_map_symbols (text : List Char) :
    words text = (symbols text).map String.toList := by
  rw [symbols, List.map_map]
  exact (List.map_id'' (fun word => String.toList_ofList) _).symm

theorem isWord_of_mem_symbols {text : List Char} {symbol : String}
    (hsymbol : symbol ∈ symbols text) : IsWord symbol := by
  obtain ⟨word, hword, rfl⟩ := List.mem_map.mp hsymbol
  refine ⟨?_, ?_⟩
  · intro hnil
    exact ne_nil_of_mem_words hword (String.ofList_eq_empty_iff.mp hnil)
  · rw [String.toList_ofList]
    exact not_isBlank_of_mem_words hword

def respaced (text : List Char) : List Char :=
  (" ".intercalate (symbols text)).toList

theorem words_respaced (text : List Char) : words (respaced text) = words text := by
  rw [words_eq_map_symbols, words_eq_map_symbols, respaced,
    symbols_intercalate fun _ => isWord_of_mem_symbols]

end Text

namespace Source.Token

theorem Separate.takeWhile_append {rest : List Char} (hseparate : Separate rest)
    (first : List Char) :
    (first ++ rest).takeWhile inWord = first.takeWhile inWord := by
  induction first with
  | nil => exact hseparate.takeWhile
  | cons c others ih =>
      rw [List.cons_append, List.takeWhile_cons, List.takeWhile_cons, ih]

theorem Separate.dropWhile_append {rest : List Char} (hseparate : Separate rest)
    (first : List Char) :
    (first ++ rest).dropWhile inWord = first.dropWhile inWord ++ rest := by
  induction first with
  | nil => exact hseparate.dropWhile
  | cons c others ih =>
      rw [List.cons_append, List.dropWhile_cons, List.dropWhile_cons, ih]
      split
      · rfl
      · rfl

theorem scan_append_blank {c : Char} (hblank : Text.isBlank c = true)
    (first rest : List Char) :
    scan (first ++ c :: rest) = scan first ++ scan rest := by
  have hseparate : Separate (c :: rest) := by
    intro other hother
    cases hother
    simp [inWord, hblank]
  induction first using scan.induct with
  | case1 => rw [List.nil_append, scan_blank_cons hblank, scan, List.nil_append]
  | case2 others ih =>
      rw [List.cons_append, scan_bar_cons, scan_bar_cons, ih, List.cons_append]
  | case3 b others _ hfirst ih =>
      rw [List.cons_append, scan_blank_cons hfirst, scan_blank_cons hfirst, ih]
  | case4 b others hbar hfirst ih =>
      rw [List.cons_append, scan, if_neg hbar, if_neg hfirst, scan, if_neg hbar,
        if_neg hfirst, hseparate.takeWhile_append, hseparate.dropWhile_append, ih,
        List.cons_append]

theorem scan_eq_flatMap_words (text : List Char) :
    scan text = (Text.words text).flatMap scan := by
  induction text using Text.blankInduction with
  | unbroken text hunbroken =>
      by_cases hne : text = []
      · rw [hne, scan, Text.words_nil, List.flatMap_nil]
      · rw [Text.words_unbroken hne hunbroken, List.flatMap_singleton]
  | broken first c rest hblank ihFirst ihRest =>
      rw [scan_append_blank hblank, Text.words_append_blank hblank,
        List.flatMap_append, ihFirst, ihRest]

end Source.Token

namespace Vocabulary

theorem lineRule_congr (vocabulary : Vocabulary) {first second : List Char}
    (hwords : Text.words first = Text.words second) :
    vocabulary.lineRule first = vocabulary.lineRule second := by
  have hsymbols : Text.symbols first = Text.symbols second := by
    rw [Text.symbols, Text.symbols, hwords]
  rw [lineRule, lineRule, lineTokens, lineTokens, isArrowForm, isArrowForm,
    hsymbols, Source.Token.scan_eq_flatMap_words, hwords,
    ← Source.Token.scan_eq_flatMap_words]

end Vocabulary

end ChomskyChart
