import ChomskyChart.Text.Blank
import ChomskyChart.Text.Lines
import Mathlib.Data.List.Basic

namespace ChomskyChart.Text

section Words

theorem words_append_blank {c : Char} (hblank : isBlank c = true)
    (first rest : List Char) :
    words (first ++ c :: rest) = words first ++ words rest := by
  rw [words, List.splitOnP_append_cons first rest hblank, List.filter_append]
  rfl

theorem symbols_append_blank {c : Char} (hblank : isBlank c = true)
    (first rest : List Char) :
    symbols (first ++ c :: rest) = symbols first ++ symbols rest := by
  rw [symbols, words_append_blank hblank, List.map_append]
  rfl

def IsWord (symbol : String) : Prop :=
  symbol ≠ "" ∧ ∀ c ∈ symbol.toList, isBlank c = false

instance (symbol : String) : Decidable (IsWord symbol) :=
  -- by the characters of the symbol, not by trying all characters there are
  have : Decidable (∀ c ∈ symbol.toList, isBlank c = false) :=
      List.decidableBAll _ _
  inferInstanceAs (Decidable (_ ∧ _))

theorem IsWord.toList_ne_nil {symbol : String} (hword : IsWord symbol) :
    symbol.toList ≠ [] := by
  intro hnil
  exact hword.1 (String.toList_eq_nil_iff.mp hnil)

theorem IsWord.pair {left right : String} (hleft : IsWord left)
    (hright : IsWord right) :
    IsWord (left ++ "," ++ right) := by
  have htext :
      (left ++ "," ++ right).toList = left.toList ++ ',' :: right.toList := by
    simp
  refine ⟨?_, ?_⟩
  · intro hnil
    rw [hnil] at htext
    simp at htext
  · intro c hc
    rw [htext, List.mem_append, List.mem_cons] at hc
    rcases hc with hc | rfl | hc
    · exact hleft.2 c hc
    · decide
    · exact hright.2 c hc

theorem words_unbroken {text : List Char} (hne : text ≠ [])
    (hunbroken : ∀ c ∈ text, isBlank c = false) : words text = [text] := by
  rw [words, List.splitOnP_eq_singleton hunbroken]
  simp [hne]

theorem symbols_word {symbol : String} (hword : IsWord symbol) :
    symbols symbol.toList = [symbol] := by
  rw [symbols, words_unbroken hword.toList_ne_nil hword.2, List.map_singleton,
    String.ofList_toList]

theorem symbols_word_append {symbol : String} (hword : IsWord symbol) {c : Char}
    (hblank : isBlank c = true) (rest : List Char) :
    symbols (symbol.toList ++ c :: rest) = symbol :: symbols rest := by
  rw [symbols_append_blank hblank, symbols_word hword]
  rfl

theorem symbols_spaced (texts : List String) :
    symbols (" ".intercalate texts).toList = texts.flatMap fun text =>
      symbols text.toList := by
  induction texts with
  | nil => rfl
  | cons text rest ih =>
      cases rest with
      | nil => simp
      | cons next others =>
          have htext : (" ".intercalate (text :: next :: others)).toList =
              text.toList ++ ' ' :: (" ".intercalate (next :: others)).toList := by
            simp
          rw [htext, symbols_append_blank (by decide), ih]
          rfl

theorem symbols_intercalate {listed : List String}
    (hwords : ∀ symbol ∈ listed, IsWord symbol) :
    symbols (" ".intercalate listed).toList = listed := by
  rw [symbols_spaced,
    List.flatMap_congr fun symbol hsymbol => symbols_word (hwords symbol hsymbol)]
  exact List.flatMap_singleton' listed

end Words

section Lines

def Unbroken (text : String) : Prop :=
  ∀ c ∈ text.toList, c ≠ '\n' ∧ c ≠ '\r'

instance (text : String) : Decidable (Unbroken text) :=
  List.decidableBAll _ _

def Solid (text : String) : Prop :=
  ∀ c ∈ text.toList, isBlank c = false

instance (text : String) : Decidable (Solid text) :=
  List.decidableBAll _ _

theorem Solid.unbroken {text : String} (hsolid : Solid text) : Unbroken text := by
  intro c hc
  have hblank := hsolid c hc
  refine ⟨?_, ?_⟩
  · intro heq
    rw [heq] at hblank
    exact absurd hblank (by decide)
  · intro heq
    rw [heq] at hblank
    exact absurd hblank (by decide)

theorem IsWord.unbroken {symbol : String} (hword : IsWord symbol) :
    Unbroken symbol := Solid.unbroken hword.2

theorem Unbroken.append {first second : String} (hfirst : Unbroken first)
    (hsecond : Unbroken second) : Unbroken (first ++ second) := by
  intro c hc
  rw [String.toList_append, List.mem_append] at hc
  rcases hc with hc | hc
  · exact hfirst c hc
  · exact hsecond c hc

theorem forall_mem_intercalate {test : Char → Prop} {separator : String}
    {texts : List String} (hseparator : ∀ c ∈ separator.toList, test c)
    (htexts : ∀ text ∈ texts, ∀ c ∈ text.toList, test c) :
    ∀ c ∈ (separator.intercalate texts).toList, test c := by
  induction texts with
  | nil => simp
  | cons text rest ih =>
      obtain ⟨htext, hothers⟩ := List.forall_mem_cons.mp htexts
      have hrest := ih hothers
      cases rest with
      | nil => exact htext
      | cons next others =>
          intro c hc
          rw [String.intercalate_cons_cons, String.toList_append,
            String.toList_append, List.mem_append, List.mem_append] at hc
          rcases hc with (hmem | hmem) | hmem
          · exact htext c hmem
          · exact hseparator c hmem
          · exact hrest c hmem

theorem Unbroken.intercalate {separator : String} {texts : List String}
    (hseparator : Unbroken separator) (htexts : ∀ text ∈ texts, Unbroken text) :
    Unbroken (separator.intercalate texts) :=
  forall_mem_intercalate hseparator htexts

theorem unlines_append (first second : List String) :
    unlines (first ++ second) = unlines first ++ unlines second := by
  rw [unlines, List.map_append, String.join_append]
  rfl

theorem splitOn_unlines {texts : List String}
    (htexts : ∀ text ∈ texts, Unbroken text) :
    (unlines texts).toList.splitOn '\n' = texts.map String.toList ++ [[]] := by
  induction texts with
  | nil => rfl
  | cons text rest ih =>
      have htext := htexts text List.mem_cons_self
      have hrest :=
        ih fun other hother => htexts other (List.mem_cons_of_mem _ hother)
      have happend : (unlines (text :: rest)).toList =
          text.toList ++ '\n' :: (unlines rest).toList := by
        simp [unlines]
      have hfeed : '\n' ∉ text.toList := fun hmem => (htext _ hmem).1 rfl
      rw [happend, List.splitOn_append_cons_self_of_not_mem hfeed, hrest]
      rfl

theorem withoutReturn_of_unbroken {text : String} (htext : Unbroken text) :
    withoutReturn '\r' text.toList = text.toList := by
  rw [withoutReturn, if_neg]
  intro hlast
  exact (htext _ (List.mem_of_getLast? hlast)).2 rfl

theorem lines_unlines {texts : List String}
    (htexts : ∀ text ∈ texts, Unbroken text) :
    lines (unlines texts).toList = texts.map String.toList := by
  have hkept : (texts.map String.toList).map (withoutReturn '\r') =
      texts.map String.toList := by
    rw [List.map_map]
    apply List.map_congr_left
    intro text hmem
    exact withoutReturn_of_unbroken (htexts text hmem)
  rw [lines, linesAt, splitOn_unlines htexts]
  simp [hkept]

end Lines

end ChomskyChart.Text
