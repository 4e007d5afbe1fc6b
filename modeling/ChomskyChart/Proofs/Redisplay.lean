import ChomskyChart.CommandLine.Arguments
import ChomskyChart.Proofs.Spacing
import Mathlib.Data.List.Forall2

namespace ChomskyChart

section Letters

variable {c letter : Char}

theorem small_bounds (hsmall : letter.isLower = true) :
    'a'.val ≤ letter.val ∧ letter.val ≤ 'z'.val := by
  obtain ⟨hleast, hgreatest⟩ := Bool.and_eq_true_iff.mp hsmall
  exact ⟨of_decide_eq_true hleast, of_decide_eq_true hgreatest⟩

theorem toNat_toUpper (hsmall : letter.isLower = true) :
    letter.toUpper.toNat + 32 = letter.toNat := by
  have hbounds := small_bounds hsmall
  have hbound : 97 ≤ letter.toNat := hbounds.1
  have hsize : letter.toNat < 4294967296 := letter.val.toNat_lt
  have hcapital : letter.toUpper = _ := dif_pos hbounds
  rw [hcapital, Char.toNat, UInt32.toNat_add]
  change (letter.toNat + 4294967264) % 4294967296 + 32 = letter.toNat
  omega

theorem toNat_toLower (c : Char) :
    c.toLower.toNat =
      if 65 ≤ c.toNat ∧ c.toNat ≤ 90 then c.toNat + 32 else c.toNat := by
  by_cases hcapital : 65 ≤ c.toNat ∧ c.toNat ≤ 90
  · have hsmall : c.toLower = _ := dif_pos hcapital
    rw [if_pos hcapital, hsmall, Char.toNat, UInt32.toNat_add]
    change (c.toNat + 32) % 4294967296 = c.toNat + 32
    omega
  · have hsame : c.toLower = c := dif_neg hcapital
    rw [if_neg hcapital, hsame]

theorem toLower_eq_iff (hsmall : letter.isLower = true) :
    c.toLower = letter ↔ c = letter ∨ c = letter.toUpper := by
  have hbounds : 97 ≤ letter.toNat ∧ letter.toNat ≤ 122 := small_bounds hsmall
  have hcapital := toNat_toUpper hsmall
  rw [← Char.toNat_inj, ← Char.toNat_inj, ← Char.toNat_inj, toNat_toLower]
  split
  · omega
  · omega

theorem map_toLower_eq_iff {text letters : List Char}
    (hsmall : ∀ letter ∈ letters, letter.isLower = true) :
    text.map Char.toLower = letters ↔
      List.Forall₂
        (fun c letter => c = letter ∨ c = letter.toUpper) text letters := by
  induction letters generalizing text with
  | nil => rw [List.map_eq_nil_iff, List.forall₂_nil_right_iff]
  | cons letter letters ih =>
      obtain ⟨hletter, hletters⟩ := List.forall_mem_cons.mp hsmall
      cases text with
      | nil => simp
      | cons c text =>
          rw [List.map_cons, List.cons.injEq, toLower_eq_iff hletter, ih hletters,
            List.forall₂_cons]

end Letters

/-- The name of the empty word, each of its letters small or capital. -/
def NamesEmpty (word : String) : Prop :=
  List.Forall₂
    (fun c letter => c = letter ∨ c = letter.toUpper) word.toList emptyWord.toList

theorem isEmptyWord_iff {word : String} :
    isEmptyWord word = true ↔ NamesEmpty word := by
  rw [isEmptyWord, decide_eq_true_iff]
  have hsmall : emptyWord.toList.all Char.isLower = true := by decide
  exact map_toLower_eq_iff (List.all_eq_true.mp hsmall)

namespace Text

theorem flatten_words (text : List Char) :
    (words text).flatten = text.filter fun c => !isBlank c := by
  induction text using blankInduction with
  | unbroken text hunbroken =>
      rw [List.filter_eq_self.mpr (by simpa using hunbroken)]
      by_cases hne : text = []
      · rw [hne, words_nil, List.flatten_nil]
      · rw [words_unbroken hne hunbroken, List.flatten_singleton]
  | broken first c rest hblank ihFirst ihRest =>
      rw [words_append_blank hblank, List.flatten_append, ihFirst, ihRest,
        List.filter_append, List.filter_cons_of_neg (by simp [hblank])]

theorem flatMap_toList_symbols (text : List Char) :
    (symbols text).flatMap String.toList = text.filter fun c => !isBlank c := by
  rw [List.flatMap_def, ← words_eq_map_symbols, flatten_words]

end Text

namespace TokenMode

variable {word : String}

theorem tokenize_characters (hnamed : ¬ NamesEmpty word) :
    characters.tokenize word = word.toList.map String.singleton :=
  if_neg (mt isEmptyWord_iff.mp hnamed)

theorem tokenize_characters_of_namesEmpty (hnamed : NamesEmpty word) :
    characters.tokenize word = [] :=
  if_pos (isEmptyWord_iff.mpr hnamed)

theorem tokenize_characters_eq_nil_iff :
    characters.tokenize word = [] ↔ word = "" ∨ NamesEmpty word := by
  by_cases hnamed : NamesEmpty word
  · exact iff_of_true (tokenize_characters_of_namesEmpty hnamed) (.inr hnamed)
  · rw [tokenize_characters hnamed, List.map_eq_nil_iff, String.toList_eq_nil_iff]
    exact (or_iff_left hnamed).symm

theorem tokenize_characters_of_ne_nil (hne : characters.tokenize word ≠ []) :
    characters.tokenize word = word.toList.map String.singleton := by
  apply tokenize_characters
  intro hnamed
  exact hne (tokenize_characters_of_namesEmpty hnamed)

theorem join_singletons (word : String) :
    String.join (word.toList.map String.singleton) = word := by
  apply String.toList_inj.mp
  simp [List.flatMap_map]

theorem tokenize_wordText_characters (hne : characters.tokenize word ≠ []) :
    characters.tokenize (characters.wordText (characters.tokenize word)) =
      characters.tokenize word := by
  have hshown : characters.wordText (characters.tokenize word) = word := by
    rw [wordText, if_neg hne, tokenize_characters_of_ne_nil hne]
    exact join_singletons word
  rw [hshown]

theorem tokenize_wordText_words (hne : words.tokenize word ≠ []) :
    words.tokenize (words.wordText (words.tokenize word)) =
      words.tokenize word := by
  rw [wordText, if_neg hne]
  exact Text.symbols_intercalate fun _ => Text.isWord_of_mem_symbols

end TokenMode

namespace Arguments

def SplitsWords (arguments : Arguments) : Prop :=
  arguments.tokens = true ∨ 2 ≤ arguments.words.length

instance (arguments : Arguments) : Decidable arguments.SplitsWords :=
  inferInstanceAs (Decidable (_ ∨ _))

def separateWords (arguments : Arguments) : List String :=
  arguments.words.flatMap fun text => Text.symbols text.toList

variable {arguments : Arguments}

theorem SplitsWords.mode_eq (hsplits : arguments.SplitsWords) :
    arguments.mode = .words := by
  apply if_pos
  simpa [SplitsWords, Nat.lt_iff_add_one_le] using hsplits

theorem SplitsWords.tokenize_eq (hsplits : arguments.SplitsWords) :
    arguments.mode.tokenize arguments.word = arguments.separateWords := by
  rw [hsplits.mode_eq]
  exact Text.symbols_spaced arguments.words

end Arguments

namespace TokenMode

/-- A word that has tokens has the same tokens when it is read as it is shown.
Words as tokens are what stands between blanks; characters as tokens are those
of the word, unless it is empty or names the empty word. Several arguments, or
one that is to be split, have the words of each for tokens, however these are
divided among them. -/
theorem tokens_stable :
    (∀ (mode : TokenMode) (word : String), mode.tokenize word ≠ [] →
      mode.tokenize (mode.wordText (mode.tokenize word)) = mode.tokenize word) ∧
    (∀ word : String, (∀ token ∈ words.tokenize word, Text.IsWord token) ∧
      (words.tokenize word).flatMap String.toList =
        word.toList.filter fun c => !Text.isBlank c) ∧
    (∀ word : String,
      (characters.tokenize word = [] ↔ word = "" ∨ NamesEmpty word) ∧
      (characters.tokenize word ≠ [] →
        characters.tokenize word = word.toList.map String.singleton)) ∧
    (∀ arguments : Arguments, arguments.SplitsWords →
      arguments.mode.tokenize arguments.word = arguments.separateWords) ∧
    ∀ first second : Arguments, first.SplitsWords → second.SplitsWords →
      first.separateWords = second.separateWords →
      first.mode.tokenize first.word = second.mode.tokenize second.word := by
  refine ⟨?_, ?_, ?_, fun _ => Arguments.SplitsWords.tokenize_eq, ?_⟩
  · intro mode word hne
    cases mode with
    | characters => exact tokenize_wordText_characters hne
    | words => exact tokenize_wordText_words hne
  · intro word
    exact ⟨fun _ => Text.isWord_of_mem_symbols,
      Text.flatMap_toList_symbols word.toList⟩
  · intro word
    exact ⟨tokenize_characters_eq_nil_iff, tokenize_characters_of_ne_nil⟩
  · intro first second hfirst hsecond hwords
    rw [hfirst.tokenize_eq, hsecond.tokenize_eq, hwords]

def twoArguments : Arguments :=
  ⟨"g.cnf", ["the\t", "\u00A0dog  barks"], false, false, none, List.cons_ne_nil _ _⟩

def oneArgument : Arguments :=
  ⟨"g.cnf", [" the\u3000dog barks\n"], true, false, none, List.cons_ne_nil _ _⟩

theorem tokens_stable_samples :
    (characters.tokenize "épS" ≠ [] ∧
      characters.tokenize (characters.wordText (characters.tokenize "épS")) =
        ["é", "p", "S"]) ∧
    (words.tokenize "\u3000id +\tid " ≠ [] ∧
      words.tokenize (words.wordText (words.tokenize "\u3000id +\tid ")) =
        ["id", "+", "id"]) ∧
    (NamesEmpty "ePS" ∧ characters.tokenize "ePS" = []) ∧
    twoArguments.SplitsWords ∧ oneArgument.SplitsWords ∧
      twoArguments.separateWords = oneArgument.separateWords ∧
      twoArguments.mode.tokenize twoArguments.word = ["the", "dog", "barks"] ∧
      oneArgument.mode.tokenize oneArgument.word =
        twoArguments.mode.tokenize twoArguments.word := by
  obtain ⟨hshown, _, hcharacters, hsplit, hdivided⟩ := tokens_stable
  have hletters : characters.tokenize "épS" = ["é", "p", "S"] := by decide
  have hwords : words.tokenize "\u3000id +\tid " = ["id", "+", "id"] := by decide
  have hnamed : NamesEmpty "ePS" := isEmptyWord_iff.mp (by decide)
  have htwo : twoArguments.SplitsWords := by decide
  have hone : oneArgument.SplitsWords := by decide
  have hsame : twoArguments.separateWords = oneArgument.separateWords := by decide
  refine ⟨⟨by simp [hletters], ?_⟩, ⟨by simp [hwords], ?_⟩,
    ⟨hnamed, (hcharacters "ePS").1.mpr (.inr hnamed)⟩, htwo, hone, hsame, ?_,
    hdivided oneArgument twoArguments hone htwo hsame.symm⟩
  · exact (hshown characters "épS" (by simp [hletters])).trans hletters
  · exact (hshown words "\u3000id +\tid " (by simp [hwords])).trans hwords
  · exact (hsplit twoArguments htwo).trans (by decide)

end TokenMode

end ChomskyChart
