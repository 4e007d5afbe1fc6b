import ChomskyChart.Proofs.LineGrammar
import Mathlib.Data.List.TakeWhile

namespace ChomskyChart.Source.Token

variable {text rest : List Char} {given tokens : List Token} {count : Nat}

section Turns

/-- The word that the text begins with, and what comes after it. Before a blank or
a bar nothing is read, so the scanner has to see to it that there is a word. -/
def readWord (text : List Char) : Token × List Char :=
  (ofText (.ofList (text.takeWhile inWord)), text.dropWhile inWord)

def turn : List Char → Option (List Token × List Char)
  | [] => none
  | c :: rest =>
      if c = '|' then some ([bar], rest)
      else if Text.isBlank c then some ([], rest)
      else some ([(readWord (c :: rest)).1], (readWord (c :: rest)).2)

inductive Turns : Nat → List Char → List Token → Prop where
  | done : Turns 0 [] []
  | more {count : Nat} {text rest : List Char} {given tokens : List Token}
      (hturn : turn text = some (given, rest)) (hturns : Turns count rest tokens) :
      Turns (count + 1) text (given ++ tokens)

theorem turn_eq_none_iff : turn text = none ↔ text = [] := by
  cases text with
  | nil => exact iff_of_true rfl rfl
  | cons c rest =>
      apply iff_of_false
      · rw [turn]
        split_ifs
        · exact not_false
        · exact not_false
        · exact not_false
      · exact List.cons_ne_nil c rest

theorem inWord_iff {c : Char} :
    inWord c = true ↔ Text.isBlank c = false ∧ c ≠ '|' := by
  simp [inWord]

theorem readWord_cons {c : Char} (hletter : inWord c = true) (rest : List Char) :
    readWord (c :: rest) =
      (ofText (.ofList (c :: rest.takeWhile inWord)), rest.dropWhile inWord) := by
  rw [readWord, List.takeWhile_cons_of_pos hletter,
    List.dropWhile_cons_of_pos hletter]

theorem exists_of_turn (hturn : turn text = some (given, rest)) :
    ∃ c after, text = c :: after ∧ rest <:+ after ∧
    scan text = given ++ scan rest := by
  cases text with
  | nil => cases hturn
  | cons c after =>
      refine ⟨c, after, rfl, ?_⟩
      rw [turn] at hturn
      split_ifs at hturn with hbar hblank
      · cases hturn
        exact ⟨List.suffix_rfl, by rw [hbar, scan_bar_cons]; rfl⟩
      · cases hturn
        exact ⟨List.suffix_rfl, scan_blank_cons hblank rest⟩
      -- only here is a word read, and its first character is known to carry it
      · have hletter : inWord c = true :=
          inWord_iff.mpr ⟨by simpa using hblank, hbar⟩
        rw [readWord_cons hletter] at hturn
        cases hturn
        exact ⟨List.dropWhile_suffix inWord,
          by rw [scan, if_neg hbar, if_neg hblank]; rfl⟩

theorem length_lt_of_turn (hturn : turn text = some (given, rest)) :
    rest.length < text.length := by
  obtain ⟨c, after, rfl, hsuffix, _⟩ := exists_of_turn hturn
  exact Nat.lt_succ_of_le hsuffix.length_le

theorem suffix_of_turn (hturn : turn text = some (given, rest)) :
    rest <:+ text := by
  obtain ⟨c, after, rfl, hsuffix, _⟩ := exists_of_turn hturn
  exact hsuffix.trans (List.suffix_cons c after)

theorem Turns.eq_scan (hturns : Turns count text tokens) : tokens = scan text := by
  induction hturns with
  | done => rw [scan]
  | more hturn _ ih =>
      obtain ⟨_, _, _, _, hscan⟩ := exists_of_turn hturn
      rw [hscan, ih]

/-- By induction on the length of the text, which every turn lessens. -/
theorem exists_turns (text : List Char) :
    ∃ count ≤ text.length, Turns count text (scan text) := by
  induction hlength : text.length using Nat.strongRecOn generalizing text with
  | ind length ih =>
      cases hturn : turn text with
      | none =>
          rw [turn_eq_none_iff.mp hturn, scan]
          exact ⟨0, Nat.zero_le _, .done⟩
      | some taken =>
          obtain ⟨given, rest⟩ := taken
          have hless := length_lt_of_turn hturn
          obtain ⟨count, hcount, hturns⟩ := ih rest.length (by omega) rest rfl
          obtain ⟨_, _, _, _, hscan⟩ := exists_of_turn hturn
          rw [hscan]
          exact ⟨count + 1, by omega, .more hturn hturns⟩

end Turns

section Pieces

def ofPiece (piece : List Char) : List Token :=
  if piece = [] then [] else [ofText (.ofList piece)]

/-- The tokens of one word: those of its pieces, and a bar for every bar between
them. -/
def ofWord (word : String) : List Token :=
  [bar].intercalate ((word.toList.splitOn '|').map ofPiece)

theorem separate_bar (rest : List Char) : Separate ('|' :: rest) := by
  intro c hc
  cases hc
  decide

theorem scan_piece_append {piece : List Char}
    (hunbroken : ∀ c ∈ piece, Text.isBlank c = false) (hbar : '|' ∉ piece)
    (hseparate : Separate rest) :
    scan (piece ++ rest) = ofPiece piece ++ scan rest := by
  by_cases hne : piece = []
  · rw [hne, ofPiece, if_pos rfl, List.nil_append, List.nil_append]
  · have hword : Text.IsWord (.ofList piece) :=
      ⟨by simpa using hne, by simpa using hunbroken⟩
    have hscan := scan_word_append hword (by simpa using hbar) hseparate
    rw [String.toList_ofList] at hscan
    rw [hscan, ofPiece, if_neg hne, List.singleton_append]

theorem scan_pieces {pieces : List (List Char)}
    (hbar : ∀ piece ∈ pieces, '|' ∉ piece)
    (hunbroken : ∀ c ∈ ['|'].intercalate pieces, Text.isBlank c = false) :
    scan (['|'].intercalate pieces) = [bar].intercalate (pieces.map ofPiece) := by
  induction pieces with
  | nil => rw [List.intercalate_nil, scan, List.map_nil, List.intercalate_nil]
  | cons piece others ih =>
      obtain ⟨hpiece, hothers⟩ := List.forall_mem_cons.mp hbar
      cases others with
      | nil =>
          rw [List.intercalate_singleton] at hunbroken ⊢
          have hscan := scan_piece_append hunbroken hpiece separate_nil
          rw [List.append_nil, scan, List.append_nil] at hscan
          rw [hscan, List.map_singleton, List.intercalate_singleton]
      | cons next more =>
          rw [List.intercalate_cons_cons, List.append_assoc, List.singleton_append]
            at hunbroken ⊢
          obtain ⟨hfirst, hrest⟩ := List.forall_mem_append.mp hunbroken
          have hlater := ih hothers (List.forall_mem_cons.mp hrest).2
          rw [scan_piece_append hfirst hpiece (separate_bar _), scan_bar_cons,
            hlater]
          simp [List.intercalate_cons_cons]

theorem scan_word {word : String}
    (hunbroken : ∀ c ∈ word.toList, Text.isBlank c = false) :
    scan word.toList = ofWord word := by
  have hjoined : ['|'].intercalate (word.toList.splitOn '|') = word.toList :=
    List.intercalate_splitOn '|'
  have hscan := @scan_pieces (word.toList.splitOn '|')
    (fun _ => not_mem_of_mem_splitOn) (by rwa [hjoined])
  rwa [hjoined] at hscan

theorem scan_eq_flatMap_ofWord (text : List Char) :
    scan text = (Text.symbols text).flatMap ofWord := by
  rw [scan_eq_flatMap_words, Text.words_eq_map_symbols, List.flatMap_map]
  exact List.flatMap_congr fun word hword =>
    scan_word (Text.isWord_of_mem_symbols hword).2

end Pieces

section Printed

theorem plain_of_ofText {word symbol : String} (hword : Text.IsWord word)
    (hbar : '|' ∉ word.toList)
    (hsymbol : ofText word = .word symbol) : Plain symbol := by
  rw [ofText] at hsymbol
  split_ifs at hsymbol with harrow
  cases hsymbol
  exact ⟨hword, hbar, harrow⟩

theorem plain_of_mem_scan {symbol : String}
    (hmem : word symbol ∈ scan text) : Plain symbol := by
  induction text using scan.induct with
  | case1 =>
      rw [scan] at hmem
      cases hmem
  | case2 rest ih =>
      rw [scan_bar_cons] at hmem
      cases hmem with
      | tail _ hrest => exact ih hrest
  | case3 c rest _ hblank ih =>
      rw [scan_blank_cons hblank] at hmem
      exact ih hmem
  | case4 c rest hbar hblank ih =>
      rw [scan, if_neg hbar, if_neg hblank] at hmem
      rcases List.mem_cons.mp hmem with hfirst | hrest
      · have hletters : ∀ other ∈ c :: rest.takeWhile inWord, inWord other = true :=
          List.forall_mem_cons.mpr
            ⟨inWord_iff.mpr ⟨by simpa using hblank, hbar⟩,
              fun _ => List.mem_takeWhile_imp⟩
        have hword : Text.IsWord (.ofList (c :: rest.takeWhile inWord)) := by
          refine ⟨by simp, ?_⟩
          intro other hother
          rw [String.toList_ofList] at hother
          exact (inWord_iff.mp (hletters other hother)).1
        refine plain_of_ofText hword ?_ hfirst.symm
        intro hmem
        rw [String.toList_ofList] at hmem
        exact (inWord_iff.mp (hletters '|' hmem)).2 rfl
      · exact ih hrest

theorem scan_token_append {token : Token}
    (hplain : ∀ symbol, token = word symbol → Plain symbol)
    (hseparate : Separate rest) :
    scan (token.text.toList ++ rest) = token :: scan rest := by
  cases token with
  | arrow => exact scan_word_append (by decide) (by decide) hseparate
  | bar => exact scan_bar_cons rest
  | word symbol => exact (hplain symbol rfl).scan_append hseparate

def printed (tokens : List Token) : String :=
  " ".intercalate (tokens.map Token.text)

theorem scan_printed (hplain : ∀ symbol, word symbol ∈ tokens → Plain symbol) :
    scan (printed tokens).toList = tokens := by
  induction tokens with
  | nil => exact scan.eq_1
  | cons token others ih =>
      have htoken : ∀ symbol, token = word symbol → Plain symbol := by
        rintro symbol rfl
        exact hplain symbol List.mem_cons_self
      have hothers :=
        ih fun symbol hmem => hplain symbol (List.mem_cons_of_mem _ hmem)
      cases others with
      | nil =>
          have hscan := scan_token_append htoken separate_nil
          rwa [List.append_nil, scan] at hscan
      | cons next more =>
          have htext : (printed (token :: next :: more)).toList =
              token.text.toList ++ ' ' :: (printed (next :: more)).toList := by
            simp [printed]
          rw [htext, scan_token_append htoken (separate_space _),
            scan_blank_cons (by decide), hothers]

theorem scan_printed_iff :
    scan (printed tokens).toList = tokens ↔
      ∀ symbol, word symbol ∈ tokens → Plain symbol := by
  apply Iff.intro
  · intro hscan symbol hmem
    rw [← hscan] at hmem
    exact plain_of_mem_scan hmem
  · exact scan_printed

end Printed

/-- The scanner stops only where the text does, and gets there in no more turns
than the text has characters. What it gives are the tokens of the words of the
text, cut at their bars, so that words among them are plain; and tokens are
scanned from what is printed of them exactly if theirs are. -/
theorem scan_exact :
    (∀ text : List Char, turn text = none ↔ text = []) ∧
    (∀ text given rest, turn text = some (given, rest) →
      rest <:+ text ∧ rest.length < text.length) ∧
    (∀ text : List Char, ∃ count ≤ text.length, Turns count text (scan text)) ∧
    (∀ count text tokens, Turns count text tokens → tokens = scan text) ∧
    (∀ text : List Char, scan text = (Text.symbols text).flatMap ofWord) ∧
    (∀ text symbol, word symbol ∈ scan text → Plain symbol) ∧
    ∀ tokens : List Token, scan (printed tokens).toList = tokens ↔
      ∀ symbol, word symbol ∈ tokens → Plain symbol := by
  refine ⟨fun _ => turn_eq_none_iff, ?_, exists_turns, fun _ _ _ => Turns.eq_scan,
    scan_eq_flatMap_ofWord, fun _ _ => plain_of_mem_scan, fun _ => scan_printed_iff⟩
  intro text given rest hturn
  exact ⟨suffix_of_turn hturn, length_lt_of_turn hturn⟩

theorem scan_exact_signs :
    (turn "->x|y".toList = some ([word "->x"], "|y".toList) ∧
      "|y".toList <:+ "->x|y".toList) ∧
    (∃ count ≤ 11, Turns count "a|->\t||x->|".toList
      [word "a", bar, arrow, bar, bar, word "x->", bar]) ∧
    (Turns 2 "a|".toList [word "a", bar] ∧ [word "a", bar] = scan "a|".toList) ∧
    (word "x->" ∈ scan "a|->\t||x->|".toList ∧ Plain "x->") ∧
    (∀ symbol, word symbol ∈ [bar, word "x->", arrow, word "*", bar] →
      Plain symbol) ∧
      scan (printed [bar, word "x->", arrow, word "*", bar]).toList =
        [bar, word "x->", arrow, word "*", bar] := by
  obtain ⟨_, hless, hturns, hunique, hpieces, hplain, hprinted⟩ := scan_exact
  have hturn : turn "->x|y".toList = some ([word "->x"], "|y".toList) := by decide
  have hvalue :
      scan "a|->\t||x->|".toList =
      [word "a", bar, arrow, bar, bar, word "x->", bar] :=
    (hpieces _).trans (by decide)
  obtain ⟨count, hcount, hread⟩ := hturns "a|->\t||x->|".toList
  rw [hvalue] at hread
  have hfirst : turn "a|".toList = some ([word "a"], ['|']) := by decide
  have hsecond : turn ['|'] = some ([bar], []) := by decide
  have htwo : Turns 2 "a|".toList [word "a", bar] :=
    .more hfirst (.more hsecond .done)
  have hmem : word "x->" ∈ scan "a|->\t||x->|".toList := by
    rw [hvalue]
    decide
  have hwords : ∀ symbol, word symbol ∈ [bar, word "x->", arrow, word "*", bar] →
      Plain symbol := by
    intro symbol hsymbol
    have hcases : symbol = "x->" ∨ symbol = "*" := by simpa using hsymbol
    rcases hcases with rfl | rfl
    · exact hplain _ _ hmem
    · exact plain_emptyMarker
  exact ⟨⟨hturn, (hless _ _ _ hturn).1⟩, ⟨count, hcount, hread⟩,
    ⟨htwo, hunique _ _ _ htwo⟩, ⟨hmem, hplain _ _ hmem⟩, hwords,
    (hprinted _).mpr hwords⟩

end ChomskyChart.Source.Token
