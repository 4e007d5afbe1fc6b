import ChomskyChart.Proofs.Spacing

namespace ChomskyChart

theorem not_mem_of_mem_splitOn {α : Type} [DecidableEq α] {separator : α}
    {elements piece : List α} (hpiece : piece ∈ elements.splitOn separator) :
    separator ∉ piece := by
  induction elements generalizing piece with
  | nil =>
      rw [List.splitOn_nil, List.mem_singleton] at hpiece
      rw [hpiece]
      exact List.not_mem_nil
  | cons head tail ih =>
      obtain ⟨first, others, hsplit⟩ :=
        List.exists_cons_of_ne_nil (List.splitOn_ne_nil separator tail)
      rw [List.splitOn_cons_eq_if_modifyHead, hsplit,
        List.modifyHead_cons] at hpiece
      rw [hsplit] at ih
      split at hpiece
      · rcases List.mem_cons.mp hpiece with rfl | hpiece
        · exact List.not_mem_nil
        · exact ih hpiece
      · rename_i hhead
        rcases List.mem_cons.mp hpiece with rfl | hpiece
        · exact List.not_mem_cons_of_ne_of_not_mem
            (fun heq => hhead (by simp [heq]))
            (ih List.mem_cons_self)
        · exact ih (List.mem_cons_of_mem _ hpiece)

theorem splitOn_eq_iff {α : Type} [DecidableEq α] {separator : α}
    {elements : List α} {pieces : List (List α)} :
    elements.splitOn separator = pieces ↔
      pieces ≠ [] ∧ (∀ piece ∈ pieces, separator ∉ piece) ∧
      [separator].intercalate pieces = elements := by
  apply Iff.intro
  · rintro rfl
    exact ⟨List.splitOn_ne_nil separator elements, fun _ => not_mem_of_mem_splitOn,
      List.intercalate_splitOn separator⟩
  · rintro ⟨hne, hfree, rfl⟩
    exact List.splitOn_intercalate separator hfree hne

namespace Source.Token

structure Barred (tokens : List Token) (parts : List (List Token)) : Prop where
  ne_nil : parts ≠ []
  bar_not_mem : ∀ part ∈ parts, bar ∉ part
  joined : [bar].intercalate parts = tokens

theorem barred_iff {tokens : List Token} {parts : List (List Token)} :
    Barred tokens parts ↔ tokens.splitOn bar = parts := by
  rw [splitOn_eq_iff]
  exact ⟨fun hbarred => ⟨hbarred.ne_nil, hbarred.bar_not_mem, hbarred.joined⟩,
    fun ⟨hne, hfree, hjoined⟩ => ⟨hne, hfree, hjoined⟩⟩

theorem ofText_cases (text : String) :
    ofText text = arrow ∨ ofText text = word text := ite_eq_or_eq _ _ _

theorem head?_scan_dropWhile {text : List Char}
    (hunbroken : ∀ c ∈ text, Text.isBlank c = false) :
    ∀ next ∈ (scan (text.dropWhile inWord)).head?, next = bar := by
  intro next hnext
  cases hrest : text.dropWhile inWord with
  | nil =>
      rw [hrest, scan] at hnext
      cases hnext
  | cons c rest =>
      have hend := List.head?_dropWhile_not inWord text
      have hmem : c ∈ text := (List.dropWhile_suffix inWord).mem (by simp [hrest])
      have hbar : c = '|' := by simpa [hrest, inWord, hunbroken c hmem] using hend
      rw [hrest, hbar, scan_bar_cons] at hnext
      exact (Option.some.inj hnext).symm

/-- A text without blanks begins with a sign, or with a word that only a bar can
follow. -/
theorem scan_unbroken {text : List Char} (hne : text ≠ [])
    (hunbroken : ∀ c ∈ text, Text.isBlank c = false) :
    (∃ sign rest, scan text = sign :: rest ∧ ∀ symbol, sign ≠ word symbol) ∨
      ∃ symbol rest, scan text = word symbol :: rest ∧
      ∀ next ∈ rest.head?, next = bar := by
  obtain ⟨c, others, rfl⟩ := List.exists_cons_of_ne_nil hne
  obtain ⟨hfirst, hothers⟩ := List.forall_mem_cons.mp hunbroken
  by_cases hbar : c = '|'
  · rw [hbar, scan_bar_cons]
    exact .inl ⟨bar, _, rfl, by simp⟩
  · rw [scan, if_neg hbar, if_neg (by simp [hfirst])]
    rcases ofText_cases (.ofList (c :: others.takeWhile inWord)) with harrow | hword
    · rw [harrow]
      exact .inl ⟨arrow, _, rfl, by simp⟩
    · rw [hword]
      exact .inr ⟨_, _, rfl, head?_scan_dropWhile hothers⟩

theorem words_or_sign (tokens : List Token) :
    (∃ words : List String, tokens = words.map word) ∨
      ∃ token ∈ tokens, ∀ symbol, token ≠ word symbol := by
  induction tokens with
  | nil => exact .inl ⟨[], rfl⟩
  | cons token rest ih =>
      cases token with
      | arrow => exact .inr ⟨arrow, List.mem_cons_self, nofun⟩
      | bar => exact .inr ⟨bar, List.mem_cons_self, nofun⟩
      | word text =>
          rcases ih with ⟨words, rfl⟩ | ⟨sign, hmem, hsign⟩
          · exact .inl ⟨text :: words, rfl⟩
          · exact .inr ⟨sign, List.mem_cons_of_mem _ hmem, hsign⟩

theorem word?_eq_ok_iff {token : Token} {symbol : String} :
    token.word? = .ok symbol ↔ token = word symbol := by
  cases token with
  | arrow => exact ⟨nofun, nofun⟩
  | bar => exact ⟨nofun, nofun⟩
  | word text => simp [word?]

theorem mapM_word? (words : List String) :
    (words.map word).mapM word? = .ok words := by
  rw [List.mapM_map]
  exact (mapM_eq_ok fun _ _ => rfl).trans (congrArg _ (List.map_id _))

theorem mapM_word?_of_sign {tokens : List Token} {token : Token}
    (hmem : token ∈ tokens) (hsign : ∀ symbol, token ≠ word symbol) :
    tokens.mapM word? = .error .unexpectedArrow := by
  cases hwords : tokens.mapM word? with
  | ok words =>
      obtain ⟨symbol, _, hsymbol⟩ :=
        exists_related (mapM_eq_ok_iff.mp hwords).flip hmem
      exact absurd (word?_eq_ok_iff.mp hsymbol) (hsign symbol)
  | error fault =>
      obtain ⟨_, _, hfault⟩ := exists_of_mapM_eq_error hwords
      rw [word?_eq_unexpectedArrow hfault]

end Source.Token

namespace Vocabulary

open Source (Token)

variable {vocabulary : Vocabulary} {line : List Char}

/-- How the tokens between two bars are read. -/
inductive PartReads (vocabulary : Vocabulary) :
    List Token → Except SourceFault (List String) → Prop where
  | none : vocabulary.PartReads [] (.error .emptyAlternative)
  | one (word : String) :
      vocabulary.PartReads [.word word] (vocabulary.resolve word)
  | many {words : List String} (hmany : 2 ≤ words.length) :
      vocabulary.PartReads (words.map .word) (.ok words)
  | sign {part : List Token} {token : Token} (hmem : token ∈ part)
      (hsign : ∀ word, token ≠ .word word) :
      vocabulary.PartReads part (.error .unexpectedArrow)

theorem PartReads.alternativeOf {part : List Token}
    {outcome : Except SourceFault (List String)}
    (hreads : vocabulary.PartReads part outcome) :
    vocabulary.alternativeOf part = outcome := by
  cases hreads with
  | none => rfl
  | one word => rfl
  | @many words hmany =>
      rw [Vocabulary.alternativeOf, Token.mapM_word? words]
      match words, hmany with
      | first :: second :: others, _ => rfl
  | sign hmem hsign =>
      rw [Vocabulary.alternativeOf, Token.mapM_word?_of_sign hmem hsign]
      rfl

theorem exists_partReads (vocabulary : Vocabulary) (part : List Token) :
    ∃ outcome, vocabulary.PartReads part outcome := by
  rcases Token.words_or_sign part with ⟨words, rfl⟩ | ⟨token, hmem, hsign⟩
  · match words with
    | [] => exact ⟨_, .none⟩
    | [word] => exact ⟨_, .one word⟩
    | first :: second :: others => exact ⟨_, .many (by simp)⟩
  · exact ⟨_, .sign hmem hsign⟩

theorem alternativeOf_eq_iff {part : List Token}
    {outcome : Except SourceFault (List String)} :
    vocabulary.alternativeOf part = outcome ↔
      vocabulary.PartReads part outcome := by
  apply Iff.intro
  · rintro rfl
    obtain ⟨outcome, hreads⟩ := vocabulary.exists_partReads part
    rw [hreads.alternativeOf]
    exact hreads
  · exact PartReads.alternativeOf

/-- The second word is an arrow, and arrows are not terminals. -/
def ArrowForm (vocabulary : Vocabulary) (line : List Char) : Prop :=
  (Text.symbols line)[1]? = some Token.arrowText ∧
  Token.arrowText ∉ vocabulary.terminals

theorem isArrowForm_iff :
    vocabulary.isArrowForm line = true ↔ vocabulary.ArrowForm line := by
  simp [isArrowForm, ArrowForm]

inductive LineReads (vocabulary : Vocabulary) (line : List Char) :
    Except SourceFault Rule → Prop where
  | blank (hsymbols : Text.symbols line = []) :
      vocabulary.LineReads line (.error .unexpectedBlankLine)
  | noWords {symbol : String} (hform : ¬ vocabulary.ArrowForm line)
      (hsymbols : Text.symbols line = [symbol]) :
      vocabulary.LineReads line (.error .missingAlternatives)
  | words {symbol : String} {words : List String}
      {alternatives : List (List String)} (hform : ¬ vocabulary.ArrowForm line)
      (hsymbols : Text.symbols line = symbol :: words) (hne : words ≠ [])
      (hreads : List.Forall₂
        (fun word symbols => vocabulary.resolve word = .ok symbols)
        words alternatives) :
      vocabulary.LineReads line (.ok ⟨symbol, alternatives⟩)
  | wordFails {symbol : String} {words : List String} {fault : SourceFault}
      (hform : ¬ vocabulary.ArrowForm line)
      (hsymbols : Text.symbols line = symbol :: words)
      (hfails : FailsFirst
        (fun word outcome => vocabulary.resolve word = outcome) words fault) :
      vocabulary.LineReads line (.error fault)
  | noLeftSide (hform : vocabulary.ArrowForm line)
      (hfirst : ∀ symbol, (Token.scan line).head? ≠ some (.word symbol)) :
      vocabulary.LineReads line (.error .missingLeftSide)
  | noArrow {symbol : String} {rest : List Token}
      (hform : vocabulary.ArrowForm line)
      (htokens : Token.scan line = .word symbol :: rest)
      (hsecond : rest.head? ≠ some .arrow) :
      vocabulary.LineReads line (.error .unexpectedArrow)
  | noParts {symbol : String} (hform : vocabulary.ArrowForm line)
      (htokens : Token.scan line = [.word symbol, .arrow]) :
      vocabulary.LineReads line (.error .missingAlternatives)
  | parts {symbol : String} {rest : List Token} {parts : List (List Token)}
      {alternatives : List (List String)} (hform : vocabulary.ArrowForm line)
      (htokens : Token.scan line = .word symbol :: .arrow :: rest) (hne : rest ≠ [])
      (hparts : Token.Barred rest parts)
      (hreads : List.Forall₂
        (fun part symbols => vocabulary.PartReads part (.ok symbols))
        parts alternatives) :
      vocabulary.LineReads line (.ok ⟨symbol, alternatives⟩)
  | partFails {symbol : String} {rest : List Token} {parts : List (List Token)}
      {fault : SourceFault} (hform : vocabulary.ArrowForm line)
      (htokens : Token.scan line = .word symbol :: .arrow :: rest) (hne : rest ≠ [])
      (hparts : Token.Barred rest parts)
      (hfails : FailsFirst vocabulary.PartReads parts fault) :
      vocabulary.LineReads line (.error fault)

theorem lineRule_of_arrowForm (hform : vocabulary.ArrowForm line) :
    vocabulary.lineRule line = vocabulary.ruleOf (Token.scan line) := by
  rw [lineRule, lineTokens, if_pos (isArrowForm_iff.mpr hform)]

theorem lineRule_of_not_arrowForm (hform : ¬ vocabulary.ArrowForm line) :
    vocabulary.lineRule line =
      vocabulary.ruleOf ((Text.symbols line).map .word) := by
  rw [lineRule, lineTokens, if_neg (mt isArrowForm_iff.mp hform)]

theorem ArrowForm.scan_cases (hform : vocabulary.ArrowForm line) :
    (∃ sign rest, Token.scan line = sign :: rest ∧ ∀ symbol, sign ≠ .word symbol) ∨
      (∃ symbol rest, Token.scan line = .word symbol :: .arrow :: rest) ∨
        ∃ symbol rest, Token.scan line = .word symbol :: .bar :: rest := by
  obtain ⟨first, others, hwords⟩ : ∃ first others,
      Text.words line = first :: Token.arrowText.toList :: others := by
    have hsecond := hform.1
    rw [Text.words_eq_map_symbols]
    match Text.symbols line, hsecond with
    | first :: second :: others, hsecond =>
        cases hsecond
        exact ⟨first.toList, others.map String.toList, rfl⟩
  have hfirst : first ∈ Text.words line := by simp [hwords]
  have harrow : Token.scan Token.arrowText.toList = [.arrow] := by
    have hscan := @Token.scan_word_append Token.arrowText (by decide) (by decide) []
      Token.separate_nil
    rw [List.append_nil, Token.scan] at hscan
    exact hscan
  have hscan : Token.scan line =
      Token.scan first ++ .arrow :: others.flatMap Token.scan := by
    rw [Token.scan_eq_flatMap_words, hwords, List.flatMap_cons, List.flatMap_cons,
      harrow]
    rfl
  rcases Token.scan_unbroken (Text.ne_nil_of_mem_words hfirst)
      (Text.not_isBlank_of_mem_words hfirst) with
    ⟨sign, rest, hsign, hne⟩ | ⟨symbol, rest, hword, hrest⟩
  · exact .inl ⟨sign, _, by rw [hscan, hsign]; rfl, hne⟩
  · rw [hword] at hscan
    cases rest with
    | nil => exact .inr (.inl ⟨symbol, _, hscan⟩)
    | cons next more =>
        rw [hrest next rfl] at hscan
        exact .inr (.inr ⟨symbol, _, hscan⟩)

theorem ArrowForm.exists_bar (hform : vocabulary.ArrowForm line) {symbol : String}
    {rest : List Token} (htokens : Token.scan line = .word symbol :: rest)
    (hsecond : rest.head? ≠ some .arrow) : ∃ more, rest = .bar :: more := by
  rcases hform.scan_cases with
    ⟨sign, others, hscan, hsign⟩ | ⟨first, others, hscan⟩ | ⟨first, others, hscan⟩
  · cases htokens.symm.trans hscan
    exact absurd rfl (hsign symbol)
  · cases htokens.symm.trans hscan
    exact absurd rfl hsecond
  · cases htokens.symm.trans hscan
    exact ⟨others, rfl⟩

theorem ruleOf_sign (vocabulary : Vocabulary) {sign : Token} (rest : List Token)
    (hsign : ∀ symbol, sign ≠ .word symbol) :
    vocabulary.ruleOf (sign :: rest) = .error .missingLeftSide := by
  cases sign with
  | arrow => rfl
  | bar => rfl
  | word symbol => exact absurd rfl (hsign symbol)

theorem ruleOf_word (vocabulary : Vocabulary) (symbol : String)
    (rest : List Token) :
    vocabulary.ruleOf (.word symbol :: rest) =
      (vocabulary.alternativesOf rest).map fun alternatives =>
        ⟨symbol, alternatives⟩ := by
  rw [ruleOf]
  cases vocabulary.alternativesOf rest with
  | ok alternatives => rfl
  | error fault => rfl

theorem alternativesOf_bar (vocabulary : Vocabulary) (rest : List Token) :
    vocabulary.alternativesOf (.bar :: rest) = .error .unexpectedArrow :=
  rfl

theorem alternativesOf_parts {rest : List Token} {parts : List (List Token)}
    (hne : rest ≠ []) (hparts : Token.Barred rest parts) :
    vocabulary.alternativesOf (.arrow :: rest) =
      parts.mapM vocabulary.alternativeOf := by
  rw [alternativesOf_arrow hne, Token.barred_iff.mp hparts]

theorem LineReads.lineRule {outcome : Except SourceFault Rule}
    (hreads : vocabulary.LineReads line outcome) :
    vocabulary.lineRule line = outcome := by
  cases hreads with
  | blank hsymbols =>
      have hform : ¬ vocabulary.ArrowForm line := by simp [ArrowForm, hsymbols]
      rw [lineRule_of_not_arrowForm hform, hsymbols]
      rfl
  | noWords hform hsymbols =>
      rw [lineRule_of_not_arrowForm hform, hsymbols]
      rfl
  | words hform hsymbols hne hreads =>
      rw [lineRule_of_not_arrowForm hform, hsymbols, List.map_cons, ruleOf_word,
        alternativesOf_words hne, mapM_eq_ok_iff.mpr hreads]
      rfl
  | wordFails hform hsymbols hfails =>
      have hne : _ ≠ [] := hfails.ne_nil
      rw [lineRule_of_not_arrowForm hform, hsymbols, List.map_cons, ruleOf_word,
        alternativesOf_words hne, mapM_eq_error_iff.mpr hfails]
      rfl
  | noLeftSide hform hfirst =>
      rw [lineRule_of_arrowForm hform]
      rcases hform.scan_cases with
        ⟨sign, rest, hscan, hsign⟩ | ⟨symbol, rest, hscan⟩ | ⟨symbol, rest, hscan⟩
      · rw [hscan, ruleOf_sign vocabulary rest hsign]
      · simp [hscan] at hfirst
      · simp [hscan] at hfirst
  | noArrow hform htokens hsecond =>
      obtain ⟨more, rfl⟩ := hform.exists_bar htokens hsecond
      rw [lineRule_of_arrowForm hform, htokens, ruleOf_word, alternativesOf_bar]
      rfl
  | noParts hform htokens =>
      rw [lineRule_of_arrowForm hform, htokens]
      rfl
  | parts hform htokens hne hparts hreads =>
      have halternatives := hreads.imp fun _ _ hpart => hpart.alternativeOf
      rw [lineRule_of_arrowForm hform, htokens, ruleOf_word,
        alternativesOf_parts hne hparts, mapM_eq_ok_iff.mpr halternatives]
      rfl
  | partFails hform htokens hne hparts hfails =>
      have hsteps := hfails.imp fun _ _ hpart => hpart.alternativeOf
      rw [lineRule_of_arrowForm hform, htokens, ruleOf_word,
        alternativesOf_parts hne hparts, mapM_eq_error_iff.mpr hsteps]
      rfl

/-- Every line is read in some way. That it is read in no other follows, since
each way gives what `lineRule` gives. -/
theorem exists_lineReads (vocabulary : Vocabulary) (line : List Char) :
    ∃ outcome, vocabulary.LineReads line outcome := by
  by_cases hform : vocabulary.ArrowForm line
  · rcases hform.scan_cases with
      ⟨sign, rest, hscan, hsign⟩ | ⟨symbol, rest, hscan⟩ | ⟨symbol, rest, hscan⟩
    · refine ⟨_, .noLeftSide hform ?_⟩
      intro symbol hfirst
      rw [hscan] at hfirst
      exact hsign symbol (Option.some.inj hfirst)
    · by_cases hne : rest = []
      · rw [hne] at hscan
        exact ⟨_, .noParts hform hscan⟩
      · have hparts : Token.Barred rest (rest.splitOn .bar) :=
          Token.barred_iff.mpr rfl
        cases hsteps : (rest.splitOn .bar).mapM vocabulary.alternativeOf with
        | ok alternatives =>
            have hreads := mapM_eq_ok_iff.mp hsteps
            exact ⟨_, .parts hform hscan hne hparts
              (hreads.imp fun _ _ hpart => alternativeOf_eq_iff.mp hpart)⟩
        | error fault =>
            have hfails := mapM_eq_error_iff.mp hsteps
            exact ⟨_, .partFails hform hscan hne hparts
              (hfails.imp fun _ _ hpart => alternativeOf_eq_iff.mp hpart)⟩
    · exact ⟨_, .noArrow hform hscan (by simp)⟩
  · match hsymbols : Text.symbols line with
    | [] => exact ⟨_, .blank hsymbols⟩
    | [symbol] => exact ⟨_, .noWords hform hsymbols⟩
    | symbol :: word :: others =>
        cases hsteps : (word :: others).mapM vocabulary.resolve with
        | ok alternatives =>
            exact ⟨_, .words hform hsymbols (List.cons_ne_nil _ _)
              (mapM_eq_ok_iff.mp hsteps)⟩
        | error fault =>
            exact ⟨_, .wordFails hform hsymbols (mapM_eq_error_iff.mp hsteps)⟩

theorem lineReads_of_lineRule {outcome : Except SourceFault Rule}
    (hread : vocabulary.lineRule line = outcome) :
    vocabulary.LineReads line outcome := by
  obtain ⟨other, hreads⟩ := vocabulary.exists_lineReads line
  rw [← hread, hreads.lineRule]
  exact hreads

/-- The words and the tokens of a line say whether it is read, as which rule,
and if it is not, for which fault. -/
theorem lineRule_eq_iff_reads (vocabulary : Vocabulary) (line : List Char)
    (outcome : Except SourceFault Rule) :
    vocabulary.lineRule line = outcome ↔ vocabulary.LineReads line outcome :=
  ⟨lineReads_of_lineRule, LineReads.lineRule⟩

-- the second word is an arrow, and still the second token is not
example : (⟨"S", ["a"], ["S", "A"]⟩ : Vocabulary).lineRule "S| -> A".toList =
    .error .unexpectedArrow := by
  cbv

end Vocabulary

end ChomskyChart
