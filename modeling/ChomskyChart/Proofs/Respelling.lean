import ChomskyChart.Proofs.Insertion
import ChomskyChart.Proofs.LineGrammar
import ChomskyChart.Proofs.Reporting
import ChomskyChart.Proofs.RoundTrip

namespace ChomskyChart

namespace Text

def Ended (rest : List Char) : Prop :=
  rest = [] ∨ ∃ ending ∈ endings, ending <+: rest

section Ending

variable {feed rest : List Char}

theorem exists_words_lines_ended (hended : Ended rest) :
    ∃ below, ∀ line, line ≠ [] → '\n' ∉ line →
      (lines (line ++ rest)).map words = (line :: below).map words := by
  rcases hended with rfl | ⟨ending, hending, below, rfl⟩
  · refine ⟨[], ?_⟩
    intro line hne hline
    rw [List.append_nil, lines_singleton hne hline]
  · refine ⟨lines below, ?_⟩
    intro line _ hline
    rw [← List.append_assoc, words_lines_cons hline hending, List.map_cons]

theorem exists_words_lines_fed (hended : Ended rest) (hfeed : feed ∈ endings) :
    ∃ below, ∀ listed : List (List Char), listed ≠ [] →
    (∀ line ∈ listed, line ≠ [] ∧ '\n' ∉ line) →
      (lines (feed.intercalate listed ++ rest)).map words =
        (listed ++ below).map words := by
  obtain ⟨below, hlast⟩ := exists_words_lines_ended hended
  refine ⟨below, ?_⟩
  intro listed hne hlisted
  induction listed with
  | nil => exact absurd rfl hne
  | cons line others ih =>
      obtain ⟨⟨hnonempty, hline⟩, hothers⟩ := List.forall_mem_cons.mp hlisted
      cases others with
      | nil =>
          rw [List.intercalate_singleton]
          exact hlast line hnonempty hline
      | cons next more =>
          have hrest := ih (List.cons_ne_nil _ _) hothers
          rw [List.intercalate_cons_cons, List.append_assoc, List.append_assoc,
            ← List.append_assoc line, words_lines_cons hline hfeed, hrest]
          rfl

end Ending

end Text

open Source (Line Token written)

namespace Vocabulary

/-- The lines are rules, and declare this one after the other if places do not
count. -/
inductive Declares (vocabulary : Vocabulary) :
    List (List Char) → List Declaration → Prop where
  | nil : vocabulary.Declares [] []
  | cons {line : List Char} {rule : Rule} {rest : List (List Char)}
      {declarations : List Declaration}
      (hrule : vocabulary.lineRule line = .ok rule)
      (hrest : vocabulary.Declares rest declarations) :
      vocabulary.Declares (line :: rest)
        (rule.declarations .unknown ++ declarations)

variable {vocabulary : Vocabulary} {upper lower first second : List (List Char)}
  {declarations : List Declaration}

theorem declares_append_iff :
    vocabulary.Declares (upper ++ lower) declarations ↔ ∃ earlier later,
      vocabulary.Declares upper earlier ∧ vocabulary.Declares lower later ∧
        declarations = earlier ++ later := by
  induction upper generalizing declarations with
  | nil =>
      apply Iff.intro
      · intro hlower
        exact ⟨[], declarations, .nil, hlower, rfl⟩
      · intro hparts
        obtain ⟨_, later, hnil, hlower, rfl⟩ := hparts
        cases hnil
        exact hlower
  | cons line rest ih =>
      apply Iff.intro
      · intro hdeclares
        cases hdeclares with
        | cons hrule hrest =>
            obtain ⟨earlier, later, hupper, hlower, rfl⟩ := ih.mp hrest
            exact ⟨_, later, .cons hrule hupper, hlower,
              (List.append_assoc _ _ _).symm⟩
      · intro hparts
        obtain ⟨_, later, hupper, hlower, rfl⟩ := hparts
        cases hupper with
        | @cons _ rule _ earlier hrule hrest =>
            rw [List.append_assoc]
            exact .cons hrule (ih.mpr ⟨earlier, later, hrest, hlower, rfl⟩)

theorem declares_between_congr
    (hsame : ∀ declarations, vocabulary.Declares first declarations ↔
      vocabulary.Declares second declarations) :
    vocabulary.Declares (upper ++ (first ++ lower)) declarations ↔
      vocabulary.Declares (upper ++ (second ++ lower)) declarations := by
  simp only [declares_append_iff, hsame]

end Vocabulary

namespace Source

def wordLine (symbol : String) (words : List String) : String :=
  " ".intercalate (symbol :: words)

def barLine (symbol : String) (words : List String) : String :=
  symbol ++ " -> " ++ " | ".intercalate words

def singleLines (symbol : String) (words : List String) : List String :=
  words.map fun word => wordLine symbol [word]

end Source

namespace Vocabulary

open Source (wordLine barLine singleLines)

section Spellings

variable {vocabulary : Vocabulary} {symbol : String} {words : List String}
  {declarations : List Declaration}

theorem symbols_wordLine (hsymbol : Token.Plain symbol)
    (hwords : ∀ word ∈ words, Token.Plain word) :
    Text.symbols (wordLine symbol words).toList = symbol :: words := by
  apply Text.symbols_intercalate
  exact List.forall_mem_cons.mpr
    ⟨hsymbol.isWord, fun word hword => (hwords word hword).isWord⟩

theorem lineRule_wordLine (hsymbol : Token.Plain symbol) (hne : words ≠ [])
    (hwords : ∀ word ∈ words, Token.Plain word) :
    vocabulary.lineRule (wordLine symbol words).toList =
      (words.mapM vocabulary.resolve).map (Rule.mk symbol) := by
  have hsymbols := symbols_wordLine hsymbol hwords
  have hform : ¬ vocabulary.ArrowForm (wordLine symbol words).toList := by
    intro hform
    have hsecond := hform.1
    rw [hsymbols] at hsecond
    exact (hwords _ (List.mem_of_getElem? hsecond)).ne_arrow rfl
  rw [lineRule_of_not_arrowForm hform, hsymbols, List.map_cons, ruleOf_word,
    alternativesOf_words hne]

theorem barLine_eq (symbol : String) (words : List String) :
    barLine symbol words = Layout.productionLine symbol (words.map .terminal) := by
  have htexts : words.map (Alternative.text ∘ .terminal) = words :=
    List.map_id words
  rw [barLine, Layout.productionLine, List.map_map, htexts]

theorem lineRule_barLine (harrow : Token.arrowText ∉ vocabulary.terminals)
    (hsymbol : Token.Plain symbol) (hne : words ≠ [])
    (hwords : ∀ word ∈ words, Token.Plain word) :
    vocabulary.lineRule (barLine symbol words).toList =
      (words.mapM vocabulary.resolve).map (Rule.mk symbol) := by
  have hplain : ∀ alternative ∈ words.map Alternative.terminal,
      ∀ member ∈ alternative.rightSide, Token.Plain member := by
    intro alternative halternative member hmember
    obtain ⟨word, hword, rfl⟩ := List.mem_map.mp halternative
    rw [List.mem_singleton.mp hmember]
    exact hwords word hword
  have hform : vocabulary.ArrowForm (barLine symbol words).toList := by
    rw [barLine_eq]
    exact isArrowForm_iff.mp (isArrowForm_productionLine harrow hsymbol.isWord)
  have hsome : words.map Alternative.terminal ≠ [] := by
    simpa using hne
  rw [lineRule_of_arrowForm hform, barLine_eq, scan_productionLine hsymbol hplain,
    ruleOf_word, alternativesOf_arrow (intercalate_tokens_ne_nil hsome),
    splitOn_tokens hsome, List.mapM_map, List.mapM_map]
  rfl

theorem declares_wordLine (hsymbol : Token.Plain symbol) (hne : words ≠ [])
    (hwords : ∀ word ∈ words, Token.Plain word) :
    vocabulary.Declares [(wordLine symbol words).toList] declarations ↔
      ∃ alternatives, words.mapM vocabulary.resolve = .ok alternatives ∧
        declarations = (Rule.mk symbol alternatives).declarations .unknown := by
  have hread : vocabulary.lineRule (wordLine symbol words).toList = _ :=
    lineRule_wordLine hsymbol hne hwords
  apply Iff.intro
  · intro hdeclares
    cases hdeclares with
    | cons hrule hrest =>
        cases hrest
        rw [hread] at hrule
        cases hresolved : words.mapM vocabulary.resolve with
        | error fault =>
            rw [hresolved] at hrule
            cases hrule
        | ok alternatives =>
            rw [hresolved] at hrule
            cases hrule
            exact ⟨alternatives, rfl, List.append_nil _⟩
  · intro hreads
    obtain ⟨alternatives, hresolved, rfl⟩ := hreads
    rw [hresolved] at hread
    have hdeclares := Declares.cons hread .nil
    rwa [List.append_nil] at hdeclares

theorem declares_singleLines (hsymbol : Token.Plain symbol)
    (hwords : ∀ word ∈ words, Token.Plain word) :
    vocabulary.Declares
      ((singleLines symbol words).map String.toList) declarations ↔
      ∃ alternatives, words.mapM vocabulary.resolve = .ok alternatives ∧
        declarations = (Rule.mk symbol alternatives).declarations .unknown := by
  induction words generalizing declarations with
  | nil =>
      apply Iff.intro
      · intro hdeclares
        cases hdeclares
        exact ⟨[], rfl, rfl⟩
      · intro hreads
        obtain ⟨alternatives, hresolved, rfl⟩ := hreads
        cases hresolved
        exact .nil
  | cons word rest ih =>
      obtain ⟨hword, hrest⟩ := List.forall_mem_cons.mp hwords
      have hsingle {declarations : List Declaration} :
          vocabulary.Declares [(wordLine symbol [word]).toList] declarations ↔ _ :=
        declares_wordLine hsymbol (List.cons_ne_nil word [])
          (List.forall_mem_singleton.mpr hword)
      change vocabulary.Declares
        ([(wordLine symbol [word]).toList] ++
          (singleLines symbol rest).map String.toList)
          declarations ↔ _
      rw [declares_append_iff]
      apply Iff.intro
      · intro hparts
        obtain ⟨_, _, hfirst, hothers, rfl⟩ := hparts
        obtain ⟨alternatives, hresolved, rfl⟩ := hsingle.mp hfirst
        obtain ⟨others, hresolvedRest, rfl⟩ := (ih hrest).mp hothers
        refine ⟨alternatives ++ others, ?_, List.map_append.symm⟩
        rw [← List.singleton_append, List.mapM_append, hresolved, hresolvedRest]
        rfl
      · intro hreads
        obtain ⟨_, hresolved, rfl⟩ := hreads
        obtain ⟨symbols, others, hsymbols, hresolvedRest, rfl⟩ :=
          mapM_cons_eq_ok hresolved
        have hresolvedWord : [word].mapM vocabulary.resolve = .ok [symbols] := by
          rw [List.mapM_cons, hsymbols]
          rfl
        exact ⟨_, _, hsingle.mpr ⟨_, hresolvedWord, rfl⟩,
          (ih hrest).mpr ⟨others, hresolvedRest, rfl⟩, rfl⟩

end Spellings

end Vocabulary

section Reading

variable {document : Document} {lines : List Line} {declarations : List Declaration}
  {grammar : Grammar} {file : String}

theorem Document.declares_iff (file : String) :
    document.vocabulary.Declares (lines.map Line.text) declarations ↔
      ∃ groups : List (List Declaration),
        lines.map (document.lineDeclarations file) = groups.map .ok ∧
          declarations =
            groups.flatten.map (Declaration.relocate fun _ => .unknown) := by
  induction lines generalizing declarations with
  | nil =>
      apply Iff.intro
      · intro hdeclares
        cases hdeclares
        exact ⟨[], rfl, rfl⟩
      · intro hlines
        obtain ⟨groups, hgroups, rfl⟩ := hlines
        cases List.map_eq_nil_iff.mp hgroups.symm
        exact .nil
  | cons line rest ih =>
      apply Iff.intro
      · intro hdeclares
        cases hdeclares with
        | @cons _ rule _ _ hrule hrest =>
            obtain ⟨groups, hgroups, rfl⟩ := ih.mp hrest
            refine ⟨rule.declarations ⟨file, line.number⟩ :: groups, ?_, ?_⟩
            · rw [List.map_cons, lineDeclarations, hrule, hgroups]
              rfl
            · rw [List.flatten_cons, List.map_append, ← Rule.declarations_relocate]
      · intro hlines
        obtain ⟨groups, hgroups, rfl⟩ := hlines
        cases groups with
        | nil => cases hgroups
        | cons group others =>
            obtain ⟨hgroup, hothers⟩ := List.cons.inj hgroups
            rw [lineDeclarations] at hgroup
            cases hrule : document.vocabulary.lineRule line.text with
            | error fault =>
                rw [hrule] at hgroup
                cases hgroup
            | ok rule =>
                rw [hrule] at hgroup
                cases hgroup
                rw [List.flatten_cons, List.map_append,
                  ← Rule.declarations_relocate]
                exact .cons hrule (ih.mpr ⟨others, hothers, rfl⟩)

/-- Of a line, a draft knows the number and the rule. -/
theorem Document.draft_replace {vocabulary : Vocabulary} {upper lower : List Line}
    {line other : Line} (hnumber : line.number = other.number)
    (hrule : vocabulary.lineRule line.text = vocabulary.lineRule other.text) :
    draft ⟨vocabulary, upper ++ line :: lower⟩ file =
      draft ⟨vocabulary, upper ++ other :: lower⟩ file := by
  have hline (rules others : List Line) :
      lineDeclarations ⟨vocabulary, rules⟩ file line =
        lineDeclarations ⟨vocabulary, others⟩ file other := by
    simp only [lineDeclarations, hrule, hnumber]
  have houtcomes : (upper ++ line :: lower).map
        (lineDeclarations ⟨vocabulary, upper ++ line :: lower⟩ file) =
      (upper ++ other :: lower).map
        (lineDeclarations ⟨vocabulary, upper ++ other :: lower⟩ file) := by
    rw [List.map_append, List.map_cons, hline _ (upper ++ other :: lower),
      List.map_append, List.map_cons]
    rfl
  simp only [draft, houtcomes, List.length_append, List.length_cons]

theorem Grammar.build_unknown_iff {vocabulary : Vocabulary} (origin : Location) :
    Grammar.build vocabulary
      (declarations.map (Declaration.relocate fun _ => .unknown))
        .unknown = .ok grammar ↔
      Grammar.build vocabulary declarations origin = .ok grammar := by
  have hbuilt :=
    Grammar.build_relocate (fun _ => .unknown) vocabulary declarations origin
  rw [hbuilt]
  cases Grammar.build vocabulary declarations origin with
  | ok built => exact Iff.rfl
  | error problems => exact ⟨nofun, nofun⟩

/-- Whether lines are a grammar, and which, has nothing to do with where they
stand. -/
theorem Source.grammarOf_eq_ok_iff
    (hread : Document.ofLines (written lines) = .ok document) :
    grammarOf file lines = .ok grammar ↔ ∃ declarations,
      document.vocabulary.Declares (document.rules.map Line.text) declarations ∧
        Grammar.build document.vocabulary declarations .unknown = .ok grammar := by
  rw [grammarOf, draftOf, hread]
  change document.draft file >>= _ = _ ↔ _
  apply Iff.intro
  · intro hgrammar
    obtain ⟨draft, hdraft, hbuilt⟩ := bind_eq_ok hgrammar
    unfold Document.draft at hdraft
    split at hdraft
    case h_2 => cases hdraft
    case h_1 groups hgathered =>
      cases hdraft
      have hdeclared := Draft.build_of_grammar hbuilt
      have hlines := gather_eq_ok_iff.mp hgathered
      exact ⟨groups.flatten.map (Declaration.relocate fun _ => .unknown),
        (Document.declares_iff file).mpr ⟨groups, hlines, rfl⟩,
        (Grammar.build_unknown_iff ⟨file, 0⟩).mpr hdeclared⟩
  · intro hreads
    obtain ⟨_, hdeclares, hbuilt⟩ := hreads
    obtain ⟨groups, hgroups, rfl⟩ := (Document.declares_iff file).mp hdeclares
    rw [Document.draft, gather_eq_ok_iff.mpr hgroups]
    change Draft.grammar _ file = _
    rw [Draft.grammar, (Grammar.build_unknown_iff _).mp hbuilt]
    rfl

end Reading

namespace Source

def states (text : List Char) : Bool :=
  !(Line.mk 0 text).isComment && !(Line.mk 0 text).isBlank

def stated (lines : List Line) : List Line :=
  (written lines).filter fun line => !line.isComment

section Below

variable {above below first second : List (List Char)} {document : Document}

theorem map_text_stated (start : Nat) (texts : List (List Char)) :
    (stated (Line.numberedFrom start texts)).map Line.text =
      texts.filter states := by
  have htexts : (Line.numberedFrom start texts).map Line.text = texts := by
    rw [Line.numberedFrom, List.map_map]
    exact List.zipIdx_map_fst start texts
  calc
    (stated (Line.numberedFrom start texts)).map Line.text =
        ((Line.numberedFrom start texts).filter
          (states ∘ Line.text)).map Line.text := by
      rw [stated, written, List.filter_filter]
      rfl
    _ = ((Line.numberedFrom start texts).map Line.text).filter states :=
      List.filter_map.symm
    _ = texts.filter states := congrArg (List.filter states) htexts

theorem ofLines_below
    (hread : Document.ofLines (written (Line.numbered above)) = .ok document)
    (behind : List (List Char)) :
    Document.ofLines (written (Line.numbered (above ++ behind))) =
      .ok { document with
        rules := document.rules ++
        stated (Line.numberedFrom (above.length + 1) behind) } := by
  rw [Line.numbered_append, written_append, ofLines_append hread, stated]

theorem grammarOf_exchange
    (hread : Document.ofLines (written (Line.numbered above)) = .ok document)
    (hfirst : ∀ text ∈ first, states text = true)
    (hsecond : ∀ text ∈ second, states text = true)
    (hsame : ∀ declarations, document.vocabulary.Declares first declarations ↔
      document.vocabulary.Declares second declarations) (grammar : Grammar) :
    grammarOf "" (Line.numbered (above ++ (first ++ below))) = .ok grammar ↔
      grammarOf "" (Line.numbered (above ++ (second ++ below))) = .ok grammar := by
  rw [grammarOf_eq_ok_iff (ofLines_below hread _),
    grammarOf_eq_ok_iff (ofLines_below hread _)]
  simp only [List.map_append, map_text_stated, List.filter_append,
    List.filter_eq_self.mpr hfirst, List.filter_eq_self.mpr hsecond,
    Vocabulary.declares_between_congr hsame]

/-- A line that is read like another may stand in its place, even if there are
problems. -/
theorem grammarOf_swap {line other : List Char}
    (hread : Document.ofLines (written (Line.numbered above)) = .ok document)
    (hline : states line = true) (hother : states other = true)
    (hsame : document.vocabulary.lineRule line =
      document.vocabulary.lineRule other) :
    grammarOf "" (Line.numbered (above ++ line :: below)) =
      grammarOf "" (Line.numbered (above ++ other :: below)) := by
  have hstated (text : List Char) (hstates : states text = true) (start : Nat) :
      stated (Line.numberedFrom start (text :: below)) =
        ⟨start, text⟩ :: stated (Line.numberedFrom (start + 1) below) := by
    change stated (⟨start, text⟩ :: Line.numberedFrom (start + 1) below) = _
    simp only [stated, written, List.filter_filter]
    exact List.filter_cons_of_pos hstates
  have hswapped (file : String) (upper lower : List Line) (number : Nat) :
      Document.draft ⟨document.vocabulary, upper ++ ⟨number, line⟩ :: lower⟩ file =
        Document.draft
          ⟨document.vocabulary, upper ++ ⟨number, other⟩ :: lower⟩ file :=
    Document.draft_replace rfl hsame
  simp only [grammarOf, draftOf, ofLines_below hread, hstated line hline,
    hstated other hother, hswapped]

end Below

section Respelled

variable {symbol feed front rest : String} {words : List String}
  {vocabulary : Vocabulary}

structure Begins (symbol line : String) : Prop where
  unbroken : Text.Unbroken line
  first : (Text.symbols line.toList).head? = some symbol

theorem Begins.ne_nil {line : String} (hbegins : Begins symbol line) :
    line.toList ≠ [] := by
  intro hnil
  have hfirst := hbegins.first
  rw [hnil] at hfirst
  cases hfirst

theorem Begins.states {line : String} (hbegins : Begins symbol line)
    (huncommented : Uncommented symbol) : states line.toList = true := by
  have hcomment : (Line.mk 0 line.toList).isComment = false :=
    Line.isComment_eq_false hbegins.first huncommented
  have hblank : (Line.mk 0 line.toList).isBlank = false := by
    rw [Bool.eq_false_iff, Ne, Line.isBlank_iff]
    intro hnil
    have hsymbols : Text.symbols line.toList = [] := hnil
    have hfirst := hbegins.first
    rw [hsymbols] at hfirst
    cases hfirst
  rw [Source.states, hcomment, hblank]
  rfl

theorem begins_wordLine (hsymbol : Token.Plain symbol)
    (hwords : ∀ word ∈ words, Token.Plain word) :
    Begins symbol (wordLine symbol words) := by
  refine ⟨Text.Unbroken.intercalate (by decide) ?_, ?_⟩
  · exact List.forall_mem_cons.mpr ⟨hsymbol.isWord.unbroken,
      fun word hword => (hwords word hword).isWord.unbroken⟩
  · rw [Vocabulary.symbols_wordLine hsymbol hwords]
    rfl

theorem begins_barLine (hsymbol : Token.Plain symbol)
    (hwords : ∀ word ∈ words, Token.Plain word) :
    Begins symbol (barLine symbol words) := by
  apply Begins.mk
  · apply (hsymbol.isWord.unbroken.append (by decide)).append
    exact .intercalate (by decide) fun word hword =>
      (hwords word hword).isWord.unbroken
  · rw [Vocabulary.barLine_eq, Vocabulary.toList_productionLine,
      Text.symbols_word_append hsymbol.isWord (by decide)]
    rfl

theorem begins_singleLines (hsymbol : Token.Plain symbol)
    (hwords : ∀ word ∈ words, Token.Plain word) :
    ∀ line ∈ singleLines symbol words, Begins symbol line := by
  intro line hline
  obtain ⟨word, hword, rfl⟩ := List.mem_map.mp hline
  exact begins_wordLine hsymbol (List.forall_mem_singleton.mpr (hwords word hword))

theorem exists_grammarOfText_between (hfront : Text.Closed front.toList)
    (hrest : Text.Ended rest.toList) (hfeed : feed.toList ∈ Text.endings) :
    ∃ below, ∀ listed : List String, listed ≠ [] →
    (∀ line ∈ listed, Begins symbol line) →
      grammarOfText (front ++ feed.intercalate listed ++ rest) =
        grammarOf "" (Line.numbered
          (Text.lines front.toList ++ (listed.map String.toList ++ below))) := by
  obtain ⟨below, hbelow⟩ := Text.exists_words_lines_fed hrest hfeed
  refine ⟨below, ?_⟩
  intro listed hne hbegins
  have hlines : ∀ line ∈ listed.map String.toList, line ≠ [] ∧ '\n' ∉ line := by
    intro letters hletters
    obtain ⟨line, hline, rfl⟩ := List.mem_map.mp hletters
    have hbegin := hbegins line hline
    exact ⟨hbegin.ne_nil, fun hmem => (hbegin.unbroken _ hmem).1 rfl⟩
  have hlisted := hbelow (listed.map String.toList) (by simpa using hne) hlines
  rw [grammarOfText_eq, Line.ofText]
  apply grammarOf_congr
  rw [String.toList_append, String.toList_append, String.toList_intercalate,
    List.append_assoc, hfront.lines_append, List.map_append, hlisted,
    ← List.map_append]

/-- However the words of a rule are spelled, the same grammar is read or none.
With the words in one line or between bars, the problems are the same too. -/
theorem grammarOfText_respelled {last : Nat} (hfront : Text.Closed front.toList)
    (hheads : Heads (Line.ofText front) vocabulary last)
    (harrow : Token.arrowText ∉ vocabulary.terminals)
    (hrest : Text.Ended rest.toList) (hfeed : feed.toList ∈ Text.endings)
    (hsymbol : Token.Plain symbol) (huncommented : Uncommented symbol)
    (hne : words ≠ []) (hwords : ∀ word ∈ words, Token.Plain word) :
    grammarOfText (front ++ wordLine symbol words ++ rest) =
      grammarOfText (front ++ barLine symbol words ++ rest) ∧
    ∀ grammar, grammarOfText (front ++ wordLine symbol words ++ rest) =
      .ok grammar ↔
      grammarOfText (front ++ feed.intercalate (singleLines symbol words) ++ rest) =
        .ok grammar := by
  obtain ⟨document, hread, rfl⟩ := hheads.exists_document
  obtain ⟨below, hbetween⟩ := exists_grammarOfText_between hfront hrest hfeed
  have hword := begins_wordLine hsymbol hwords
  have hbar := begins_barLine hsymbol hwords
  have hsingle := begins_singleLines hsymbol hwords
  have hwordText :=
    hbetween _ (List.cons_ne_nil _ _) (List.forall_mem_singleton.mpr hword)
  have hbarText :=
    hbetween _ (List.cons_ne_nil _ _) (List.forall_mem_singleton.mpr hbar)
  have hsingleText :=
    hbetween (singleLines symbol words) (by simpa [singleLines] using hne) hsingle
  rw [String.intercalate_singleton] at hwordText hbarText
  rw [hwordText, hbarText, hsingleText]
  apply And.intro
  -- one line stays one line, so that the places of problems stay too
  · apply grammarOf_swap hread (hword.states huncommented)
      (hbar.states huncommented)
    rw [Vocabulary.lineRule_wordLine hsymbol hne hwords,
      Vocabulary.lineRule_barLine harrow hsymbol hne hwords]
  · apply grammarOf_exchange hread
    · exact List.forall_mem_singleton.mpr (hword.states huncommented)
    · intro letters hletters
      obtain ⟨line, hline, rfl⟩ := List.mem_map.mp hletters
      exact (hsingle line hline).states huncommented
    · intro declarations
      exact (Vocabulary.declares_wordLine hsymbol hne hwords).trans
        (Vocabulary.declares_singleLines hsymbol hwords).symm

theorem grammarOfText_respelled_samples :
    ∃ front rest, front = "S\na b\nS A B\n" ∧ rest = "\r\nA a\nB b" ∧
      Text.Closed front.toList ∧
      Heads (Line.ofText front) ⟨"S", ["a", "b"], ["S", "A", "B"]⟩ 3 ∧
      Token.arrowText ∉ ["a", "b"] ∧ Text.Ended rest.toList ∧
      "\n".toList ∈ Text.endings ∧
      Token.Plain "S" ∧ Uncommented "S" ∧
      (∀ word ∈ ["AB", "S,B", "a"], Token.Plain word) ∧
      (∃ grammar,
        grammarOfText "S\na b\nS A B\nS AB S,B a\r\nA a\nB b" = .ok grammar ∧
        grammarOfText "S\na b\nS A B\nS -> AB | S,B | a\r\nA a\nB b" = .ok grammar ∧
        grammarOfText "S\na b\nS A B\nS AB\nS S,B\nS a\r\nA a\nB b" = .ok grammar) ∧
      (∀ word ∈ ["AB", ","], Token.Plain word) ∧
      grammarOfText "S\na b\nS A B\nS AB ,\r\nA a\nB b" =
        .error [⟨⟨"", 4⟩, .malformedPair ","⟩] ∧
      grammarOfText "S\na b\nS A B\nS -> AB | ,\r\nA a\nB b" =
        .error [⟨⟨"", 4⟩, .malformedPair ","⟩] ∧
      ∀ grammar, grammarOfText "S\na b\nS A B\nS AB\nS ,\r\nA a\nB b" ≠
        .ok grammar := by
  have hheads :
      Heads (Line.ofText "S\na b\nS A B\n")
      ⟨"S", ["a", "b"], ["S", "A", "B"]⟩ 3 := by
    apply @Heads.intro _ ⟨1, ['S']⟩ ⟨2, "a b".toList⟩ ⟨3, "S A B".toList⟩
    · exact ⟨by decide, by decide, by decide, by decide⟩
    · rfl
    · exact ⟨by decide, by decide, by decide, by decide⟩
    · exact ⟨by decide, by decide, by decide, by decide⟩
  have hclosed : Text.Closed "S\na b\nS A B\n".toList := .inr (by decide)
  have hended : Text.Ended "\r\nA a\nB b".toList :=
    .inr ⟨['\r', '\n'], by decide, by decide⟩
  have hfeed : "\n".toList ∈ Text.endings := by decide
  have hread := grammarOfText_respelled hclosed hheads (by decide) hended hfeed
    (by decide : Token.Plain "S") (by decide) (List.cons_ne_nil "AB" ["S,B", "a"])
    (by decide)
  have hfails := grammarOfText_respelled hclosed hheads (by decide) hended hfeed
    (by decide : Token.Plain "S") (by decide) (List.cons_ne_nil "AB" [","])
    (by decide)
  obtain ⟨grammar, hgrammar⟩ :
      ∃ grammar, grammarOfText "S\na b\nS A B\nS AB S,B a\r\nA a\nB b" =
        .ok grammar :=
    ⟨_, rfl⟩
  have hproblem : grammarOfText "S\na b\nS A B\nS AB ,\r\nA a\nB b" =
      .error [⟨⟨"", 4⟩, .malformedPair ","⟩] :=
    rfl
  refine ⟨_, _, rfl, rfl, hclosed, hheads, by decide, hended, hfeed, by decide,
    by decide, by decide,
    ⟨grammar, hgrammar, hread.1.symm.trans hgrammar, (hread.2 grammar).mp hgrammar⟩,
    by decide, hproblem, hfails.1.symm.trans hproblem, ?_⟩
  intro grammar hgrammar
  cases hproblem.symm.trans ((hfails.2 grammar).mpr hgrammar)

end Respelled

end Source

end ChomskyChart
