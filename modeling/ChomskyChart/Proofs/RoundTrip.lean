import ChomskyChart.Proofs.RuleLine
import ChomskyChart.Source.Reading

namespace ChomskyChart

open Source (Line Token)

def Uncommented (symbol : String) : Prop :=
  symbol.toList.head? ≠ some ';'

instance (symbol : String) : Decidable (Uncommented symbol) :=
  inferInstanceAs (Decidable (_ ≠ _))

namespace Source.Line

variable {line : Line} {symbol : String}

theorem words_head (hfirst : line.symbols.head? = some symbol) :
    (Text.words line.text).head? = some symbol.toList := by
  rw [symbols, Text.symbols, List.head?_map, Option.map_eq_some_iff] at hfirst
  obtain ⟨word, hword, rfl⟩ := hfirst
  rw [hword, String.toList_ofList]

theorem isComment_eq_false (hfirst : line.symbols.head? = some symbol)
    (huncommented : Uncommented symbol) : line.isComment = false := by
  rw [isComment_eq, words_head hfirst]
  exact decide_eq_false huncommented

end Source.Line

namespace Vocabulary

structure Spells (vocabulary : Vocabulary) (line : String)
    (entry : String × List Alternative) : Prop where
  unbroken : Text.Unbroken line
  first : (Text.symbols line.toList).head? = some entry.1
  reads : vocabulary.lineRule line.toList =
    .ok ⟨entry.1, entry.2.map Alternative.rightSide⟩

end Vocabulary

namespace Grammar

variable {grammar : Grammar} {vocabulary : Vocabulary}
  {declarations : List Declaration} {origin : Location}

/-- The symbols of the grammar can stand on lines of their own. -/
structure Writable (grammar : Grammar) : Prop where
  terminals_ne_nil : grammar.terminals ≠ []
  isWord_terminals : ∀ symbol ∈ grammar.terminals, Text.IsWord symbol
  isWord_nonterminals : ∀ symbol ∈ grammar.nonterminals, Text.IsWord symbol
  start_uncommented : Uncommented grammar.start
  left_uncommented : ∀ entry ∈ grammar.rules.entries, Uncommented entry.1

section Spelling

variable {spelling : String × List Alternative → String}

def headerOf (grammar : Grammar) : List Line :=
  [⟨1, grammar.start.toList⟩, ⟨2, (" ".intercalate grammar.terminals).toList⟩,
    ⟨3, (" ".intercalate grammar.nonterminals).toList⟩]

def ruleLines (spelling : String × List Alternative → String)
    (grammar : Grammar) : List Line :=
  (grammar.rules.entries.zipIdx 4).map fun numbered =>
    ⟨numbered.2, (spelling numbered.1).toList⟩

theorem numbered_spelled :
    Line.numbered ((grammar.headerLines ++ grammar.rules.entries.map spelling).map
      String.toList) = headerOf grammar ++ ruleLines spelling grammar := by
  simp [Line.numbered, headerLines, headerOf, ruleLines, List.zipIdx_map,
    Function.comp_def]

def numberedDeclarations (number : Nat)
    (entries : List (String × List Alternative)) :
    List (List Declaration) :=
  (entries.zipIdx number).map fun numbered =>
    (Rule.mk numbered.1.1 (numbered.1.2.map Alternative.rightSide)).declarations
      ⟨"", numbered.2⟩

theorem states_numberedDeclarations (number : Nat)
    (entries : List (String × List Alternative)) :
    List.Forall₂ Declaration.States (numberedDeclarations number entries).flatten
      (entries.flatMap fun entry => entry.2.map (Production.mk entry.1)) := by
  induction entries generalizing number with
  | nil => exact .nil
  | cons entry rest ih =>
      have hhead : List.Forall₂ Declaration.States
          ((Rule.mk entry.1 (entry.2.map Alternative.rightSide)).declarations
            ⟨"", number⟩)
          (entry.2.map (Production.mk entry.1)) := by
        rw [Rule.declarations, List.map_map, List.forall₂_map_left_iff,
          List.forall₂_map_right_iff, List.forall₂_same]
        intro alternative _
        exact ⟨rfl, rfl⟩
      exact List.rel_append hhead (ih (number + 1))

theorem exists_of_mem_ruleLines {line : Line}
    (hline : line ∈ ruleLines spelling grammar) :
    ∃ entry ∈ grammar.rules.entries, line.text = (spelling entry).toList := by
  obtain ⟨numbered, hnumbered, rfl⟩ := List.mem_map.mp hline
  exact ⟨numbered.1, List.fst_mem_of_mem_zipIdx hnumbered, rfl⟩

variable (hsound : grammar.Sound) (hwritable : grammar.Writable)
  (hspells : ∀ entry ∈ grammar.rules.entries,
    grammar.vocabulary.Spells (spelling entry) entry)

include hsound hwritable in
theorem symbols_headerOf :
    (headerOf grammar).map Line.symbols =
      [[grammar.start], grammar.terminals, grammar.nonterminals] := by
  have hstart : Text.IsWord grammar.start :=
    hwritable.isWord_nonterminals _ hsound.proper.start_nonterminal
  simp only [headerOf, List.map_cons, List.map_nil, Line.symbols,
    Text.symbols_word hstart, Text.symbols_intercalate hwritable.isWord_terminals,
    Text.symbols_intercalate hwritable.isWord_nonterminals]

include hsound hwritable hspells in
theorem unbroken_spelled :
    ∀ text ∈ grammar.headerLines ++ grammar.rules.entries.map spelling,
      Text.Unbroken text := by
  intro text hmem
  rcases List.mem_append.mp hmem with hheader | hrule
  · simp only [headerLines, List.mem_cons, List.not_mem_nil, or_false] at hheader
    rcases hheader with rfl | rfl | rfl
    · exact (hwritable.isWord_nonterminals _
        hsound.proper.start_nonterminal).unbroken
    · exact .intercalate (by decide) fun symbol hsymbol =>
        (hwritable.isWord_terminals symbol hsymbol).unbroken
    · exact .intercalate (by decide) fun symbol hsymbol =>
        (hwritable.isWord_nonterminals symbol hsymbol).unbroken
  · obtain ⟨entry, hentry, rfl⟩ := List.mem_map.mp hrule
    exact (hspells entry hentry).unbroken

include hsound hwritable hspells in
theorem filter_spelled :
    (headerOf grammar ++ ruleLines spelling grammar).filter
      (fun line => !line.isBlank) =
      headerOf grammar ++ ruleLines spelling grammar := by
  apply List.filter_eq_self.mpr
  intro line hline
  rw [Bool.not_eq_true', ← Bool.not_eq_true, Line.isBlank_iff]
  rcases List.mem_append.mp hline with hheader | hrule
  · have hsymbols : line.symbols ∈ (headerOf grammar).map Line.symbols :=
      List.mem_map_of_mem hheader
    rw [symbols_headerOf hsound hwritable] at hsymbols
    simp only [List.mem_cons, List.not_mem_nil, or_false] at hsymbols
    rcases hsymbols with heq | heq | heq
    · simp [heq]
    · rw [heq]
      exact hwritable.terminals_ne_nil
    · rw [heq]
      exact List.ne_nil_of_mem hsound.proper.start_nonterminal
  · obtain ⟨entry, hentry, htext⟩ := exists_of_mem_ruleLines hrule
    have hfirst := (hspells entry hentry).first
    intro hnil
    rw [← htext, ← Line.symbols, hnil] at hfirst
    cases hfirst

include hsound hwritable hspells in
theorem ofLines_spelled :
    Document.ofLines (headerOf grammar ++ ruleLines spelling grammar) =
      .ok ⟨grammar.vocabulary, ruleLines spelling grammar⟩ := by
  have hsymbols := symbols_headerOf hsound hwritable
  simp only [headerOf, List.map_cons, List.map_nil, List.cons.injEq,
    and_true] at hsymbols
  obtain ⟨hstart, hterminals, hnonterminals⟩ := hsymbols
  have hcomment : Line.isComment ⟨1, grammar.start.toList⟩ = false :=
    Line.isComment_eq_false (congrArg List.head? hstart) hwritable.start_uncommented
  have hrules : (ruleLines spelling grammar).filter (fun line => !line.isComment) =
      ruleLines spelling grammar := by
    apply List.filter_eq_self.mpr
    intro line hline
    obtain ⟨entry, hentry, htext⟩ := exists_of_mem_ruleLines hline
    have hfirst : line.symbols.head? = some entry.1 := by
      rw [Line.symbols, htext]
      exact (hspells entry hentry).first
    rw [Line.isComment_eq_false hfirst (hwritable.left_uncommented entry hentry)]
    rfl
  rw [Document.ofLines, headerOf, List.cons_append, List.dropWhile_cons, hcomment]
  simp only [Bool.false_eq_true, if_false, List.cons_append, List.nil_append,
    hstart, hterminals, hnonterminals, hrules]
  rfl

include hspells in
theorem draft_spelled :
    Document.draft ⟨grammar.vocabulary, ruleLines spelling grammar⟩ "" =
      .ok ⟨grammar.vocabulary, (ruleLines spelling grammar).length,
        (numberedDeclarations 4 grammar.rules.entries).flatten⟩ := by
  have hgathered : gather ((ruleLines spelling grammar).map
      (Document.lineDeclarations
        ⟨grammar.vocabulary, ruleLines spelling grammar⟩ "")) =
        .ok (numberedDeclarations 4 grammar.rules.entries) := by
    rw [gather_eq_ok_iff, ruleLines, numberedDeclarations, List.map_map,
      List.map_map]
    apply List.map_congr_left
    intro numbered hnumbered
    have hentry := hspells numbered.1 (List.fst_mem_of_mem_zipIdx hnumbered)
    simp only [Function.comp_apply, Document.lineDeclarations, hentry.reads]
  rw [Document.draft, hgathered]

include hsound hwritable hspells in
theorem grammarOfText_spelled :
    Source.grammarOfText (Text.unlines
      (grammar.headerLines ++ grammar.rules.entries.map spelling)) =
        .ok grammar := by
  have hlines := Text.lines_unlines (unbroken_spelled hsound hwritable hspells)
  have hdraft : Source.draftOfText (Text.unlines
      (grammar.headerLines ++ grammar.rules.entries.map spelling)) =
        .ok ⟨grammar.vocabulary, (ruleLines spelling grammar).length,
          (numberedDeclarations 4 grammar.rules.entries).flatten⟩ := by
    rw [Source.draftOfText_eq, hlines, Source.draftOf, Source.written,
      numbered_spelled, filter_spelled hsound hwritable hspells,
      ofLines_spelled hsound hwritable hspells]
    exact draft_spelled hspells
  have hbuilt :=
    hsound.build_eq (states_numberedDeclarations 4 grammar.rules.entries) ⟨"", 0⟩
  rw [Source.grammarOfText, hdraft]
  change (build _ _ ⟨"", 0⟩).mapError _ = _
  rw [hbuilt]
  rfl

end Spelling

theorem Sound.mem_alternatives_of_mem_entries (hsound : grammar.Sound)
    {entry : String × List Alternative} (hentry : entry ∈ grammar.rules.entries) :
    entry.2 = grammar.alternatives entry.1 ∧ entry.2 ≠ [] :=
  hsound.inhabited.mem_entries_iff.mp hentry

theorem Sound.shapes_of_mem_entries (hsound : grammar.Sound)
    {entry : String × List Alternative} (hentry : entry ∈ grammar.rules.entries) :
    entry.1 ∈ grammar.nonterminals ∧ entry.2 ≠ [] ∧ ∀ alternative ∈ entry.2,
      grammar.vocabulary.Shapes alternative.rightSide alternative := by
  obtain ⟨halternatives, hne⟩ := hsound.mem_alternatives_of_mem_entries hentry
  refine ⟨?_, hne, ?_⟩
  · obtain ⟨alternative, rest, heq⟩ := List.exists_cons_of_ne_nil hne
    have hmem : alternative ∈ grammar.alternatives entry.1 := by
      rw [← halternatives, heq]
      exact List.mem_cons_self
    exact (hsound.declared entry.1 alternative hmem).1
  · intro alternative hmem
    rw [halternatives] at hmem
    exact (hsound.declared entry.1 alternative hmem).2

structure FitsArrowForm (grammar : Grammar) : Prop extends grammar.Writable where
  no_sign : ∀ symbol ∈ grammar.terminals ++ grammar.nonterminals,
    '|' ∉ symbol.toList ∧ symbol ≠ Token.arrowText

/-- The text of a pair with a comma in it is read as that pair alone. -/
structure FitsLiteralForm (grammar : Grammar) : Prop extends grammar.Writable where
  no_comma : ∀ symbol ∈ grammar.nonterminals, ',' ∉ symbol.toList
  pair_not_terminal : ∀ symbol left right,
    .pair left right ∈ grammar.alternatives symbol →
      left ++ "," ++ right ∉ grammar.terminals

section ArrowForm

variable (hsound : grammar.Sound) (hfits : grammar.FitsArrowForm)

include hfits in
theorem FitsArrowForm.plain {symbol : String}
    (hmem : symbol ∈ grammar.terminals ∨ symbol ∈ grammar.nonterminals) :
    Token.Plain symbol := by
  obtain ⟨hbar, harrow⟩ := hfits.no_sign symbol (List.mem_append.mpr hmem)
  rcases hmem with hterminal | hnonterminal
  · exact ⟨hfits.isWord_terminals symbol hterminal, hbar, harrow⟩
  · exact ⟨hfits.isWord_nonterminals symbol hnonterminal, hbar, harrow⟩

include hfits in
theorem FitsArrowForm.plain_rightSide {alternative : Alternative}
    (hshapes : grammar.vocabulary.Shapes alternative.rightSide alternative) :
    ∀ symbol ∈ alternative.rightSide, Token.Plain symbol := by
  intro symbol hmem
  generalize alternative.rightSide = rightSide at hshapes hmem
  cases hshapes with
  | empty =>
      rw [List.mem_singleton.mp hmem]
      exact Token.plain_emptyMarker
  | terminal hterminal _ =>
      rw [List.mem_singleton.mp hmem]
      exact hfits.plain (.inl hterminal)
  | pair hleft hright =>
      rcases List.mem_pair.mp hmem with rfl | rfl
      · exact hfits.plain (.inr hleft)
      · exact hfits.plain (.inr hright)

theorem unbroken_text {alternative : Alternative}
    (hplain : ∀ symbol ∈ alternative.rightSide, Token.Plain symbol) :
    Text.Unbroken alternative.text := by
  cases alternative with
  | terminal symbol => exact (hplain symbol List.mem_cons_self).isWord.unbroken
  | pair left right =>
      have hleft := (hplain left List.mem_cons_self).isWord.unbroken
      have hright :=
        (hplain right (List.mem_cons_of_mem _ List.mem_cons_self)).isWord.unbroken
      exact (hleft.append (by decide)).append hright
  | empty => exact Token.plain_emptyMarker.isWord.unbroken

include hsound hfits in
theorem FitsArrowForm.spells :
    ∀ entry ∈ grammar.rules.entries,
      grammar.vocabulary.Spells (Layout.productionLine entry.1 entry.2) entry := by
  intro entry hentry
  obtain ⟨hsymbol, hne, hshapes⟩ := hsound.shapes_of_mem_entries hentry
  have hplain := hfits.plain (.inr hsymbol)
  have hmembers : ∀ alternative ∈ entry.2, ∀ member ∈ alternative.rightSide,
      Token.Plain member := fun alternative hmem =>
    hfits.plain_rightSide (hshapes alternative hmem)
  have harrow : Token.arrowText ∉ grammar.terminals := fun hmem =>
    (hfits.plain (.inl hmem)).ne_arrow rfl
  refine ⟨?_, ?_, ?_⟩
  · apply (hplain.isWord.unbroken.append (by decide)).append
    apply Text.Unbroken.intercalate (by decide)
    intro text hmem
    obtain ⟨alternative, halternative, rfl⟩ := List.mem_map.mp hmem
    exact unbroken_text (hmembers alternative halternative)
  · rw [Vocabulary.toList_productionLine,
      Text.symbols_word_append hplain.isWord (by decide)]
    rfl
  · exact Vocabulary.lineRule_productionLine harrow hplain hne hmembers hshapes

include hsound hfits in
theorem FitsArrowForm.unbroken_components :
    Text.Unbroken ("G = (" ++ Layout.symbolSet grammar.terminals ++ ", " ++
      Layout.symbolSet grammar.nonterminals ++ ", P, " ++ grammar.start ++
      ")") := by
  have hset {symbols : List String}
      (hwords : ∀ symbol ∈ symbols, Text.IsWord symbol) :
      Text.Unbroken (Layout.symbolSet symbols) := by
    have hlisted : Text.Unbroken (", ".intercalate symbols) :=
      .intercalate (by decide) fun symbol hsymbol =>
        (hwords symbol hsymbol).unbroken
    exact (Text.Unbroken.append (by decide) hlisted).append (by decide)
  have hstart : Text.Unbroken grammar.start :=
    (hfits.isWord_nonterminals _ hsound.proper.start_nonterminal).unbroken
  have hterminals := hset hfits.isWord_terminals
  have hnonterminals := hset hfits.isWord_nonterminals
  exact (((((Text.Unbroken.append (by decide) hterminals).append (by decide)).append
    hnonterminals).append (by decide)).append hstart).append (by decide)

/-- What the text of a grammar shows below its third line, put below the lines
of its symbols, is read as the same grammar. -/
theorem read_arrowText (hbuilt : build vocabulary declarations origin = .ok grammar)
    (hfits : grammar.FitsArrowForm) :
    ∃ components printed,
      Text.Unbroken components ∧
      Layout.grammarText grammar =
        Text.unlines [components, "", "Productions P:"] ++ printed ∧
      Source.grammarOfText (Text.unlines grammar.headerLines ++ printed) =
        .ok grammar := by
  have hsound := sound_of_build hbuilt
  refine ⟨_, Text.unlines (Layout.productionLines grammar),
    hfits.unbroken_components hsound, Text.unlines_append _ _, ?_⟩
  rw [← Text.unlines_append]
  exact grammarOfText_spelled hsound hfits.toWritable (hfits.spells hsound)

def signs : Vocabulary :=
  ⟨"S", ["a,b", ";", "a,b"], ["S", "*"]⟩

def signDeclarations : List Declaration :=
  [⟨"S", ["S", "*"], ⟨"", 9⟩⟩, ⟨"*", [";"], ⟨"", 8⟩⟩, ⟨"S", ["*"], ⟨"", 7⟩⟩,
    ⟨"*", ["a,b"], ⟨"", 6⟩⟩]

theorem read_arrowText_signs :
    ∃ grammar, build signs signDeclarations = .ok grammar ∧ grammar.FitsArrowForm ∧
      grammar.arrowText = "S\na,b ;\nS *\n* -> ; | a,b\nS -> S * | *\n" ∧
      ∃ components printed, Text.Unbroken components ∧
        Layout.grammarText grammar =
          Text.unlines [components, "", "Productions P:"] ++ printed ∧
        Source.grammarOfText (Text.unlines grammar.headerLines ++ printed) =
          .ok grammar := by
  have hbuilt : build signs signDeclarations =
      .ok (ofProductions signs.distinct [⟨"S", .pair "S" "*"⟩, ⟨"*", .terminal ";"⟩,
        ⟨"S", .empty⟩, ⟨"*", .terminal "a,b"⟩]) := by
    decide
  have hfits : FitsArrowForm (ofProductions signs.distinct [⟨"S", .pair "S" "*"⟩,
      ⟨"*", .terminal ";"⟩, ⟨"S", .empty⟩, ⟨"*", .terminal "a,b"⟩]) :=
    ⟨⟨by decide, by decide, by decide, by decide, by decide⟩, by decide⟩
  exact ⟨_, hbuilt, hfits, by decide, read_arrowText hbuilt hfits⟩

end ArrowForm

section LiteralForm

variable (hsound : grammar.Sound) (hfits : grammar.FitsLiteralForm)

include hsound hfits in
theorem FitsLiteralForm.isWord_wordText {symbol : String}
    {alternative : Alternative} (hmem : alternative ∈ grammar.alternatives symbol) :
    Text.IsWord alternative.wordText := by
  have hshapes := (hsound.declared symbol alternative hmem).2
  cases alternative with
  | terminal text =>
      cases hshapes with
      | terminal hterminal _ => exact hfits.isWord_terminals text hterminal
  | pair left right =>
      cases hshapes with
      | pair hleft hright =>
          exact (hfits.isWord_nonterminals left hleft).pair
            (hfits.isWord_nonterminals right hright)
  | empty => exact (by decide : Text.IsWord emptyMarker)

include hsound hfits in
theorem FitsLiteralForm.resolve_wordText {symbol : String}
    {alternative : Alternative} (hmem : alternative ∈ grammar.alternatives symbol) :
    grammar.vocabulary.resolve alternative.wordText =
      .ok alternative.rightSide := by
  have hshapes := (hsound.declared symbol alternative hmem).2
  apply hshapes.resolve_wordText
  · intro nonterminal hnonterminal
    exact ⟨(hfits.isWord_nonterminals nonterminal hnonterminal).1,
      hfits.no_comma nonterminal hnonterminal⟩
  · intro left right heq
    rw [heq] at hmem
    exact hfits.pair_not_terminal symbol left right hmem

include hsound hfits in
theorem FitsLiteralForm.spells :
    ∀ entry ∈ grammar.rules.entries,
      grammar.vocabulary.Spells (literalLine entry.1 entry.2) entry := by
  intro entry hentry
  obtain ⟨halternatives, hne⟩ := hsound.mem_alternatives_of_mem_entries hentry
  obtain ⟨hsymbol, _, hshapes⟩ := hsound.shapes_of_mem_entries hentry
  have hword := hfits.isWord_nonterminals entry.1 hsymbol
  have hwords : ∀ alternative ∈ entry.2, Text.IsWord alternative.wordText := by
    intro alternative hmem
    exact hfits.isWord_wordText hsound (halternatives ▸ hmem)
  have hresolve : ∀ alternative ∈ entry.2,
      grammar.vocabulary.resolve alternative.wordText =
        .ok alternative.rightSide := by
    intro alternative hmem
    exact hfits.resolve_wordText hsound (halternatives ▸ hmem)
  refine ⟨?_, ?_, ?_⟩
  · apply Text.Unbroken.intercalate (by decide)
    intro text hmem
    rcases List.mem_cons.mp hmem with rfl | htext
    · exact hword.unbroken
    · obtain ⟨alternative, halternative, rfl⟩ := List.mem_map.mp htext
      exact (hwords alternative halternative).unbroken
  · rw [Vocabulary.symbols_literalLine hword hwords]
    rfl
  · exact Vocabulary.lineRule_literalLine hword hne hwords hshapes hresolve

/-- A grammar written with an alternative a word is read as the same grammar,
also where arrows, bars or semicolons are symbols of it. -/
theorem read_literalText
    (hbuilt : build vocabulary declarations origin = .ok grammar)
    (hfits : grammar.FitsLiteralForm) :
    Source.grammarOfText grammar.literalText = .ok grammar := by
  have hsound := sound_of_build hbuilt
  exact grammarOfText_spelled hsound hfits.toWritable (hfits.spells hsound)

def signTerminals : Vocabulary :=
  ⟨"S", ["|", "->", ";x", "SR"], ["S", "R", "->>"]⟩

def signTerminalDeclarations : List Declaration :=
  [⟨"S", ["->"], ⟨"", 4⟩⟩, ⟨"S", ["|"], ⟨"", 5⟩⟩, ⟨"R", ["SR"], ⟨"", 6⟩⟩,
    ⟨"R", ["S", "R"], ⟨"", 7⟩⟩, ⟨"->>", [";x"], ⟨"", 8⟩⟩, ⟨"R", ["*"], ⟨"", 9⟩⟩]

theorem read_literalText_signs :
    ∃ grammar, build signTerminals signTerminalDeclarations = .ok grammar ∧
      grammar.FitsLiteralForm ∧
      grammar.literalText =
        "S\n| -> ;x SR\nS R ->>\n->> ;x\nR SR S,R *\nS -> |\n" ∧
      Source.grammarOfText grammar.literalText = .ok grammar := by
  have hbuilt : build signTerminals signTerminalDeclarations =
      .ok (ofProductions signTerminals [⟨"S", .terminal "->"⟩, ⟨"S", .terminal "|"⟩,
        ⟨"R", .terminal "SR"⟩, ⟨"R", .pair "S" "R"⟩, ⟨"->>", .terminal ";x"⟩,
        ⟨"R", .empty⟩]) := by
    decide
  have hfits : FitsLiteralForm (ofProductions signTerminals [⟨"S", .terminal "->"⟩,
      ⟨"S", .terminal "|"⟩, ⟨"R", .terminal "SR"⟩, ⟨"R", .pair "S" "R"⟩,
      ⟨"->>", .terminal ";x"⟩, ⟨"R", .empty⟩]) := by
    refine ⟨⟨by decide, by decide, by decide, by decide, by decide⟩, by decide, ?_⟩
    intro symbol left right hpair hterminal
    have hcomma : ',' ∈ (left ++ "," ++ right).toList := by simp
    exact absurd hcomma ((by decide : ∀ terminal ∈ signTerminals.terminals,
      ',' ∉ terminal.toList) _ hterminal)
  exact ⟨_, hbuilt, hfits, by decide, read_literalText hbuilt hfits⟩

end LiteralForm

end Grammar

end ChomskyChart
