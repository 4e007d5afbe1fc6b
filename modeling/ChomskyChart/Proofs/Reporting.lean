import ChomskyChart.Proofs.Header
import ChomskyChart.Proofs.RuleLine
import ChomskyChart.Source.Reading

namespace ChomskyChart

inductive Stage where
  | header
  | rules
  | grammar
  deriving DecidableEq, Repr

def SourceFault.stage? : SourceFault → Option Stage
  | missingStart => some .header
  | missingTerminals => some .header
  | missingNonterminals => some .header
  | missingLeftSide => some .rules
  | missingAlternatives => some .rules
  | unexpectedArrow => some .rules
  | emptyAlternative => some .rules
  | malformedPair _ => some .rules
  | ambiguousPair _ => some .rules
  | grammar _ => some .grammar
  | unexpectedBlankLine => none
  | file _ => none

open Source (Line Token)

namespace Vocabulary

variable {vocabulary : Vocabulary} {fault : SourceFault}

theorem stage?_resolve {word : String}
    (hread : vocabulary.resolve word = .error fault) :
    fault.stage? = some .rules := by
  unfold resolve at hread
  split at hread
  · cases hread
  · split at hread
    · rw [malformedPair_of_commaPair hread]
      rfl
    · split at hread
      · cases hread
      · cases hread
      · cases hread
        rfl

theorem stage?_alternativeOf {tokens : List Token}
    (hread : vocabulary.alternativeOf tokens = .error fault) :
    fault.stage? = some .rules := by
  rcases bind_eq_error hread with hwords | ⟨words, _, hrest⟩
  · obtain ⟨token, _, htoken⟩ := exists_of_mapM_eq_error hwords
    rw [Token.word?_eq_unexpectedArrow htoken]
    rfl
  · match words, hrest with
    | [], hrest =>
        cases hrest
        rfl
    | [word], hrest => exact stage?_resolve hrest
    | _ :: _ :: _, hrest => cases hrest

theorem stage?_alternativesOf {tokens : List Token}
    (hread : vocabulary.alternativesOf tokens = .error fault) :
    fault.stage? = some .rules := by
  unfold alternativesOf at hread
  split at hread
  · cases hread
    rfl
  · cases hread
    rfl
  · obtain ⟨part, _, hpart⟩ := exists_of_mapM_eq_error hread
    exact stage?_alternativeOf hpart
  · obtain ⟨token, _, htoken⟩ := exists_of_mapM_eq_error hread
    exact stage?_alternativeOf htoken

theorem alternativesOf_ne_nil {tokens : List Token}
    {alternatives : List (List String)}
    (hread : vocabulary.alternativesOf tokens = .ok alternatives) :
    alternatives ≠ [] := by
  unfold alternativesOf at hread
  split at hread
  · cases hread
  · cases hread
  · exact ne_nil_of_mapM_eq_ok (List.splitOn_ne_nil _ _) hread
  · rename_i hempty _ _
    exact ne_nil_of_mapM_eq_ok hempty hread

end Vocabulary

theorem Source.Token.symbols_eq_nil_of_scan {text : List Char}
    (hscan : scan text = []) :
    Text.symbols text = [] := by
  induction text using scan.induct with
  | case1 => rfl
  | case2 rest _ =>
      rw [scan_bar_cons] at hscan
      cases hscan
  | case3 c rest _ hblank ih =>
      rw [scan_blank_cons hblank] at hscan
      rw [Text.symbols, Text.words_blank_cons hblank]
      exact ih hscan
  | case4 c rest hbar hblank _ =>
      rw [scan, if_neg hbar, if_neg hblank] at hscan
      cases hscan

namespace Vocabulary

variable {vocabulary : Vocabulary} {fault : SourceFault} {line : List Char}
  {rule : Rule}

theorem lineTokens_ne_nil (hwritten : Text.symbols line ≠ []) :
    vocabulary.lineTokens line ≠ [] := by
  unfold lineTokens
  split
  · exact fun hscan => hwritten (Token.symbols_eq_nil_of_scan hscan)
  · simpa using hwritten

/-- A line that is not blank has no other faults than those of its form. -/
theorem stage?_lineRule (hwritten : Text.symbols line ≠ [])
    (hread : vocabulary.lineRule line = .error fault) :
    fault.stage? = some .rules := by
  have hne : vocabulary.lineTokens line ≠ [] := lineTokens_ne_nil hwritten
  unfold lineRule ruleOf at hread
  split at hread
  · rename_i hnil
    exact absurd hnil hne
  · rcases bind_eq_error hread with halternatives | ⟨_, _, hrule⟩
    · exact stage?_alternativesOf halternatives
    · cases hrule
  · cases hread
    rfl

theorem alternatives_ne_nil (hread : vocabulary.lineRule line = .ok rule) :
    rule.alternatives ≠ [] := by
  unfold lineRule ruleOf at hread
  split at hread
  · cases hread
  · obtain ⟨_, halternatives, hrule⟩ := bind_eq_ok hread
    cases hrule
    exact alternativesOf_ne_nil halternatives
  · cases hread

def AdmitsRule (vocabulary : Vocabulary) (rule : Rule) : Prop :=
  rule.symbol ∈ vocabulary.nonterminals ∧
    ∀ rightSide ∈ rule.alternatives, ∃ alternative,
      vocabulary.Shapes rightSide alternative

theorem admitsRule_iff (hne : rule.alternatives ≠ []) (location : Location) :
    vocabulary.AdmitsRule rule ↔
      ∀ declaration ∈ rule.declarations location,
        vocabulary.Admits declaration := by
  apply Iff.intro
  · intro hadmits declaration hmem
    obtain ⟨rightSide, hright, rfl⟩ := List.mem_map.mp hmem
    exact ⟨hadmits.1, hadmits.2 rightSide hright⟩
  · intro hall
    have heach : ∀ rightSide ∈ rule.alternatives,
        vocabulary.Admits ⟨rule.symbol, rightSide, location⟩ :=
          fun rightSide hright =>
            hall _ (List.mem_map_of_mem hright)
    obtain ⟨rightSide, hright⟩ := List.exists_mem_of_ne_nil _ hne
    exact ⟨(heach rightSide hright).1, fun other hother => (heach other hother).2⟩

end Vocabulary

namespace Source

/-- The problems of the rule lines that are not read: one for each such line, in
the order of the lines. -/
structure RuleReport (lines : List Line) (vocabulary : Vocabulary) (last : Nat)
    (problems : List (Located SourceFault)) : Prop where
  increasing : problems.Pairwise fun first second =>
    first.location.line < second.location.line
  mem_iff : ∀ problem, problem ∈ problems ↔ ∃ line, IsRule lines last line ∧
    problem.location = ⟨"", line.number⟩ ∧
      vocabulary.lineRule line.text = .error problem.fault

/-- The problems of the rules that are not in normal form, in the order of the
lines. -/
structure FormReport (lines : List Line) (vocabulary : Vocabulary) (last : Nat)
    (problems : List (Located SourceFault)) : Prop where
  ordered : problems.Pairwise fun first second =>
    first.location.line ≤ second.location.line
  placed : ∀ problem ∈ problems, ∃ line rule, IsRule lines last line ∧
    vocabulary.lineRule line.text = .ok rule ∧ ¬ vocabulary.AdmitsRule rule ∧
      problem.location = ⟨"", line.number⟩ ∧
      ∃ rightSide ∈ rule.alternatives, ∃ fault,
        vocabulary.Breaches ⟨rule.symbol, rightSide, problem.location⟩ fault ∧
          problem.fault = .grammar fault
  represented : ∀ line rule, IsRule lines last line →
    vocabulary.lineRule line.text = .ok rule → ¬ vocabulary.AdmitsRule rule →
      ∃ problem ∈ problems, problem.location = ⟨"", line.number⟩

/-- The problems that reading the lines ends with, by the stage that it does not
pass. -/
inductive FailsAt (lines : List Line) :
    Stage → List (Located SourceFault) → Prop where
  | header {fault : SourceFault} (hlacks : Lacks lines fault) :
      FailsAt lines .header [⟨⟨"", 0⟩, fault⟩]
  | rules {vocabulary : Vocabulary} {last : Nat}
      {problems : List (Located SourceFault)} (hheads : Heads lines vocabulary last)
      (hreport : RuleReport lines vocabulary last problems) :
      FailsAt lines .rules problems
  | grammar {vocabulary : Vocabulary} {last : Nat}
      {flaws breaches : List (Located SourceFault)}
      (hheads : Heads lines vocabulary last)
      (hreads : ∀ line, IsRule lines last line →
        ∃ rule, vocabulary.lineRule line.text = .ok rule)
      (hnodup : flaws.Nodup)
      (hflaws : ∀ problem, problem ∈ flaws ↔
        problem.location = ⟨"", 0⟩ ∧ ∃ fault, vocabulary.Flawed fault ∧
          problem.fault = .grammar fault)
      (hbreaches : FormReport lines vocabulary last breaches) :
      FailsAt lines .grammar (flaws ++ breaches)

theorem FailsAt.stage?_eq {lines : List Line} {stage : Stage}
    {problems : List (Located SourceFault)} (hfails : FailsAt lines stage problems)
    {problem : Located SourceFault} (hmem : problem ∈ problems) :
    problem.fault.stage? = some stage := by
  cases hfails with
  | header hlacks =>
      rw [List.mem_singleton.mp hmem]
      cases hlacks with
      | start _ => rfl
      | terminals _ _ => rfl
      | nonterminals _ _ _ => rfl
  | rules _ hreport =>
      obtain ⟨line, hrule, _, hread⟩ := (hreport.mem_iff problem).mp hmem
      apply Vocabulary.stage?_lineRule _ hread
      intro hnil
      have hblank := hrule.not_blank
      rw [Line.isBlank_iff.mpr hnil] at hblank
      cases hblank
  | grammar _ _ _ hflaws hbreaches =>
      rcases List.mem_append.mp hmem with hflaw | hbreach
      · obtain ⟨_, fault, _, hfault⟩ := (hflaws problem).mp hflaw
        rw [hfault]
        rfl
      · obtain ⟨_, _, _, _, _, _, _, _, fault, _, hfault⟩ :=
          hbreaches.placed problem hbreach
        rw [hfault]
        rfl

theorem FailsAt.unique {lines : List Line} {first second : Stage}
    {problems : List (Located SourceFault)} (hne : problems ≠ [])
    (hfirst : FailsAt lines first problems)
    (hsecond : FailsAt lines second problems) : first = second := by
  obtain ⟨problem, hmem⟩ := List.exists_mem_of_ne_nil _ hne
  exact Option.some.inj
    ((hfirst.stage?_eq hmem).symm.trans (hsecond.stage?_eq hmem))

end Source

namespace Document

variable {document : Document} {lines : List Line} {last : Nat} {file : String}
  {problems : List (Located SourceFault)}

theorem failure?_lineDeclarations {line : Line} {problem : Located SourceFault} :
    failure? (document.lineDeclarations file line) = some problem ↔
      problem.location = ⟨file, line.number⟩ ∧
        document.vocabulary.lineRule line.text = .error problem.fault := by
  cases problem with
  | mk location fault =>
      unfold lineDeclarations
      cases document.vocabulary.lineRule line.text with
      | ok rule => simp [failure?]
      | error other => simp [failure?, eq_comm]

theorem filterMap_of_draft_error (hdraft : document.draft file = .error problems) :
    problems ≠ [] ∧ problems =
      document.rules.filterMap fun line =>
        failure? (document.lineDeclarations file line) := by
  unfold draft at hdraft
  split at hdraft
  · cases hdraft
  · rename_i others hgathered
    cases hdraft
    obtain ⟨hne, hproblems⟩ := gather_eq_error_iff.mp hgathered
    rw [List.filterMap_map] at hproblems
    exact ⟨hne, hproblems.symm⟩

theorem ruleReport_of_draft (hdescribes : Source.Describes lines document last)
    (hdraft : document.draft "" = .error problems) :
    Source.RuleReport lines document.vocabulary last problems := by
  obtain ⟨_, hproblems⟩ := filterMap_of_draft_error hdraft
  refine ⟨?_, ?_⟩
  · rw [hproblems]
    apply hdescribes.increasing.filterMap
    intro first second hless firstProblem hfirst secondProblem hsecond
    rw [(failure?_lineDeclarations.mp hfirst).1,
      (failure?_lineDeclarations.mp hsecond).1]
    exact hless
  · intro problem
    rw [hproblems, List.mem_filterMap]
    apply exists_congr
    intro line
    rw [hdescribes.mem_rules, failure?_lineDeclarations]

def declared (document : Document) (file : String) (line : Line) :
    List Declaration := (document.lineDeclarations file line).toOption.getD []

theorem declared_of_lineRule {line : Line} {rule : Rule}
    (hread : document.vocabulary.lineRule line.text = .ok rule) :
    document.declared file line = rule.declarations ⟨file, line.number⟩ := by
  rw [declared, lineDeclarations, hread]
  rfl

theorem draft_eq_ok {draft : Draft} (hdraft : document.draft file = .ok draft) :
    draft.vocabulary = document.vocabulary ∧
      draft.declarations = document.rules.flatMap (document.declared file) ∧
      ∀ line ∈ document.rules, ∃ rule,
        document.vocabulary.lineRule line.text = .ok rule := by
  unfold Document.draft at hdraft
  split at hdraft
  · rename_i groups hgathered
    cases hdraft
    have hgroups := gather_eq_ok_iff.mp hgathered
    refine ⟨rfl, ?_, ?_⟩
    · have hdeclared :=
        congrArg (List.map fun outcome => outcome.toOption.getD []) hgroups
      rw [List.map_map, List.map_map] at hdeclared
      have hsame : groups = document.rules.map (document.declared file) := by
        rw [← List.map_id groups]
        exact hdeclared.symm
      rw [hsame, List.flatMap_def]
    · intro line hline
      have hmem : document.lineDeclarations file line ∈ groups.map .ok := by
        rw [← hgroups]
        exact List.mem_map_of_mem hline
      obtain ⟨group, _, hgroup⟩ := List.mem_map.mp hmem
      rw [lineDeclarations] at hgroup
      cases hread : document.vocabulary.lineRule line.text with
      | ok rule => exact ⟨rule, rfl⟩
      | error fault =>
          rw [hread] at hgroup
          cases hgroup
  · cases hdraft

def formProblems (document : Document) (group : Declaration → List GrammarFault)
    (line : Line) : List (Located SourceFault) :=
  (document.declared "" line).flatMap fun declaration =>
    (group declaration).map fun fault => ⟨declaration.location, .grammar fault⟩

theorem mem_formProblems {group : Declaration → List GrammarFault} {line : Line}
    {rule : Rule} (hread : document.vocabulary.lineRule line.text = .ok rule)
    {problem : Located SourceFault} :
    problem ∈ document.formProblems group line ↔
      problem.location = ⟨"", line.number⟩ ∧ ∃ rightSide ∈ rule.alternatives,
        ∃ fault ∈ group ⟨rule.symbol, rightSide, problem.location⟩,
          problem.fault = .grammar fault := by
  rw [formProblems, declared_of_lineRule hread, Rule.declarations, List.mem_flatMap]
  apply Iff.intro
  · intro hmem
    obtain ⟨declaration, hdeclaration, hproblem⟩ := hmem
    obtain ⟨rightSide, hright, rfl⟩ := List.mem_map.mp hdeclaration
    obtain ⟨fault, hfault, rfl⟩ := List.mem_map.mp hproblem
    exact ⟨rfl, rightSide, hright, fault, hfault, rfl⟩
  · intro hproblem
    obtain ⟨hlocation, rightSide, hright, fault, hfault, hkind⟩ := hproblem
    refine ⟨_, List.mem_map_of_mem hright, List.mem_map.mpr ⟨fault, ?_, ?_⟩⟩
    · rw [hlocation] at hfault
      exact hfault
    · cases problem
      cases hlocation
      cases hkind
      rfl

variable {group : Declaration → List GrammarFault}

theorem formReport_flatMap (hdescribes : Source.Describes lines document last)
    (hreads : ∀ line ∈ document.rules, ∃ rule,
      document.vocabulary.lineRule line.text = .ok rule)
    (hgroup : ∀ declaration fault, fault ∈ group declaration ↔
      document.vocabulary.Breaches declaration fault) :
    Source.FormReport lines document.vocabulary last
      (document.rules.flatMap (document.formProblems group)) := by
  have hplace :
      ∀ line ∈ document.rules, ∀ problem ∈ document.formProblems group line,
      problem.location = ⟨"", line.number⟩ := by
    intro line hline problem hproblem
    obtain ⟨rule, hread⟩ := hreads line hline
    exact ((mem_formProblems hread).mp hproblem).1
  refine ⟨?_, ?_, ?_⟩
  · apply List.pairwise_flatMap.mpr
    refine ⟨?_, hdescribes.increasing.imp_of_mem ?_⟩
    · intro line hline
      apply List.pairwise_of_forall_mem_list
      intro first hfirst second hsecond
      rw [hplace line hline first hfirst, hplace line hline second hsecond]
    · intro first second hfirst hsecond hless problem hproblem other hother
      rw [hplace first hfirst problem hproblem, hplace second hsecond other hother]
      exact Nat.le_of_lt hless
  · intro problem hproblem
    obtain ⟨line, hline, hmem⟩ := List.mem_flatMap.mp hproblem
    obtain ⟨rule, hread⟩ := hreads line hline
    obtain ⟨hlocation, rightSide, hright, fault, hfault, hkind⟩ :=
      (mem_formProblems hread).mp hmem
    have hbreaches := (hgroup _ _).mp hfault
    refine ⟨line, rule, (hdescribes.mem_rules line).mp hline, hread, ?_, hlocation,
      rightSide, hright, fault, hbreaches, hkind⟩
    intro hadmits
    exact Vocabulary.Admits.not_breaches
      ⟨hadmits.1, hadmits.2 rightSide hright⟩ hbreaches
  · intro line rule hrule hread hnot
    have hline := (hdescribes.mem_rules line).mpr hrule
    have hne := Vocabulary.alternatives_ne_nil hread
    rw [Vocabulary.admitsRule_iff hne ⟨"", line.number⟩] at hnot
    push Not at hnot
    obtain ⟨declaration, hdeclaration, hrefused⟩ := hnot
    obtain ⟨rightSide, hright, rfl⟩ := List.mem_map.mp hdeclaration
    rw [Vocabulary.admits_iff_forall_not_breaches] at hrefused
    push Not at hrefused
    obtain ⟨fault, hbreaches⟩ := hrefused
    refine ⟨⟨⟨"", line.number⟩, .grammar fault⟩,
      List.mem_flatMap.mpr ⟨line, hline, ?_⟩, rfl⟩
    exact (mem_formProblems hread).mpr
      ⟨rfl, rightSide, hright, fault, (hgroup _ _).mpr hbreaches, rfl⟩

end Document

theorem Grammar.reports_of_build {vocabulary : Vocabulary}
    {declarations : List Declaration} {origin : Location}
    {problems : List (Located GrammarFault)}
    (hbuilt : Grammar.build vocabulary declarations origin = .error problems) :
    Grammar.Reports problems vocabulary declarations origin
      vocabulary.distinct.faults vocabulary.distinct.breaches := by
  by_cases hproblems : vocabulary.distinct.problems declarations origin = []
  · rw [Grammar.build, hproblems] at hbuilt
    cases hbuilt
  · rw [Grammar.build_of_problems hproblems] at hbuilt
    cases hbuilt
    exact Grammar.reports_problems hproblems

namespace Draft

variable {draft : Draft} {file : String}

theorem build_of_grammar {grammar : Grammar}
    (hgrammar : draft.grammar file = .ok grammar) :
    Grammar.build draft.vocabulary draft.declarations ⟨file, 0⟩ = .ok grammar := by
  unfold Draft.grammar at hgrammar
  cases hbuilt : Grammar.build draft.vocabulary draft.declarations ⟨file, 0⟩ with
  | error problems =>
      rw [hbuilt] at hgrammar
      cases hgrammar
  | ok built =>
      rw [hbuilt] at hgrammar
      cases hgrammar
      rfl

theorem exists_of_grammar_error {problems : List (Located SourceFault)}
    (hgrammar : draft.grammar file = .error problems) :
    ∃ found, Grammar.build draft.vocabulary draft.declarations ⟨file, 0⟩ =
      .error found ∧
      problems = found.map Located.ofGrammar := by
  unfold Draft.grammar at hgrammar
  cases hbuilt : Grammar.build draft.vocabulary draft.declarations ⟨file, 0⟩ with
  | error found =>
      rw [hbuilt] at hgrammar
      cases hgrammar
      exact ⟨found, rfl, rfl⟩
  | ok grammar =>
      rw [hbuilt] at hgrammar
      cases hgrammar

end Draft

namespace Source

variable {document : Document} {lines : List Line} {last : Nat}
  {problems : List (Located SourceFault)}

theorem failsAt_grammar {draft : Draft} (hdescribes : Describes lines document last)
    (hdraft : document.draft "" = .ok draft)
    (hgrammar : draft.grammar "" = .error problems) :
    problems ≠ [] ∧ FailsAt lines .grammar problems := by
  obtain ⟨hvocabulary, hdeclarations, hreads⟩ := Document.draft_eq_ok hdraft
  obtain ⟨found, hbuilt, rfl⟩ := Draft.exists_of_grammar_error hgrammar
  rw [hvocabulary] at hbuilt
  have hreports := Grammar.reports_of_build hbuilt
  have hform := Document.formReport_flatMap hdescribes hreads hreports.mem_group
  refine ⟨by simpa using hreports.ne_nil, ?_⟩
  have hparts : found.map Located.ofGrammar =
      (document.vocabulary.distinct.faults.map fun fault =>
          (⟨⟨"", 0⟩, .grammar fault⟩ : Located SourceFault)) ++
        document.rules.flatMap
          (document.formProblems document.vocabulary.distinct.breaches) := by
    rw [hreports.eq_append, hdeclarations, List.map_append, List.map_map,
      List.flatMap_assoc, List.map_flatMap]
    simp only [List.map_flatMap, List.map_map]
    rfl
  rw [hparts]
  refine .grammar hdescribes.heads ?_ ?_ ?_ hform
  · intro line hrule
    exact hreads line ((hdescribes.mem_rules line).mpr hrule)
  · apply hreports.nodup_header.map
    intro first second heq
    cases heq
    rfl
  · intro problem
    rw [List.mem_map]
    apply Iff.intro
    · intro hflaw
      obtain ⟨fault, hfault, rfl⟩ := hflaw
      exact ⟨rfl, fault, (hreports.mem_header fault).mp hfault, rfl⟩
    · intro hflaw
      obtain ⟨hlocation, fault, hflawed, hkind⟩ := hflaw
      refine ⟨fault, (hreports.mem_header fault).mpr hflawed, ?_⟩
      cases problem
      cases hlocation
      cases hkind
      rfl

theorem failsAt_of_draftOfText {text : String}
    (hread : draftOfText text = .error problems) :
    problems ≠ [] ∧ ∃ stage, FailsAt (Line.ofText text) stage problems := by
  have hincreasing := Line.increasing_ofText text
  have hpositive : ∀ line ∈ Line.ofText text, 0 < line.number := fun _ hline =>
    Line.number_pos_of_mem_ofText hline
  rw [draftOfText_eq, draftOf] at hread
  split at hread
  · rename_i document hdocument
    obtain ⟨last, hdescribes⟩ :=
      describes_of_ofLines hincreasing hpositive hdocument
    exact ⟨(Document.filterMap_of_draft_error hread).1, .rules,
      .rules hdescribes.heads (Document.ruleReport_of_draft hdescribes hread)⟩
  · rename_i fault hdocument
    cases hread
    exact ⟨List.cons_ne_nil _ _, .header,
      .header (lacks_of_ofLines hincreasing hpositive hdocument)⟩

theorem describes_of_draftOfText {text : String} {draft : Draft}
    (hdraft : draftOfText text = .ok draft) :
    ∃ document last, Describes (Line.ofText text) document last ∧
      document.draft "" = .ok draft := by
  have hpositive : ∀ line ∈ Line.ofText text, 0 < line.number := fun _ hline =>
    Line.number_pos_of_mem_ofText hline
  rw [draftOfText_eq, draftOf] at hdraft
  split at hdraft
  · rename_i document hdocument
    obtain ⟨last, hdescribes⟩ :=
      describes_of_ofLines (Line.increasing_ofText text) hpositive hdocument
    exact ⟨document, last, hdescribes, hdraft⟩
  · cases hdraft

theorem failsAt_of_draftOfText_ok {text : String} {draft : Draft}
    (hdraft : draftOfText text = .ok draft)
    (hgrammar : draft.grammar "" = .error problems) :
    problems ≠ [] ∧ FailsAt (Line.ofText text) .grammar problems := by
  obtain ⟨document, last, hdescribes, hdrafted⟩ := describes_of_draftOfText hdraft
  exact failsAt_grammar hdescribes hdrafted hgrammar

/-- What is reported for a text comes from the first stage that the text does
not pass, and says all that is wrong there. -/
theorem problems_located (text : String) {problems : List (Located SourceFault)}
    (hread : grammarOfText text = .error problems) :
    problems ≠ [] ∧ ∃ stage, FailsAt (Line.ofText text) stage problems ∧
      (∀ problem ∈ problems, problem.fault.stage? = some stage) ∧
        ∀ other, FailsAt (Line.ofText text) other problems → other = stage := by
  have hfails :
      problems ≠ [] ∧ ∃ stage, FailsAt (Line.ofText text) stage problems := by
    unfold grammarOfText at hread
    cases hdraft : draftOfText text with
    | error found =>
        rw [hdraft] at hread
        cases hread
        exact failsAt_of_draftOfText hdraft
    | ok draft =>
        rw [hdraft] at hread
        obtain ⟨hne, hgrammar⟩ := failsAt_of_draftOfText_ok hdraft hread
        exact ⟨hne, .grammar, hgrammar⟩
  obtain ⟨hne, stage, hstage⟩ := hfails
  exact ⟨hne, stage, hstage, fun _ hmem => hstage.stage?_eq hmem,
    fun _ hother => hother.unique hne hstage⟩

theorem problems_located_samples :
    (∃ problems, grammarOfText "; only a start\n\nS\n" = .error problems ∧
      problems = [⟨⟨"", 0⟩, .missingTerminals⟩] ∧
      FailsAt (Line.ofText "; only a start\n\nS\n") .header problems) ∧
    (∃ problems, grammarOfText "S\na\nS A\n\nS A,\n; a rule\nA a\nA" =
        .error problems ∧
      problems = [⟨⟨"", 5⟩, .malformedPair "A,"⟩, ⟨⟨"", 8⟩, .missingAlternatives⟩] ∧
      FailsAt (Line.ofText "S\na\nS A\n\nS A,\n; a rule\nA a\nA") .rules
        problems) ∧
    (∃ problems, grammarOfText "S\na *\nA\nA a\n\nA A B" = .error problems ∧
      problems = [⟨⟨"", 0⟩, .grammar .reservedTerminal⟩,
        ⟨⟨"", 0⟩, .grammar (.startNotNonterminal "S")⟩,
        ⟨⟨"", 6⟩, .grammar (.unitProduction "A")⟩,
        ⟨⟨"", 6⟩, .grammar (.undefinedTerminal "B")⟩] ∧
      FailsAt (Line.ofText "S\na *\nA\nA a\n\nA A B") .grammar problems) := by
  have hheader : grammarOfText "; only a start\n\nS\n" =
      .error [⟨⟨"", 0⟩, .missingTerminals⟩] := by
    decide
  have hrules : grammarOfText "S\na\nS A\n\nS A,\n; a rule\nA a\nA" =
      .error [⟨⟨"", 5⟩, .malformedPair "A,"⟩, ⟨⟨"", 8⟩, .missingAlternatives⟩] := by
    decide
  have hgrammar : grammarOfText "S\na *\nA\nA a\n\nA A B" =
      .error [⟨⟨"", 0⟩, .grammar .reservedTerminal⟩,
        ⟨⟨"", 0⟩, .grammar (.startNotNonterminal "S")⟩,
        ⟨⟨"", 6⟩, .grammar (.unitProduction "A")⟩,
        ⟨⟨"", 6⟩, .grammar (.undefinedTerminal "B")⟩] := by
    decide
  refine ⟨⟨_, hheader, rfl, ?_⟩, ⟨_, hrules, rfl, ?_⟩, ⟨_, hgrammar, rfl, ?_⟩⟩
  · obtain ⟨_, stage, hfails, hstage, _⟩ := problems_located _ hheader
    cases hstage _ List.mem_cons_self
    exact hfails
  · obtain ⟨_, stage, hfails, hstage, _⟩ := problems_located _ hrules
    cases hstage _ List.mem_cons_self
    exact hfails
  · obtain ⟨_, stage, hfails, hstage, _⟩ := problems_located _ hgrammar
    cases hstage _ List.mem_cons_self
    exact hfails

end Source

end ChomskyChart
