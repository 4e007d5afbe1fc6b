import ChomskyChart.Proofs.Mirroring
import ChomskyChart.Proofs.Redeclaration

namespace ChomskyChart

namespace Grammar

def withStarts (grammar : Grammar) (starts : List String) :
    Except (List (Located GrammarFault)) Grammar :=
  starts.foldlM withStart grammar

def startingAt (grammar : Grammar) (start : String) : Grammar :=
  { grammar with start }

section Change

variable {grammar other : Grammar} {start : String} {starts : List String}

theorem withStart_of_mem (hstart : start ∈ grammar.nonterminals) :
    grammar.withStart start = .ok (grammar.startingAt start) :=
  if_pos hstart

theorem withStart_of_not_mem (hstart : start ∉ grammar.nonterminals) :
    grammar.withStart start = .error [⟨.unknown, .startNotNonterminal start⟩] :=
  if_neg hstart

theorem exists_of_withStart (hchanged : grammar.withStart start = .ok other) :
    other = grammar.startingAt start := by
  by_cases hstart : start ∈ grammar.nonterminals
  · rw [withStart_of_mem hstart] at hchanged
    exact (Except.ok.inj hchanged).symm
  · rw [withStart_of_not_mem hstart] at hchanged
    cases hchanged

theorem withStarts_cons :
    grammar.withStarts (start :: starts) =
      grammar.withStart start >>= (·.withStarts starts) :=
  List.foldlM_cons

theorem withStarts_append (earlier later : List String) :
    grammar.withStarts (earlier ++ later) =
      grammar.withStarts earlier >>= (·.withStarts later) :=
  List.foldlM_append

theorem withStarts_of_forall_mem
    (hstarts : ∀ start ∈ starts, start ∈ grammar.nonterminals) :
    grammar.withStarts starts =
      .ok (grammar.startingAt (starts.getLastD grammar.start)) := by
  induction starts generalizing grammar with
  | nil => rfl
  | cons start starts ih =>
      obtain ⟨hstart, hrest⟩ := List.forall_mem_cons.mp hstarts
      have htail : (grammar.startingAt start).withStarts starts =
          .ok (grammar.startingAt (starts.getLastD start)) := ih hrest
      rw [withStarts_cons, withStart_of_mem hstart, List.getLastD_cons]
      exact htail

theorem eq_startingAt_of_withStarts
    (hchanged : grammar.withStarts starts = .ok other) :
    other = grammar.startingAt other.start := by
  induction starts generalizing grammar with
  | nil =>
      cases hchanged
      rfl
  | cons start starts ih =>
      rw [withStarts_cons] at hchanged
      cases hnext : grammar.withStart start with
      | error problems =>
          rw [hnext] at hchanged
          cases hchanged
      | ok next =>
          rw [hnext, exists_of_withStart hnext] at hchanged
          have hrest : (grammar.startingAt start).withStarts starts = .ok other :=
            hchanged
          exact (ih hrest).trans rfl

theorem rules_of_withStarts (hchanged : grammar.withStarts starts = .ok other) :
    other.rules = grammar.rules := by
  rw [eq_startingAt_of_withStarts hchanged]
  rfl

theorem nonterminals_of_withStarts
    (hchanged : grammar.withStarts starts = .ok other) :
    other.nonterminals = grammar.nonterminals := by
  rw [eq_startingAt_of_withStarts hchanged]
  rfl

end Change

section Rebuilding

variable {vocabulary : Vocabulary} {declarations : List Declaration}
  {grammar other : Grammar}

/-- Of declarations without problems only a new start symbol can be a problem. -/
theorem problems_of_start {origin : Location}
    (hnone : vocabulary.distinct.problems declarations origin = [])
    (start : String) :
    (Vocabulary.distinct { vocabulary with start }).problems declarations origin =
      (vocabulary.distinct.startFaults start).map (Located.mk origin) := by
  obtain ⟨hfaults, hdeclarations⟩ := List.append_eq_nil_iff.mp hnone
  have hterminals := (List.append_eq_nil_iff.mp (List.map_eq_nil_iff.mp hfaults)).1
  change
    (vocabulary.distinct.terminals.flatMap vocabulary.distinct.terminalFaults ++
      vocabulary.distinct.startFaults start).map (Located.mk origin) ++
    declarations.flatMap vocabulary.distinct.declarationFaults = _
  rw [hterminals, hdeclarations, List.nil_append, List.append_nil]

theorem build_with_start (hbuilt : build vocabulary declarations = .ok grammar)
    (start : String) :
    build { vocabulary with start } declarations = grammar.withStart start := by
  have hproblems := problems_of_start (problems_of_build hbuilt) start
  rw [eq_of_build hbuilt]
  by_cases hstart : start ∈ vocabulary.distinct.nonterminals
  · rw [Vocabulary.startFaults, if_pos hstart] at hproblems
    rw [withStart_of_mem hstart, build_of_no_problems hproblems]
    rfl
  · rw [Vocabulary.startFaults, if_neg hstart] at hproblems
    rw [withStart_of_not_mem hstart, build_of_problems (by rw [hproblems]; simp),
      hproblems]
    rfl

theorem mem_nonterminals_of_build {origin : Location}
    (hbuilt : build vocabulary declarations origin = .ok grammar)
    {symbol : String} :
    symbol ∈ grammar.nonterminals ↔ symbol ∈ vocabulary.nonterminals := by
  rw [eq_of_build hbuilt]
  exact List.mem_eraseDups

theorem start_of_build {origin : Location}
    (hbuilt : build vocabulary declarations origin = .ok grammar) :
    grammar.start = vocabulary.start := by
  rw [eq_of_build hbuilt]
  rfl

theorem withStarts_eq_build (hbuilt : build vocabulary declarations = .ok grammar)
    {starts : List String}
    (hstarts : ∀ start ∈ starts, start ∈ vocabulary.nonterminals) :
    grammar.withStarts starts =
      .ok (grammar.startingAt (starts.getLastD vocabulary.start)) ∧
      build { vocabulary with start := starts.getLastD vocabulary.start }
          declarations =
        .ok (grammar.startingAt (starts.getLastD vocabulary.start)) := by
  have hdeclared : ∀ start ∈ starts, start ∈ grammar.nonterminals :=
    fun start hmem => (mem_nonterminals_of_build hbuilt).mpr (hstarts start hmem)
  have hlast : starts.getLastD grammar.start ∈ grammar.nonterminals := by
    have hmem : starts.getLastD grammar.start ∈ grammar.start :: starts :=
      List.getLastD_mem_cons
    rcases List.mem_cons.mp hmem with heq | hmem
    · rw [heq]
      exact (sound_of_build hbuilt).proper.start_nonterminal
    · exact hdeclared _ hmem
  rw [← start_of_build hbuilt]
  exact ⟨withStarts_of_forall_mem hdeclared,
    (build_with_start hbuilt _).trans (withStart_of_mem hlast)⟩

theorem withStarts_eq_error (hbuilt : build vocabulary declarations = .ok grammar)
    {earlier : List String}
    (hearlier : ∀ start ∈ earlier, start ∈ vocabulary.nonterminals)
    {symbol : String} (hsymbol : symbol ∉ vocabulary.nonterminals) :
    ∃ reached problems, grammar.withStarts earlier = .ok reached ∧
      reached.withStart symbol = .error problems ∧
      build { vocabulary with start := symbol } declarations = .error problems := by
  obtain ⟨hreached, hrebuilt⟩ := withStarts_eq_build hbuilt hearlier
  have hundeclared := mt (mem_nonterminals_of_build hrebuilt).mp hsymbol
  refine ⟨_, _, hreached, withStart_of_not_mem hundeclared, ?_⟩
  exact (build_with_start hrebuilt symbol).trans (withStart_of_not_mem hundeclared)

theorem increasing_strayEmpty (grammar : Grammar) :
    grammar.strayEmpty.Pairwise (· < ·) :=
  ((grammar.producersOf .empty).increasing.imp compareOfLessAndEq_eq_lt.mp).filter _

end Rebuilding

end Grammar

namespace Chart

theorem fill_congr {first second : Grammar} (hrules : first.rules = second.rules)
    (tokens : List String) (count : Nat) :
    fill first tokens count = fill second tokens count := by
  apply fill_of_within
  · intro symbol alternative _ halternative
    rwa [Grammar.alternatives, ← hrules]
  · intro symbol alternative _ halternative
    rwa [Grammar.alternatives, hrules]

theorem build_congr {first second : Grammar} (hrules : first.rules = second.rules)
    (tokens : List String) : build first tokens = build second tokens := by
  rw [build, build, fill_congr hrules]

theorem chart_recognize (grammar : Grammar) (tokens : List String) :
    (recognize grammar tokens).chart = build grammar tokens := by
  rw [recognize]
  cases build grammar tokens with
  | none => rfl
  | some chart => rfl

end Chart

namespace Grammar

/-- Changing the start symbol of a grammar again and again gives what the same
declarations give with the last of the start symbols, and stops with their
problems at the first symbol that is not a nonterminal. The charts stay as they
were. -/
theorem override_eq_rebuild {vocabulary : Vocabulary}
    {declarations : List Declaration} {grammar : Grammar}
    (hbuilt : build vocabulary declarations = .ok grammar) (starts : List String) :
    ((∀ start ∈ starts, start ∈ vocabulary.nonterminals) →
      ∃ other, grammar.withStarts starts = .ok other ∧
        build { vocabulary with start := starts.getLastD vocabulary.start }
          declarations = .ok other ∧
        other.strayEmpty.Pairwise (· < ·) ∧
        ∀ symbol, symbol ∈ other.strayEmpty ↔ symbol ∈ vocabulary.nonterminals ∧
          symbol ≠ starts.getLastD vocabulary.start ∧
          .empty ∈ other.alternatives symbol) ∧
    (∀ earlier symbol later, starts = earlier ++ symbol :: later →
      (∀ start ∈ earlier, start ∈ vocabulary.nonterminals) →
      symbol ∉ vocabulary.nonterminals →
      ∃ reached problems, grammar.withStarts earlier = .ok reached ∧
        reached.withStart symbol = .error problems ∧
        grammar.withStarts starts = .error problems ∧
        build { vocabulary with start := symbol } declarations = .error problems) ∧
    ∀ other, grammar.withStarts starts = .ok other → ∀ tokens, tokens ≠ [] →
      ∃ chart, (recognize grammar tokens).chart = some chart ∧
        (recognize other tokens).chart = some chart := by
  refine ⟨?_, ?_, ?_⟩
  · intro hstarts
    obtain ⟨hchanged, hrebuilt⟩ := withStarts_eq_build hbuilt hstarts
    refine ⟨_, hchanged, hrebuilt, increasing_strayEmpty _, ?_⟩
    intro symbol
    rw [mem_strayEmpty]
    apply Iff.intro
    · intro hstray
      have hdeclared :=
        ((sound_of_build hrebuilt).declared symbol .empty hstray.1).1
      exact ⟨(mem_nonterminals_of_build hrebuilt).mp hdeclared, hstray.2, hstray.1⟩
    · intro hsymbol
      exact ⟨hsymbol.2.2, hsymbol.2.1⟩
  · intro earlier symbol later heq hearlier hsymbol
    obtain ⟨reached, problems, hreached, hfailed, hrebuilt⟩ :=
      withStarts_eq_error hbuilt hearlier hsymbol
    refine ⟨reached, problems, hreached, hfailed, ?_, hrebuilt⟩
    rw [heq, withStarts_append, hreached]
    change reached.withStarts (symbol :: later) = _
    rw [withStarts_cons, hfailed]
    rfl
  · intro other hchanged tokens hne
    refine ⟨_, (Chart.chart_recognize grammar tokens).trans
      (Chart.build_eq_some hne), ?_⟩
    rw [Chart.chart_recognize, Chart.build_congr (rules_of_withStarts hchanged),
      Chart.build_eq_some hne]

theorem override_eq_rebuild_starred :
    ∃ grammar, build starred starredDeclarations = .ok grammar ∧
      (∃ other, grammar.withStarts ["*", "S", "*"] = .ok other ∧
        build { starred with start := "*" } starredDeclarations = .ok other ∧
        "S" ∈ other.strayEmpty ∧
        ∃ chart, (recognize grammar ["a"]).chart = some chart ∧
          (recognize other ["a"]).chart = some chart) ∧
      ∃ problems, grammar.withStarts ["*", "b", "S"] = .error problems ∧
        build { starred with start := "b" } starredDeclarations =
          .error problems := by
  have hbuilt : build starred starredDeclarations =
      .ok (ofProductions starred.distinct [⟨"S", .empty⟩, ⟨"S", .terminal "a"⟩,
        ⟨"*", .pair "S" "*"⟩]) := by
    decide
  obtain ⟨hdeclared, _, hcharts⟩ := override_eq_rebuild hbuilt ["*", "S", "*"]
  obtain ⟨_, hundeclared, _⟩ := override_eq_rebuild hbuilt ["*", "b", "S"]
  obtain ⟨other, hchanged, hrebuilt, _, hstray⟩ := hdeclared (by decide)
  obtain ⟨_, problems, _, _, hfailed, hproblems⟩ :=
    hundeclared ["*"] "b" ["S"] rfl (by decide) (by decide)
  have hempty : .empty ∈ other.alternatives "S" := by
    rw [alternatives, rules_of_withStarts hchanged]
    decide
  exact ⟨_, hbuilt, ⟨other, hchanged, hrebuilt,
    (hstray "S").mpr ⟨by decide, by decide, hempty⟩,
    hcharts other hchanged ["a"] (by decide)⟩, problems, hfailed, hproblems⟩

end Grammar

end ChomskyChart
