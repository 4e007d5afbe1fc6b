import ChomskyChart.Proofs.Construction

namespace ChomskyChart

def Alternative.rightSide : Alternative → List String
  | terminal symbol => [symbol]
  | pair left right => [left, right]
  | empty => [emptyMarker]

theorem Vocabulary.Shapes.rightSide_eq {vocabulary : Vocabulary}
    {rightSide : List String} {alternative : Alternative}
    (hshapes : vocabulary.Shapes rightSide alternative) :
    rightSide = alternative.rightSide := by
  cases hshapes with
  | empty => rfl
  | terminal _ _ => rfl
  | pair _ _ => rfl

theorem Vocabulary.Shapes.unique {vocabulary : Vocabulary} {rightSide : List String}
    {first second : Alternative} (hfirst : vocabulary.Shapes rightSide first)
    (hsecond : vocabulary.Shapes rightSide second) : first = second := by
  have hshape := shape_eq_ok_iff.mpr hfirst
  rw [shape_eq_ok_iff.mpr hsecond] at hshape
  exact (Except.ok.inj hshape).symm

def Declaration.States (declaration : Declaration)
    (production : Production) : Prop :=
  declaration.symbol = production.symbol ∧
    declaration.rightSide = production.alternative.rightSide

theorem eraseDups_eq_self {α : Type} [DecidableEq α] {elements : List α}
    (hnodup : elements.Nodup) : elements.eraseDups = elements := by
  induction elements using List.reverseRecOn with
  | nil => rfl
  | append_singleton elements last ih =>
      obtain ⟨hearlier, _, hdisjoint⟩ := List.nodup_append.mp hnodup
      have hlast : last ∉ elements := fun hmem =>
        hdisjoint last hmem last List.mem_cons_self rfl
      rw [eraseDups_concat, if_neg hlast, ih hearlier]

theorem exists_related {α β : Type} {relation : α → β → Prop} {first : List α}
    {second : List β} (hforall : List.Forall₂ relation first second) {image : β}
    (hmem : image ∈ second) : ∃ element ∈ first, relation element image := by
  induction hforall with
  | nil => cases hmem
  | cons hhead _ ih =>
      rcases List.mem_cons.mp hmem with rfl | htail
      · exact ⟨_, List.mem_cons_self, hhead⟩
      · obtain ⟨element, helement, hrelated⟩ := ih htail
        exact ⟨element, List.mem_cons_of_mem _ helement, hrelated⟩

namespace Rules

private theorem filter_entries {entries : List (String × List Alternative)}
    (hincreasing : entries.Pairwise fun first second =>
      compare first.1 second.1 = .lt)
    (symbol : String) :
    ((entries.flatMap fun entry => entry.2.map (Production.mk entry.1)).filter
        (·.symbol = symbol)).map (·.alternative) =
      (SortedMap.lookupIn symbol entries).getD [] := by
  induction entries with
  | nil => rfl
  | cons head tail ih =>
      obtain ⟨hhead, htail⟩ := List.pairwise_cons.mp hincreasing
      rw [List.flatMap_cons, List.filter_append, List.map_append,
        SortedMap.lookupIn]
      -- a symbol has one entry, so its other productions are none
      by_cases hsymbol : symbol = head.1
      · have hrest :
            (tail.flatMap fun entry => entry.2.map (Production.mk entry.1)).filter
            (·.symbol = symbol) = [] := by
          apply List.filter_eq_nil_iff.mpr
          intro production hproduction
          obtain ⟨entry, hentry, halternative⟩ := List.mem_flatMap.mp hproduction
          obtain ⟨alternative, _, rfl⟩ := List.mem_map.mp halternative
          have hbefore := hhead entry hentry
          intro heq
          rw [← hsymbol, ← of_decide_eq_true heq] at hbefore
          simp at hbefore
        rw [hrest, if_pos hsymbol, hsymbol]
        simp [List.filter_map, Function.comp_def]
      · rw [if_neg hsymbol, ih htail]
        simp [List.filter_map, Function.comp_def, Ne.symm hsymbol]

theorem filter_productions (rules : Rules) (symbol : String) :
    (rules.productions.filter (·.symbol = symbol)).map (·.alternative) =
      rules.alternatives symbol :=
  filter_entries rules.increasing symbol

theorem Inhabited.get?_eq {rules : Rules} (hinhabited : rules.Inhabited)
    (symbol : String) :
    rules.get? symbol =
      if rules.alternatives symbol = [] then none
        else some (rules.alternatives symbol) := by
  rw [alternatives]
  cases hget : rules.get? symbol with
  | none => simp
  | some known => simp [hinhabited symbol known hget]

theorem Inhabited.eq_of_alternatives {first second : Rules}
    (hfirst : first.Inhabited) (hsecond : second.Inhabited)
    (halternatives :
      ∀ symbol, first.alternatives symbol = second.alternatives symbol) :
    first = second := by
  apply SortedMap.ext
  intro symbol
  rw [hfirst.get?_eq, hsecond.get?_eq, halternatives]

theorem Inhabited.ofProductions_productions {rules : Rules}
    (hinhabited : rules.Inhabited) :
    ofProductions rules.productions = rules := by
  apply (inhabited_ofProductions _).eq_of_alternatives hinhabited
  intro symbol
  rw [alternatives_ofProductions, filter_productions]

theorem nodup_productions {rules : Rules}
    (hnodup : ∀ symbol, (rules.alternatives symbol).Nodup) :
    rules.productions.Nodup := by
  apply List.nodup_flatMap.mpr
  refine ⟨?_, rules.increasing.imp ?_⟩
  · intro entry hentry
    have halternatives : rules.alternatives entry.1 = entry.2 := by
      rw [alternatives, SortedMap.get?_eq_some_iff.mpr hentry]
      rfl
    have hentryNodup := hnodup entry.1
    rw [halternatives] at hentryNodup
    exact hentryNodup.map fun _ _ heq => (Production.mk.inj heq).2
  · intro first second hbefore production hfirst hsecond
    obtain ⟨_, _, rfl⟩ := List.mem_map.mp hfirst
    obtain ⟨_, _, heq⟩ := List.mem_map.mp hsecond
    rw [(Production.mk.inj heq).1] at hbefore
    simp at hbefore

end Rules

namespace Grammar

def vocabulary (grammar : Grammar) : Vocabulary :=
  ⟨grammar.start, grammar.terminals, grammar.nonterminals⟩

variable {grammar : Grammar} {vocabulary : Vocabulary}
  {declarations : List Declaration} {origin : Location}

/-- What every built grammar is: nothing is listed twice, and all productions
are in normal form over proper symbols. -/
structure Sound (grammar : Grammar) : Prop where
  proper : grammar.vocabulary.Proper
  nodup_terminals : grammar.terminals.Nodup
  nodup_nonterminals : grammar.nonterminals.Nodup
  inhabited : grammar.rules.Inhabited
  nodup_alternatives : ∀ symbol, (grammar.alternatives symbol).Nodup
  declared : ∀ symbol alternative, alternative ∈ grammar.alternatives symbol →
    symbol ∈ grammar.nonterminals ∧
      grammar.vocabulary.Shapes alternative.rightSide alternative

theorem problems_of_build
    (hbuilt : build vocabulary declarations origin = .ok grammar) :
    vocabulary.distinct.problems declarations origin = [] := by
  by_contra hproblems
  rw [build_of_problems hproblems] at hbuilt
  cases hbuilt

theorem eq_of_build (hbuilt : build vocabulary declarations origin = .ok grammar) :
    grammar = ofProductions vocabulary.distinct
      (vocabulary.distinct.productionsOf declarations) := by
  rw [build_of_no_problems (problems_of_build hbuilt)] at hbuilt
  exact (Except.ok.inj hbuilt).symm

theorem proper_of_build
    (hbuilt : build vocabulary declarations origin = .ok grammar) :
    vocabulary.Proper := by
  have hproper := (Vocabulary.problems_eq_nil_iff.mp (problems_of_build hbuilt)).1
  exact vocabulary.agrees_distinct.proper_iff.mpr hproper

theorem admits_of_build
    (hbuilt : build vocabulary declarations origin = .ok grammar) :
    ∀ declaration ∈ declarations, vocabulary.Admits declaration := by
  intro declaration hmem
  have hadmits := (Vocabulary.problems_eq_nil_iff.mp (problems_of_build hbuilt)).2
  exact vocabulary.agrees_distinct.admits_iff.mpr (hadmits declaration hmem)

theorem exists_build_iff :
    (∃ grammar, build vocabulary declarations origin = .ok grammar) ↔
      vocabulary.Proper ∧
      ∀ declaration ∈ declarations, vocabulary.Admits declaration := by
  apply Iff.intro
  · intro hexists
    obtain ⟨grammar, hbuilt⟩ := hexists
    exact ⟨proper_of_build hbuilt, admits_of_build hbuilt⟩
  · intro hsound
    obtain ⟨hproper, hadmits⟩ := hsound
    exact ⟨_, build_of_sound hproper hadmits⟩

theorem stores_of_build
    (hbuilt : build vocabulary declarations origin = .ok grammar) :
    grammar.Stores vocabulary declarations := by
  rw [eq_of_build hbuilt]
  exact stores_ofProductions (admits_of_build hbuilt)

theorem mem_alternatives_of_build
    (hbuilt : build vocabulary declarations origin = .ok grammar) {symbol : String}
    {alternative : Alternative} :
    alternative ∈ grammar.alternatives symbol ↔ ∃ declaration ∈ declarations,
      declaration.symbol = symbol ∧
      vocabulary.Shapes declaration.rightSide alternative := by
  obtain ⟨listed, hforall, hlisted⟩ := (stores_of_build hbuilt).alternatives symbol
  rw [hlisted, List.mem_eraseDups]
  apply Iff.intro
  · intro halternative
    obtain ⟨declaration, hmem, hshapes⟩ := exists_related hforall halternative
    obtain ⟨hdeclaration, hsymbol⟩ := List.mem_filter.mp hmem
    exact ⟨declaration, hdeclaration, of_decide_eq_true hsymbol, hshapes⟩
  · intro hdeclared
    obtain ⟨declaration, hdeclaration, hsymbol, hshapes⟩ := hdeclared
    have hmem : declaration ∈ declarations.filter (·.symbol = symbol) :=
      List.mem_filter.mpr ⟨hdeclaration, decide_eq_true hsymbol⟩
    obtain ⟨other, hother, hotherShapes⟩ := exists_related hforall.flip hmem
    rw [hshapes.unique hotherShapes]
    exact hother

theorem sound_of_build
    (hbuilt : build vocabulary declarations origin = .ok grammar) :
    grammar.Sound := by
  have hstores := stores_of_build hbuilt
  have hvocabulary : grammar.vocabulary = vocabulary.distinct := by
    rw [eq_of_build hbuilt]
    rfl
  have hproper := vocabulary.agrees_distinct.proper_iff.mp (proper_of_build hbuilt)
  refine ⟨hvocabulary ▸ hproper, ?_, ?_, ?_, ?_, ?_⟩
  · rw [hstores.terminals]
    exact nodup_eraseDups _
  · rw [hstores.nonterminals]
    exact nodup_eraseDups _
  · rw [eq_of_build hbuilt]
    exact Rules.inhabited_ofProductions _
  · intro symbol
    obtain ⟨listed, _, hlisted⟩ := hstores.alternatives symbol
    rw [hlisted]
    exact nodup_eraseDups _
  · intro symbol alternative halternative
    obtain ⟨declaration, hdeclaration, rfl, hshapes⟩ :=
      (mem_alternatives_of_build hbuilt).mp halternative
    have hleft := (admits_of_build hbuilt declaration hdeclaration).1
    rw [hvocabulary, hstores.nonterminals, List.mem_eraseDups]
    exact ⟨hleft, hshapes.rightSide_eq ▸ vocabulary.agrees_distinct.shapes hshapes⟩

theorem ext_rules {first second : Grammar}
    (hvocabulary : first.vocabulary = second.vocabulary)
    (hrules : first.rules = second.rules) : first = second := by
  cases first with
  | mk start terminals nonterminals rules producers hproducers =>
      cases second with
      | mk start' terminals' nonterminals' rules' producers' hproducers' =>
          cases hvocabulary
          cases hrules
          cases hproducers
          cases hproducers'
          rfl

theorem mem_productions {production : Production} :
    production ∈ grammar.rules.productions ↔
      production.alternative ∈ grammar.alternatives production.symbol :=
  Rules.mem_productions_iff grammar.rules production

/-- The declarations list the productions of the grammar, in their order and at
any places. -/
def Declares (grammar : Grammar) (declarations : List Declaration) : Prop :=
  List.Forall₂ Declaration.States declarations grammar.rules.productions

namespace Sound

theorem distinct_vocabulary (hsound : grammar.Sound) :
    grammar.vocabulary.distinct = grammar.vocabulary := by
  rw [Vocabulary.distinct, vocabulary, eraseDups_eq_self hsound.nodup_terminals,
    eraseDups_eq_self hsound.nodup_nonterminals]

theorem productionOf?_eq (hsound : grammar.Sound) {declaration : Declaration}
    {production : Production} (hmem : production ∈ grammar.rules.productions)
    (hstates : declaration.States production) :
    grammar.vocabulary.Admits declaration ∧
      grammar.vocabulary.productionOf? declaration = some production := by
  obtain ⟨hsymbol, hright⟩ := hstates
  obtain ⟨hleft, hshapes⟩ := hsound.declared _ _ (mem_productions.mp hmem)
  have hadmits : grammar.vocabulary.Admits declaration := by
    rw [← hsymbol] at hleft
    rw [← hright] at hshapes
    exact ⟨hleft, _, hshapes⟩
  obtain ⟨alternative, hother, hproduction⟩ :=
    Vocabulary.productionOf?_of_admits hadmits
  rw [hright] at hother
  rw [hproduction, hsymbol, hother.unique hshapes]
  exact ⟨hadmits, rfl⟩

theorem filterMap_productionOf? (hsound : grammar.Sound)
    {productions : List Production}
    (hproductions :
      ∀ production ∈ productions, production ∈ grammar.rules.productions)
    (hdeclares : List.Forall₂ Declaration.States declarations productions) :
    (∀ declaration ∈ declarations, grammar.vocabulary.Admits declaration) ∧
      declarations.filterMap grammar.vocabulary.productionOf? = productions := by
  induction hdeclares with
  | nil => simp
  | cons hhead _ ih =>
      obtain ⟨hproduction, hothers⟩ := List.forall_mem_cons.mp hproductions
      obtain ⟨hadmits, hread⟩ := hsound.productionOf?_eq hproduction hhead
      obtain ⟨hrestAdmits, hrest⟩ := ih hothers
      rw [List.filterMap_cons_some hread, hrest]
      exact ⟨List.forall_mem_cons.mpr ⟨hadmits, hrestAdmits⟩, rfl⟩

/-- Declaring the productions of a grammar over its symbols gives the grammar
again. -/
theorem build_eq (hsound : grammar.Sound)
    (hdeclares : grammar.Declares declarations)
    (origin : Location) :
    build grammar.vocabulary declarations origin = .ok grammar := by
  obtain ⟨hadmits, hproductions⟩ :=
    hsound.filterMap_productionOf? (fun _ => id) hdeclares
  rw [build_of_sound hsound.proper hadmits, hsound.distinct_vocabulary,
    Vocabulary.productionsOf_eq, hproductions,
    eraseDups_eq_self (Rules.nodup_productions hsound.nodup_alternatives)]
  exact congrArg Except.ok
    (ext_rules rfl hsound.inhabited.ofProductions_productions)

end Sound

end Grammar

end ChomskyChart
