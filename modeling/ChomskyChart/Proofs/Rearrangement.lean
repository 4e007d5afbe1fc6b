import ChomskyChart.Proofs.StartOverride

namespace ChomskyChart

def Declaration.sides (declaration : Declaration) : String × List String :=
  (declaration.symbol, declaration.rightSide)

/-- Two lists that declare the same, in whatever order, however often and at
whichever places. -/
def Alike (first second : List Declaration) : Prop :=
  ∀ sides, sides ∈ first.map Declaration.sides ↔
    sides ∈ second.map Declaration.sides

section Declarations

variable {first second : List Declaration} {declaration : Declaration}

theorem Alike.symm (halike : Alike first second) : Alike second first :=
  fun sides => (halike sides).symm

theorem Alike.exists_mem (halike : Alike first second)
    (hmem : declaration ∈ first) :
    ∃ other ∈ second, other.symbol = declaration.symbol ∧
      other.rightSide = declaration.rightSide := by
  obtain ⟨other, hother, hsides⟩ :=
    List.mem_map.mp ((halike declaration.sides).mp (List.mem_map_of_mem hmem))
  obtain ⟨hsymbol, hright⟩ := Prod.mk.inj hsides
  exact ⟨other, hother, hsymbol, hright⟩

end Declarations

namespace Vocabulary

variable {vocabulary first second : Vocabulary}
  {declarations declared others : List Declaration} {origin place : Location}
  {fault : GrammarFault}

theorem breaches_congr {declaration other : Declaration}
    (hsymbol : other.symbol = declaration.symbol)
    (hright : other.rightSide = declaration.rightSide) :
    vocabulary.Breaches declaration fault ↔ vocabulary.Breaches other fault := by
  rw [← mem_breaches, ← mem_breaches, breaches_eq_append, breaches_eq_append,
    hsymbol, hright]

theorem map_fault_problems :
    (vocabulary.problems declarations origin).map Located.fault =
      vocabulary.faults ++ declarations.flatMap vocabulary.breaches := by
  simp [problems, declarationFaults_eq, List.map_flatMap, Function.comp_def]

theorem mem_fault_problems :
    fault ∈ (vocabulary.problems declarations origin).map Located.fault ↔
      vocabulary.Flawed fault ∨
        ∃ declaration ∈ declarations, vocabulary.Breaches declaration fault := by
  rw [map_fault_problems, List.mem_append, List.mem_flatMap, mem_faults]
  simp only [mem_breaches]

theorem Agrees.exists_breaches (hagrees : first.Agrees second)
    (halike : Alike declared others)
    (hbreaches : ∃ declaration ∈ declared, first.Breaches declaration fault) :
    ∃ declaration ∈ others, second.Breaches declaration fault := by
  obtain ⟨declaration, hmem, hfault⟩ := hbreaches
  obtain ⟨other, hother, hsymbol, hright⟩ := halike.exists_mem hmem
  exact ⟨other, hother,
    hagrees.breaches ((breaches_congr hsymbol hright).mp hfault)⟩

theorem Agrees.mem_fault_problems_iff (hagrees : first.Agrees second)
    (halike : Alike declared others) :
    fault ∈ (first.problems declared origin).map Located.fault ↔
      fault ∈ (second.problems others place).map Located.fault := by
  rw [mem_fault_problems, mem_fault_problems, hagrees.flawed_iff]
  apply or_congr_right
  exact ⟨hagrees.exists_breaches halike, hagrees.symm.exists_breaches halike.symm⟩

theorem Agrees.trans {third : Vocabulary} (hfirst : first.Agrees second)
    (hsecond : second.Agrees third) : first.Agrees third :=
  ⟨hfirst.start.trans hsecond.start,
    fun symbol => (hfirst.terminals symbol).trans (hsecond.terminals symbol),
    fun symbol => (hfirst.nonterminals symbol).trans (hsecond.nonterminals symbol)⟩

theorem Agrees.distinct (hagrees : first.Agrees second) :
    first.distinct.Agrees second.distinct :=
  first.agrees_distinct.symm.trans (hagrees.trans second.agrees_distinct)

end Vocabulary

namespace Grammar

section Building

variable {first second : Vocabulary} {declared others : List Declaration}
  {origin place : Location} {grammar other : Grammar}

theorem alternatives_of_alike (hagrees : first.Agrees second)
    (halike : Alike declared others)
    (hbuilt : build first declared origin = .ok grammar)
    (hother : build second others place = .ok other) {symbol : String}
    {alternative : Alternative}
    (halternative : alternative ∈ grammar.alternatives symbol) :
    alternative ∈ other.alternatives symbol := by
  obtain ⟨declaration, hmem, hsymbol, hshapes⟩ :=
    (mem_alternatives_of_build hbuilt).mp halternative
  obtain ⟨same, hsame, hsameSymbol, hright⟩ := halike.exists_mem hmem
  refine (mem_alternatives_of_build hother).mpr
    ⟨same, hsame, hsameSymbol.trans hsymbol, ?_⟩
  rw [hright]
  exact hagrees.shapes hshapes

end Building

/-- The same answers are given to every question that does not ask for the
order. -/
structure Interchangeable (first second : Grammar) : Prop where
  start : first.start = second.start
  producersOf :
      ∀ alternative, first.producersOf alternative = second.producersOf alternative
  nullable : ∀ symbol, first.nullable symbol = second.nullable symbol
  derivesEmpty : first.derivesEmpty = second.derivesEmpty
  strayEmpty : first.strayEmpty = second.strayEmpty
  recognize : ∀ tokens, recognize first tokens = recognize second tokens

section Answers

variable {first second : Grammar}

theorem interchangeable_of_mem (hstart : first.start = second.start)
    (hmem : ∀ symbol alternative,
      alternative ∈ first.alternatives symbol ↔
        alternative ∈ second.alternatives symbol) :
    first.Interchangeable second := by
  have hproducers (alternative : Alternative) :
      first.producersOf alternative = second.producersOf alternative := by
    ext symbol
    rw [mem_producersOf, mem_producersOf, hmem]
  have hnullable (symbol : String) :
      first.nullable symbol = second.nullable symbol := by
    rw [nullable, nullable, hproducers]
  have hempty : first.derivesEmpty = second.derivesEmpty := by
    rw [derivesEmpty, derivesEmpty, hnullable, hstart]
  refine ⟨hstart, hproducers, hnullable, hempty, ?_, ?_⟩
  · rw [strayEmpty, strayEmpty, hproducers, hstart]
  · exact recognize_congr hstart hmem

end Answers

/-- Two declarations of the same make a grammar or not, both of them. Where they
do, the grammars answer alike, and where they do not, the same faults are found. -/
theorem build_rearranged {first second : Vocabulary}
    {declared others : List Declaration} (hagrees : first.Agrees second)
    (halike : Alike declared others) (origin place : Location) :
    (∃ grammar other, build first declared origin = .ok grammar ∧
      build second others place = .ok other ∧ grammar.Interchangeable other) ∨
    ∃ problems reported, build first declared origin = .error problems ∧
      build second others place = .error reported ∧
      ∀ fault, fault ∈ problems.map Located.fault ↔
        fault ∈ reported.map Located.fault := by
  have hfaults (fault : GrammarFault) :
      fault ∈ (first.distinct.problems declared origin).map Located.fault ↔
        fault ∈ (second.distinct.problems others place).map Located.fault :=
    hagrees.distinct.mem_fault_problems_iff halike
  have hnone : first.distinct.problems declared origin = [] ↔
      second.distinct.problems others place = [] := by
    rw [← List.map_eq_nil_iff (f := Located.fault), List.eq_nil_iff_forall_not_mem,
      ← List.map_eq_nil_iff (f := Located.fault), List.eq_nil_iff_forall_not_mem]
    simp only [hfaults]
  by_cases hproblems : first.distinct.problems declared origin = []
  · left
    have hbuilt := build_of_no_problems hproblems
    have hother := build_of_no_problems (hnone.mp hproblems)
    refine ⟨_, _, hbuilt, hother, interchangeable_of_mem ?_ ?_⟩
    · exact hagrees.start
    · intro symbol alternative
      exact ⟨alternatives_of_alike hagrees halike hbuilt hother,
        alternatives_of_alike hagrees.symm halike.symm hother hbuilt⟩
  · right
    exact ⟨_, _, build_of_problems hproblems,
      build_of_problems (mt hnone.mpr hproblems), hfaults⟩

def starredAgain : Vocabulary :=
  ⟨"S", ["b", "b", "a"], ["*", "S", "*"]⟩

def starredDeclarationsAgain : List Declaration :=
  [⟨"*", ["S", "*"], ⟨"g.cnf", 2⟩⟩, ⟨"S", ["a"], .unknown⟩,
    ⟨"*", ["S", "*"], .unknown⟩, ⟨"S", ["*"], ⟨"", 9⟩⟩]

theorem build_rearranged_starred :
    starred.Agrees starredAgain ∧
    Alike starredDeclarations starredDeclarationsAgain ∧
      ∃ grammar other, build starred starredDeclarations = .ok grammar ∧
        build starredAgain starredDeclarationsAgain = .ok other ∧
        grammar.Interchangeable other := by
  have hagrees : starred.Agrees starredAgain :=
    ⟨rfl, by simp [starred, starredAgain, or_comm],
      by simp [starred, starredAgain, or_comm]⟩
  have halike : Alike starredDeclarations starredDeclarationsAgain := by
    have hforth : ∀ sides ∈ starredDeclarations.map Declaration.sides,
        sides ∈ starredDeclarationsAgain.map Declaration.sides := by
      decide
    have hback : ∀ sides ∈ starredDeclarationsAgain.map Declaration.sides,
        sides ∈ starredDeclarations.map Declaration.sides := by
      decide
    exact fun sides => ⟨hforth sides, hback sides⟩
  rcases build_rearranged hagrees halike .unknown .unknown with
    hmade | ⟨_, _, hfailed, _⟩
  · exact ⟨hagrees, halike, hmade⟩
  · cases build_starred.symm.trans hfailed

end Grammar

end ChomskyChart
