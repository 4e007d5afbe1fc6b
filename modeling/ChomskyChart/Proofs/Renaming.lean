import ChomskyChart.Proofs.Mirroring
import ChomskyChart.Proofs.Redeclaration
import Mathlib.Logic.Equiv.Basic

namespace ChomskyChart

def Declaration.rename (naming : String → String)
    (declaration : Declaration) : Declaration where
  symbol := naming declaration.symbol
  rightSide := declaration.rightSide.map naming
  location := declaration.location

namespace Vocabulary

def rename (naming : String → String) (vocabulary : Vocabulary) : Vocabulary where
  start := naming vocabulary.start
  terminals := vocabulary.terminals.map naming
  nonterminals := vocabulary.nonterminals.map naming

variable {naming : String → String} {vocabulary : Vocabulary}

theorem mem_terminals_rename (hinjective : naming.Injective) {symbol : String} :
    naming symbol ∈ (vocabulary.rename naming).terminals ↔
      symbol ∈ vocabulary.terminals :=
  List.mem_map_of_injective hinjective

theorem mem_nonterminals_rename (hinjective : naming.Injective) {symbol : String} :
    naming symbol ∈ (vocabulary.rename naming).nonterminals ↔
      symbol ∈ vocabulary.nonterminals :=
  List.mem_map_of_injective hinjective

theorem proper_rename_iff (hinjective : naming.Injective)
    (hmarker : naming emptyMarker = emptyMarker) :
    (vocabulary.rename naming).Proper ↔ vocabulary.Proper := by
  have hreserved : naming emptyMarker ∈ (vocabulary.rename naming).terminals ↔
      emptyMarker ∈ vocabulary.terminals :=
    mem_terminals_rename hinjective
  rw [hmarker] at hreserved
  apply Iff.intro
  · intro hproper
    refine ⟨?_, mt hreserved.mpr hproper.marker_not_terminal,
      (mem_nonterminals_rename hinjective).mp hproper.start_nonterminal⟩
    intro symbol hterminal hnonterminal
    exact hproper.disjoint (naming symbol)
      ((mem_terminals_rename hinjective).mpr hterminal)
      ((mem_nonterminals_rename hinjective).mpr hnonterminal)
  · intro hproper
    refine ⟨?_, mt hreserved.mp hproper.marker_not_terminal,
      (mem_nonterminals_rename hinjective).mpr hproper.start_nonterminal⟩
    intro symbol hterminal hnonterminal
    obtain ⟨origin, horigin, rfl⟩ := List.mem_map.mp hterminal
    exact hproper.disjoint origin horigin
      ((mem_nonterminals_rename hinjective).mp hnonterminal)

theorem Shapes.rename (hinjective : naming.Injective)
    (hmarker : naming emptyMarker = emptyMarker) {rightSide : List String}
    {alternative : Alternative}
    (hshapes : vocabulary.Shapes rightSide alternative) :
    (vocabulary.rename naming).Shapes (rightSide.map naming)
      (alternative.rename naming) := by
  cases hshapes with
  | empty =>
      rw [List.map_singleton, hmarker]
      exact .empty
  | terminal hterminal hne =>
      exact .terminal ((mem_terminals_rename hinjective).mpr hterminal)
        (hmarker ▸ hinjective.ne hne)
  | pair hleft hright =>
      exact .pair ((mem_nonterminals_rename hinjective).mpr hleft)
        ((mem_nonterminals_rename hinjective).mpr hright)

theorem exists_shapes_of_rename (hinjective : naming.Injective)
    (hmarker : naming emptyMarker = emptyMarker) {rightSide : List String}
    {renamed : Alternative}
    (hshapes : (vocabulary.rename naming).Shapes (rightSide.map naming) renamed) :
    ∃ alternative, vocabulary.Shapes rightSide alternative ∧
      alternative.rename naming = renamed := by
  generalize htokens : rightSide.map naming = tokens at hshapes
  cases hshapes with
  | empty =>
      obtain ⟨symbol, rfl, hsymbol⟩ := List.map_eq_singleton_iff.mp htokens
      rw [hinjective (hsymbol.trans hmarker.symm)]
      exact ⟨.empty, .empty, rfl⟩
  | terminal hterminal hne =>
      obtain ⟨symbol, rfl, rfl⟩ := List.map_eq_singleton_iff.mp htokens
      refine ⟨.terminal symbol,
        .terminal ((mem_terminals_rename hinjective).mp hterminal) ?_, rfl⟩
      rintro rfl
      exact hne hmarker
  | pair hleft hright =>
      obtain ⟨left, rest, rfl, rfl, hrest⟩ := List.map_eq_cons_iff.mp htokens
      obtain ⟨right, rfl, rfl⟩ := List.map_eq_singleton_iff.mp hrest
      exact ⟨.pair left right, .pair ((mem_nonterminals_rename hinjective).mp hleft)
        ((mem_nonterminals_rename hinjective).mp hright), rfl⟩

theorem admits_rename_iff (hinjective : naming.Injective)
    (hmarker : naming emptyMarker = emptyMarker) {declaration : Declaration} :
    (vocabulary.rename naming).Admits (declaration.rename naming) ↔
      vocabulary.Admits declaration := by
  apply and_congr (mem_nonterminals_rename hinjective)
  apply Iff.intro
  · intro hrenamed
    obtain ⟨renamed, hshapes⟩ := hrenamed
    obtain ⟨alternative, hshapes, _⟩ :=
      exists_shapes_of_rename hinjective hmarker hshapes
    exact ⟨alternative, hshapes⟩
  · intro hshaped
    obtain ⟨alternative, hshapes⟩ := hshaped
    exact ⟨alternative.rename naming, hshapes.rename hinjective hmarker⟩

end Vocabulary

namespace Grammar

section Building

variable {naming : String → String} {vocabulary : Vocabulary}
  {declarations : List Declaration} {origin place : Location}
  {grammar renamed : Grammar}

theorem exists_build_rename_iff (hinjective : naming.Injective)
    (hmarker : naming emptyMarker = emptyMarker) :
    (∃ renamed,
      build (vocabulary.rename naming) (declarations.map (·.rename naming)) place =
      .ok renamed) ↔
        ∃ grammar, build vocabulary declarations origin = .ok grammar := by
  rw [exists_build_iff, exists_build_iff,
    Vocabulary.proper_rename_iff hinjective hmarker]
  simp only [List.forall_mem_map, Vocabulary.admits_rename_iff hinjective hmarker]

theorem renames_of_build (hinjective : naming.Injective)
    (hmarker : naming emptyMarker = emptyMarker)
    (hbuilt : build vocabulary declarations origin = .ok grammar)
    (hrenamed :
      build (vocabulary.rename naming) (declarations.map (·.rename naming)) place =
      .ok renamed) : Renames naming grammar renamed := by
  apply Renames.mk
  · rw [(stores_of_build hrenamed).start, (stores_of_build hbuilt).start]
    rfl
  · intro symbol alternative
    rw [mem_alternatives_of_build hrenamed]
    apply Iff.intro
    · intro hdeclared
      obtain ⟨_, hmem, rfl, hshapes⟩ := hdeclared
      obtain ⟨declaration, hdeclaration, rfl⟩ := List.mem_map.mp hmem
      obtain ⟨known, hknown, hsame⟩ :=
        Vocabulary.exists_shapes_of_rename hinjective hmarker hshapes
      have halternative : known ∈ grammar.alternatives declaration.symbol :=
        (mem_alternatives_of_build hbuilt).mpr
          ⟨declaration, hdeclaration, rfl, hknown⟩
      exact ⟨declaration.symbol, known, halternative, rfl, hsame⟩
    · intro himage
      obtain ⟨origin, known, hknown, rfl, rfl⟩ := himage
      obtain ⟨declaration, hdeclaration, rfl, hshapes⟩ :=
        (mem_alternatives_of_build hbuilt).mp hknown
      exact ⟨declaration.rename naming, List.mem_map_of_mem hdeclaration, rfl,
        hshapes.rename hinjective hmarker⟩

end Building

/-- Renamed declarations make a grammar if the declarations do. It then accepts
the renamed words of the grammar and no other words of renamed tokens, and each
cell of its charts is the image of the same cell before. -/
theorem recognition_renamed {naming : String → String}
    (hinjective : naming.Injective) (hmarker : naming emptyMarker = emptyMarker)
    (vocabulary : Vocabulary) (declarations : List Declaration)
    (origin place : Location) :
    ((∃ grammar, build vocabulary declarations origin = .ok grammar) ↔
      ∃ renamed, build (vocabulary.rename naming)
        (declarations.map (·.rename naming)) place = .ok renamed) ∧
    ∀ grammar renamed, build vocabulary declarations origin = .ok grammar →
      build (vocabulary.rename naming) (declarations.map (·.rename naming)) place =
        .ok renamed →
      ∀ tokens,
        (recognize renamed (tokens.map naming)).accepted =
          (recognize grammar tokens).accepted ∧
        (recognize renamed (tokens.map naming)).chart =
          (recognize grammar tokens).chart.map (·.rename naming) ∧
        ∀ chart image, (recognize grammar tokens).chart = some chart →
          (recognize renamed (tokens.map naming)).chart = some image →
          ∀ length start,
            image.cell length start =
              (chart.cell length start).map (·.image naming) := by
  refine ⟨(exists_build_rename_iff hinjective hmarker).symm, ?_⟩
  intro grammar renamed hbuilt hrenamed tokens
  have hrenames := renames_of_build hinjective hmarker hbuilt hrenamed
  rw [recognize_rename hrenames hinjective]
  refine ⟨rfl, rfl, ?_⟩
  intro chart image hchart himage length start
  obtain ⟨found, hfound, rfl⟩ := Option.map_eq_some_iff.mp himage
  cases hfound.symm.trans hchart
  exact Chart.cell_rename

theorem recognition_renamed_starred :
    Function.Injective (Equiv.swap "S" "a") ∧
    Equiv.swap "S" "a" emptyMarker = emptyMarker ∧
      ∃ grammar renamed, build starred starredDeclarations = .ok grammar ∧
        build (starred.rename (Equiv.swap "S" "a"))
          (starredDeclarations.map (·.rename (Equiv.swap "S" "a"))) = .ok renamed ∧
        (recognize grammar ["a"]).accepted = true ∧
        (recognize renamed ["S"]).accepted = true := by
  have hinjective := (Equiv.swap "S" "a").injective
  have hmarker : Equiv.swap "S" "a" emptyMarker = emptyMarker := by decide
  obtain ⟨hexists, hanswers⟩ := recognition_renamed hinjective hmarker starred
    starredDeclarations .unknown .unknown
  obtain ⟨renamed, hrenamed⟩ := hexists.mp ⟨_, build_starred⟩
  obtain ⟨haccepted, _⟩ := hanswers _ _ build_starred hrenamed ["a"]
  have hbefore : (recognize (ofProductions starred.distinct [⟨"S", .empty⟩,
      ⟨"S", .terminal "a"⟩, ⟨"*", .pair "S" "*"⟩]) ["a"]).accepted = true := by
    decide
  exact ⟨hinjective, hmarker, _, renamed, build_starred, hrenamed, hbefore,
    haccepted.trans hbefore⟩

end Grammar

end ChomskyChart
