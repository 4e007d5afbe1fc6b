import ChomskyChart.Grammar.Basic
import ChomskyChart.Grammar.NormalForm
import Mathlib.Data.List.Forall2
import Mathlib.Data.List.Induction
import Mathlib.Data.List.Nodup

namespace ChomskyChart

section Distinct

variable {α β : Type} [DecidableEq α] [DecidableEq β]

theorem eraseDups_concat (elements : List α) (last : α) :
    (elements ++ [last]).eraseDups =
      if last ∈ elements then elements.eraseDups
      else elements.eraseDups ++ [last] := by
  rw [List.eraseDups_append]
  by_cases hlast : last ∈ elements
  · simp [hlast, List.removeAll]
  · simp [hlast, List.removeAll, List.eraseDups_cons]

theorem nodup_eraseDups (elements : List α) : elements.eraseDups.Nodup := by
  induction elements using List.reverseRecOn with
  | nil => exact List.nodup_nil
  | append_singleton elements last ih =>
      rw [eraseDups_concat]
      by_cases hlast : last ∈ elements
      · rw [if_pos hlast]
        exact ih
      · rw [if_neg hlast]
        apply List.nodup_append.mpr
        refine ⟨ih, List.nodup_singleton last, ?_⟩
        intro element helement other hother heq
        rw [heq, List.mem_singleton.mp hother] at helement
        exact hlast (List.mem_eraseDups.mp helement)

theorem filter_eraseDups (test : α → Bool) (elements : List α) :
    elements.eraseDups.filter test = (elements.filter test).eraseDups := by
  induction elements using List.reverseRecOn with
  | nil => rfl
  | append_singleton elements last ih =>
      rw [eraseDups_concat, List.filter_append]
      by_cases htest : test last = true
      · by_cases hlast : last ∈ elements
        · simp [htest, hlast, ih, eraseDups_concat]
        · simp [htest, hlast, ih, eraseDups_concat]
      · by_cases hlast : last ∈ elements
        · simp [htest, hlast, ih]
        · simp [htest, hlast, ih]

theorem map_eraseDups (image : α → β) (elements : List α)
    (hinjective : ∀ first ∈ elements, ∀ second ∈ elements,
      image first = image second → first = second) :
    elements.eraseDups.map image = (elements.map image).eraseDups := by
  induction elements using List.reverseRecOn with
  | nil => rfl
  | append_singleton elements last ih =>
      have hearlier := ih fun first hfirst second hsecond =>
        hinjective first (List.mem_append_left _ hfirst) second
          (List.mem_append_left _ hsecond)
      have himage : image last ∈ elements.map image ↔ last ∈ elements := by
        apply Iff.intro
        · intro hmem
          obtain ⟨other, hother, heq⟩ := List.mem_map.mp hmem
          have hsame := hinjective other (List.mem_append_left _ hother) last
            (by simp) heq
          exact hsame ▸ hother
        · exact List.mem_map_of_mem
      rw [List.map_append, List.map_singleton, eraseDups_concat, eraseDups_concat]
      by_cases hlast : last ∈ elements
      · rw [if_pos hlast, if_pos (himage.mpr hlast), hearlier]
      · rw [if_neg hlast, if_neg (mt himage.mp hlast), List.map_append, hearlier,
          List.map_singleton]

end Distinct

namespace Vocabulary

inductive Flawed (vocabulary : Vocabulary) : GrammarFault → Prop where
  | bothKinds {symbol : String} (hterminal : symbol ∈ vocabulary.terminals)
      (hnonterminal : symbol ∈ vocabulary.nonterminals) :
      Flawed vocabulary (.terminalNonterminal symbol)
  | marker (hmarker : emptyMarker ∈ vocabulary.terminals) :
      Flawed vocabulary .reservedTerminal
  | start (hstart : vocabulary.start ∉ vocabulary.nonterminals) :
      Flawed vocabulary (.startNotNonterminal vocabulary.start)

inductive Breaches (vocabulary : Vocabulary) (declaration : Declaration) :
    GrammarFault → Prop where
  | leftSide (hsymbol : declaration.symbol ∉ vocabulary.nonterminals) :
      Breaches vocabulary declaration (.undeclaredLeftSide declaration.symbol)
  | unit {symbol : String} (hright : declaration.rightSide = [symbol])
      (hmarker : symbol ≠ emptyMarker) (hterminal : symbol ∉ vocabulary.terminals)
      (hnonterminal : symbol ∈ vocabulary.nonterminals) :
      Breaches vocabulary declaration (.unitProduction symbol)
  | undefined {symbol : String} (hright : declaration.rightSide = [symbol])
      (hmarker : symbol ≠ emptyMarker) (hterminal : symbol ∉ vocabulary.terminals)
      (hnonterminal : symbol ∉ vocabulary.nonterminals) :
      Breaches vocabulary declaration (.undefinedTerminal symbol)
  | member {left right symbol : String}
      (hright : declaration.rightSide = [left, right])
      (hmember : symbol ∈ [left, right])
      (hnonterminal : symbol ∉ vocabulary.nonterminals) :
      Breaches vocabulary declaration (.undefinedNonterminal symbol)
  | malformed (hone : declaration.rightSide.length ≠ 1)
      (htwo : declaration.rightSide.length ≠ 2) :
      Breaches vocabulary declaration (.malformedAlternative declaration.rightSide)

section Faults

variable {vocabulary : Vocabulary} {declaration : Declaration}
  {fault : GrammarFault}

theorem mem_terminalFaults {terminal : String} :
    fault ∈ vocabulary.terminalFaults terminal ↔
      terminal ∈ vocabulary.nonterminals ∧ fault = .terminalNonterminal terminal ∨
        terminal = emptyMarker ∧ fault = .reservedTerminal := by
  simp only [terminalFaults, List.mem_append, List.mem_ite_nil_right,
    List.mem_singleton]

theorem mem_startFaults {start : String} :
    fault ∈ vocabulary.startFaults start ↔
      start ∉ vocabulary.nonterminals ∧ fault = .startNotNonterminal start := by
  simp only [startFaults, List.mem_ite_nil_left, List.mem_singleton]

theorem mem_faults : fault ∈ vocabulary.faults ↔ vocabulary.Flawed fault := by
  simp only [faults, List.mem_append, List.mem_flatMap, mem_terminalFaults,
    mem_startFaults]
  apply Iff.intro
  · intro hfault
    rcases hfault with ⟨terminal, hterminal, hboth | hmarker⟩ | hstart
    · obtain ⟨hnonterminal, rfl⟩ := hboth
      exact .bothKinds hterminal hnonterminal
    · obtain ⟨rfl, rfl⟩ := hmarker
      exact .marker hterminal
    · obtain ⟨hundeclared, rfl⟩ := hstart
      exact .start hundeclared
  · intro hflawed
    cases hflawed with
    | @bothKinds symbol hterminal hnonterminal =>
        exact .inl ⟨symbol, hterminal, .inl ⟨hnonterminal, rfl⟩⟩
    | marker hmarker => exact .inl ⟨emptyMarker, hmarker, .inr ⟨rfl, rfl⟩⟩
    | start hstart => exact .inr ⟨hstart, rfl⟩

theorem nodup_faults (hnodup : vocabulary.terminals.Nodup) :
    vocabulary.faults.Nodup := by
  have heach : ∀ terminal, (vocabulary.terminalFaults terminal).Nodup := by
    intro terminal
    unfold terminalFaults
    split
    · split <;> simp
    · split <;> simp
  have hdisjoint {first second : String} (hne : first ≠ second) :
      List.Disjoint (vocabulary.terminalFaults first)
        (vocabulary.terminalFaults second) := by
    intro fault hfirst hsecond
    rw [mem_terminalFaults] at hfirst hsecond
    rcases hfirst with ⟨_, rfl⟩ | ⟨hfirst, rfl⟩
    · rcases hsecond with ⟨_, heq⟩ | ⟨_, heq⟩
      · exact hne (GrammarFault.terminalNonterminal.inj heq)
      · cases heq
    · rcases hsecond with ⟨_, heq⟩ | ⟨hsecond, _⟩
      · cases heq
      · exact hne (hfirst.trans hsecond.symm)
  unfold faults
  apply List.Nodup.append
  · apply List.nodup_flatMap.mpr
    exact ⟨fun terminal _ => heach terminal, hnodup.imp hdisjoint⟩
  · unfold startFaults
    split <;> simp
  · intro fault hterminal hstart
    obtain ⟨terminal, _, hfault⟩ := List.mem_flatMap.mp hterminal
    obtain ⟨_, rfl⟩ := mem_startFaults.mp hstart
    rcases mem_terminalFaults.mp hfault with ⟨_, heq⟩ | ⟨_, heq⟩
    · cases heq
    · cases heq

theorem proper_iff_forall_not_flawed :
    vocabulary.Proper ↔ ∀ fault, ¬ vocabulary.Flawed fault := by
  apply Iff.intro
  · intro hproper fault hflawed
    cases hflawed with
    | @bothKinds symbol hterminal hnonterminal =>
        exact hproper.disjoint symbol hterminal hnonterminal
    | marker hmarker => exact hproper.marker_not_terminal hmarker
    | start hstart => exact hstart hproper.start_nonterminal
  · intro hsound
    refine ⟨?_, ?_, ?_⟩
    · intro symbol hterminal hnonterminal
      exact hsound _ (.bothKinds hterminal hnonterminal)
    · intro hmarker
      exact hsound _ (.marker hmarker)
    · by_contra hstart
      exact hsound _ (.start hstart)

theorem faults_eq_nil_iff : vocabulary.faults = [] ↔ vocabulary.Proper := by
  rw [List.eq_nil_iff_forall_not_mem, proper_iff_forall_not_flawed]
  simp only [mem_faults]

def breaches (vocabulary : Vocabulary)
    (declaration : Declaration) : List GrammarFault :=
  (failure? (vocabulary.productionOf declaration)).getD []

def shapeFaults (vocabulary : Vocabulary)
    (rightSide : List String) : List GrammarFault :=
  (failure? (vocabulary.shape rightSide)).getD []

theorem breaches_eq_append :
    vocabulary.breaches declaration =
      vocabulary.leftSideFaults declaration.symbol ++
        vocabulary.shapeFaults declaration.rightSide := by
  unfold breaches productionOf shapeFaults
  cases hleft : vocabulary.leftSideFaults declaration.symbol with
  | nil => cases vocabulary.shape declaration.rightSide <;> simp [failure?]
  | cons head tail =>
      cases vocabulary.shape declaration.rightSide <;> simp [failure?]

theorem mem_leftSideFaults {symbol : String} :
    fault ∈ vocabulary.leftSideFaults symbol ↔
      symbol ∉ vocabulary.nonterminals ∧ fault = .undeclaredLeftSide symbol := by
  simp only [leftSideFaults, List.mem_ite_nil_left, List.mem_singleton]

theorem mem_shapeFaults_one {symbol : String} :
    fault ∈ vocabulary.shapeFaults [symbol] ↔
      symbol ≠ emptyMarker ∧ symbol ∉ vocabulary.terminals ∧
        (symbol ∈ vocabulary.nonterminals ∧ fault = .unitProduction symbol ∨
          symbol ∉ vocabulary.nonterminals ∧
          fault = .undefinedTerminal symbol) := by
  unfold shapeFaults shape
  by_cases hmarker : symbol = emptyMarker
  · simp [hmarker, failure?]
  · by_cases hterminal : symbol ∈ vocabulary.terminals
    · simp [hmarker, hterminal, failure?]
    · by_cases hnonterminal : symbol ∈ vocabulary.nonterminals
      · simp [hmarker, hterminal, hnonterminal, failure?]
      · simp [hmarker, hterminal, hnonterminal, failure?]

theorem mem_shapeFaults_two {left right : String} :
    fault ∈ vocabulary.shapeFaults [left, right] ↔
      ∃ symbol ∈ [left, right], symbol ∉ vocabulary.nonterminals ∧
        fault = .undefinedNonterminal symbol := by
  have hfaults : vocabulary.shapeFaults [left, right] =
      ([left, right].filter (· ∉ vocabulary.nonterminals)).map
        .undefinedNonterminal := by
    unfold shapeFaults shape
    dsimp only
    split
    · rename_i hnone
      rw [hnone]
      rfl
    · rfl
  rw [hfaults, List.mem_map]
  apply exists_congr
  intro symbol
  rw [List.mem_filter, decide_eq_true_iff, and_assoc, @eq_comm _ fault]

theorem shapeFaults_of_length {rightSide : List String}
    (hone : rightSide.length ≠ 1) (htwo : rightSide.length ≠ 2) :
    vocabulary.shapeFaults rightSide = [.malformedAlternative rightSide] := by
  unfold shapeFaults
  match rightSide with
  | [] => rfl
  | [_] => exact absurd rfl hone
  | [_, _] => exact absurd rfl htwo
  | _ :: _ :: _ :: _ => rfl

theorem rightSide_cases (rightSide : List String) :
    (∃ symbol, rightSide = [symbol]) ∨ (∃ left right, rightSide = [left, right]) ∨
      rightSide.length ≠ 1 ∧ rightSide.length ≠ 2 := by
  rw [← List.length_eq_one_iff, ← List.length_eq_two]
  omega

theorem breaches_of_mem_shapeFaults
    (hfault : fault ∈ vocabulary.shapeFaults declaration.rightSide) :
    vocabulary.Breaches declaration fault := by
  rcases rightSide_cases declaration.rightSide with
    ⟨symbol, hright⟩ | ⟨left, right, hright⟩ | ⟨hone, htwo⟩
  · rw [hright, mem_shapeFaults_one] at hfault
    obtain ⟨hmarker, hterminal, hcases⟩ := hfault
    rcases hcases with ⟨hnonterminal, rfl⟩ | ⟨hnonterminal, rfl⟩
    · exact .unit hright hmarker hterminal hnonterminal
    · exact .undefined hright hmarker hterminal hnonterminal
  · rw [hright, mem_shapeFaults_two] at hfault
    obtain ⟨symbol, hmember, hnonterminal, rfl⟩ := hfault
    exact .member hright hmember hnonterminal
  · rw [shapeFaults_of_length hone htwo] at hfault
    cases List.mem_singleton.mp hfault
    exact .malformed hone htwo

theorem mem_breaches :
    fault ∈ vocabulary.breaches declaration ↔
      vocabulary.Breaches declaration fault := by
  rw [breaches_eq_append, List.mem_append, mem_leftSideFaults]
  apply Iff.intro
  · intro hfault
    rcases hfault with ⟨hundeclared, rfl⟩ | hshape
    · exact .leftSide hundeclared
    · exact breaches_of_mem_shapeFaults hshape
  · intro hbreaches
    cases hbreaches with
    | leftSide hsymbol => exact .inl ⟨hsymbol, rfl⟩
    | @unit symbol hright hmarker hterminal hnonterminal =>
        rw [hright]
        exact .inr (mem_shapeFaults_one.mpr
          ⟨hmarker, hterminal, .inl ⟨hnonterminal, rfl⟩⟩)
    | @undefined symbol hright hmarker hterminal hnonterminal =>
        rw [hright]
        exact .inr (mem_shapeFaults_one.mpr
          ⟨hmarker, hterminal, .inr ⟨hnonterminal, rfl⟩⟩)
    | @member left right symbol hright hmember hnonterminal =>
        rw [hright]
        exact .inr (mem_shapeFaults_two.mpr ⟨symbol, hmember, hnonterminal, rfl⟩)
    | malformed hone htwo =>
        rw [shapeFaults_of_length hone htwo]
        exact .inr (List.mem_singleton_self _)

theorem Admits.not_breaches (hadmits : vocabulary.Admits declaration) :
    ¬ vocabulary.Breaches declaration fault := by
  intro hbreaches
  obtain ⟨hsymbol, alternative, hshapes⟩ := hadmits
  cases hbreaches with
  | leftSide hundeclared => exact hundeclared hsymbol
  | unit hright hmarker hterminal _ | undefined hright hmarker hterminal _ =>
      rw [hright] at hshapes
      cases hshapes with
      | empty => exact hmarker rfl
      | terminal hdeclared _ => exact hterminal hdeclared
  | @member left right symbol hright hmember hnonterminal =>
      rw [hright] at hshapes
      cases hshapes with
      | pair hleftDeclared hrightDeclared =>
          rcases List.mem_pair.mp hmember with rfl | rfl
          · exact hnonterminal hleftDeclared
          · exact hnonterminal hrightDeclared
  | malformed hone htwo =>
      generalize declaration.rightSide = rightSide at hshapes hone htwo
      cases hshapes with
      | empty => exact hone rfl
      | terminal _ _ => exact hone rfl
      | pair _ _ => exact htwo rfl

theorem exists_shapes_of_forall_not_breaches
    (hsound : ∀ fault, ¬ vocabulary.Breaches declaration fault) :
    ∃ alternative, vocabulary.Shapes declaration.rightSide alternative := by
  rcases rightSide_cases declaration.rightSide with
    ⟨symbol, hright⟩ | ⟨left, right, hright⟩ | ⟨hone, htwo⟩
  · rw [hright]
    by_cases hmarker : symbol = emptyMarker
    · exact ⟨.empty, hmarker ▸ .empty⟩
    · by_cases hterminal : symbol ∈ vocabulary.terminals
      · exact ⟨.terminal symbol, .terminal hterminal hmarker⟩
      · by_cases hnonterminal : symbol ∈ vocabulary.nonterminals
        · exact absurd (.unit hright hmarker hterminal hnonterminal) (hsound _)
        · exact absurd (.undefined hright hmarker hterminal hnonterminal)
            (hsound _)
  · have hmember {symbol : String} (hmem : symbol ∈ [left, right]) :
        symbol ∈ vocabulary.nonterminals := by
      by_contra hundeclared
      exact hsound _ (.member hright hmem hundeclared)
    rw [hright]
    exact ⟨.pair left right, .pair (hmember (by simp)) (hmember (by simp))⟩
  · exact absurd (.malformed hone htwo) (hsound _)

theorem admits_iff_forall_not_breaches :
    vocabulary.Admits declaration ↔
      ∀ fault, ¬ vocabulary.Breaches declaration fault := by
  apply Iff.intro
  · intro hadmits fault
    exact hadmits.not_breaches
  · intro hsound
    refine ⟨?_, exists_shapes_of_forall_not_breaches hsound⟩
    by_contra hsymbol
    exact hsound _ (.leftSide hsymbol)

theorem breaches_eq_nil_iff :
    vocabulary.breaches declaration = [] ↔ vocabulary.Admits declaration := by
  rw [List.eq_nil_iff_forall_not_mem, admits_iff_forall_not_breaches]
  simp only [mem_breaches]

end Faults

/-- Two vocabularies with the same start symbol and the same symbols of either
kind, in whatever order and however often they are named. -/
structure Agrees (first second : Vocabulary) : Prop where
  start : first.start = second.start
  terminals : ∀ symbol, symbol ∈ first.terminals ↔ symbol ∈ second.terminals
  nonterminals : ∀ symbol,
    symbol ∈ first.nonterminals ↔ symbol ∈ second.nonterminals

section Agreement

variable {first second : Vocabulary} {declaration : Declaration}
  {fault : GrammarFault} {rightSide : List String} {alternative : Alternative}

theorem agrees_distinct (vocabulary : Vocabulary) :
    vocabulary.Agrees vocabulary.distinct :=
  ⟨rfl, fun _ => List.mem_eraseDups.symm, fun _ => List.mem_eraseDups.symm⟩

theorem Agrees.symm (hagrees : first.Agrees second) : second.Agrees first :=
  ⟨hagrees.start.symm, fun symbol => (hagrees.terminals symbol).symm,
    fun symbol => (hagrees.nonterminals symbol).symm⟩

theorem Agrees.flawed (hagrees : first.Agrees second)
    (hflawed : first.Flawed fault) : second.Flawed fault := by
  cases hflawed with
  | bothKinds hterminal hnonterminal =>
      exact .bothKinds ((hagrees.terminals _).mp hterminal)
        ((hagrees.nonterminals _).mp hnonterminal)
  | marker hmarker => exact .marker ((hagrees.terminals _).mp hmarker)
  | start hstart =>
      rw [hagrees.start] at hstart ⊢
      exact .start (mt (hagrees.nonterminals _).mpr hstart)

theorem Agrees.flawed_iff (hagrees : first.Agrees second) :
    first.Flawed fault ↔ second.Flawed fault :=
  ⟨hagrees.flawed, hagrees.symm.flawed⟩

theorem Agrees.breaches (hagrees : first.Agrees second)
    (hbreaches : first.Breaches declaration fault) :
    second.Breaches declaration fault := by
  have hterminals {symbol : String} : symbol ∉ first.terminals →
      symbol ∉ second.terminals := mt (hagrees.terminals symbol).mpr
  have hnonterminals {symbol : String} : symbol ∉ first.nonterminals →
      symbol ∉ second.nonterminals := mt (hagrees.nonterminals symbol).mpr
  cases hbreaches with
  | leftSide hsymbol => exact .leftSide (hnonterminals hsymbol)
  | unit hright hmarker hterminal hnonterminal =>
      exact .unit hright hmarker (hterminals hterminal)
        ((hagrees.nonterminals _).mp hnonterminal)
  | undefined hright hmarker hterminal hnonterminal =>
      exact .undefined hright hmarker (hterminals hterminal)
        (hnonterminals hnonterminal)
  | member hright hmember hnonterminal =>
      exact .member hright hmember (hnonterminals hnonterminal)
  | malformed hone htwo => exact .malformed hone htwo

theorem Agrees.breaches_iff (hagrees : first.Agrees second) :
    first.Breaches declaration fault ↔ second.Breaches declaration fault :=
  ⟨hagrees.breaches, hagrees.symm.breaches⟩

theorem Agrees.proper_iff (hagrees : first.Agrees second) :
    first.Proper ↔ second.Proper := by
  simp only [proper_iff_forall_not_flawed, hagrees.flawed_iff]

theorem Agrees.admits_iff (hagrees : first.Agrees second) :
    first.Admits declaration ↔ second.Admits declaration := by
  simp only [admits_iff_forall_not_breaches, hagrees.breaches_iff]

theorem Agrees.shapes (hagrees : first.Agrees second)
    (hshapes : first.Shapes rightSide alternative) :
    second.Shapes rightSide alternative := by
  cases hshapes with
  | empty => exact .empty
  | terminal hterminal hmarker =>
      exact .terminal ((hagrees.terminals _).mp hterminal) hmarker
  | pair hleft hright =>
      exact .pair ((hagrees.nonterminals _).mp hleft)
        ((hagrees.nonterminals _).mp hright)

end Agreement

section Building

variable {vocabulary : Vocabulary} {declarations : List Declaration}
  {origin : Location}

theorem declarationFaults_eq (declaration : Declaration) :
    vocabulary.declarationFaults declaration =
      (vocabulary.breaches declaration).map (Located.mk declaration.location) :=
  rfl

theorem problems_eq_nil_iff :
    vocabulary.problems declarations origin = [] ↔ vocabulary.Proper ∧
      ∀ declaration ∈ declarations, vocabulary.Admits declaration := by
  simp only [problems, List.append_eq_nil_iff, List.map_eq_nil_iff,
    faults_eq_nil_iff, List.flatMap_eq_nil_iff, declarationFaults_eq,
    breaches_eq_nil_iff]

def productionOf? (vocabulary : Vocabulary)
    (declaration : Declaration) : Option Production :=
  (vocabulary.productionOf declaration).toOption

theorem productionsOf_eq :
    vocabulary.productionsOf declarations =
      (declarations.filterMap vocabulary.productionOf?).eraseDups :=
  rfl

theorem productionOf?_of_admits {declaration : Declaration}
    (hadmits : vocabulary.Admits declaration) :
    ∃ alternative, vocabulary.Shapes declaration.rightSide alternative ∧
      vocabulary.productionOf? declaration =
        some ⟨declaration.symbol, alternative⟩ := by
  obtain ⟨hsymbol, alternative, hshapes⟩ := hadmits
  refine ⟨alternative, hshapes, ?_⟩
  have hleft : vocabulary.leftSideFaults declaration.symbol = [] := by
    simp [leftSideFaults, hsymbol]
  rw [productionOf?, productionOf, hleft, shape_eq_ok_iff.mpr hshapes]
  rfl

theorem forall₂_shapes_productions (symbol : String)
    (hadmits : ∀ declaration ∈ declarations, vocabulary.Admits declaration) :
    List.Forall₂
      (fun declaration alternative =>
        vocabulary.Shapes declaration.rightSide alternative)
      (declarations.filter (·.symbol = symbol))
      (((declarations.filterMap vocabulary.productionOf?).filter
        (·.symbol = symbol)).map (·.alternative)) := by
  induction declarations with
  | nil => exact .nil
  | cons declaration declarations ih =>
      have hrest := ih fun other hother =>
        hadmits other (List.mem_cons_of_mem _ hother)
      obtain ⟨alternative, hshapes, hhead⟩ :=
        productionOf?_of_admits (hadmits declaration List.mem_cons_self)
      rw [List.filterMap_cons_some hhead]
      by_cases hsymbol : declaration.symbol = symbol
      · simp only [List.filter_cons, hsymbol, decide_true, if_true, List.map_cons]
        exact .cons hshapes hrest
      · simp only [List.filter_cons, hsymbol, decide_false, Bool.false_eq_true,
          if_false]
        exact hrest

end Building

end Vocabulary

namespace Rules

def Inhabited (rules : Rules) : Prop :=
  ∀ symbol alternatives, rules.get? symbol = some alternatives → alternatives ≠ []

theorem Inhabited.add {rules : Rules} (hinhabited : rules.Inhabited)
    (production : Production) : (rules.add production).Inhabited :=
  SortedMap.All.update hinhabited (by simp)

theorem inhabited_foldl_add (productions : List Production) {rules : Rules}
    (hinhabited : rules.Inhabited) : (productions.foldl add rules).Inhabited := by
  induction productions generalizing rules with
  | nil => exact hinhabited
  | cons production productions ih => exact ih (hinhabited.add production)

theorem inhabited_ofProductions (productions : List Production) :
    (ofProductions productions).Inhabited := by
  apply inhabited_foldl_add
  intro symbol alternatives hget
  cases hget

theorem Inhabited.mem_entries_iff {rules : Rules} (hinhabited : rules.Inhabited)
    {symbol : String} {alternatives : List Alternative} :
    (symbol, alternatives) ∈ rules.entries ↔
      alternatives = rules.alternatives symbol ∧ alternatives ≠ [] := by
  rw [← SortedMap.get?_eq_some_iff, Rules.alternatives]
  apply Iff.intro
  · intro hget
    refine ⟨?_, hinhabited symbol alternatives hget⟩
    rw [hget]
    rfl
  · intro hentry
    obtain ⟨heq, hne⟩ := hentry
    cases hget : rules.get? symbol with
    | none =>
        rw [hget] at heq
        exact absurd heq hne
    | some known =>
        rw [hget] at heq
        exact congrArg some heq.symm

end Rules

namespace Grammar

variable {vocabulary : Vocabulary} {declarations : List Declaration}
  {origin : Location}

/-- The grammar is what was declared: its symbols without repeats, and under
each symbol the alternatives of its declarations, in their order and without
repeats. -/
structure Stores (grammar : Grammar) (vocabulary : Vocabulary)
    (declarations : List Declaration) : Prop where
  start : grammar.start = vocabulary.start
  terminals : grammar.terminals = vocabulary.terminals.eraseDups
  nonterminals : grammar.nonterminals = vocabulary.nonterminals.eraseDups
  alternatives : ∀ symbol, ∃ declared,
    List.Forall₂
      (fun declaration alternative =>
        vocabulary.Shapes declaration.rightSide alternative)
      (declarations.filter (·.symbol = symbol)) declared ∧
    grammar.alternatives symbol = declared.eraseDups
  entries : ∀ symbol alternatives, (symbol, alternatives) ∈ grammar.rules.entries ↔
    alternatives = grammar.alternatives symbol ∧ alternatives ≠ []

/-- The problems are the faults of the declared symbols, each once, and after
them a group for every declaration, in the order and at the places of the
declarations; the group is empty where the declaration is in normal form. -/
structure Reports (problems : List (Located GrammarFault)) (vocabulary : Vocabulary)
    (declarations : List Declaration) (origin : Location)
    (header : List GrammarFault)
    (group : Declaration → List GrammarFault) : Prop where
  ne_nil : problems ≠ []
  eq_append : problems = header.map (Located.mk origin) ++
    declarations.flatMap fun declaration =>
      (group declaration).map (Located.mk declaration.location)
  nodup_header : header.Nodup
  mem_header : ∀ fault, fault ∈ header ↔ vocabulary.Flawed fault
  mem_group : ∀ declaration fault,
    fault ∈ group declaration ↔ vocabulary.Breaches declaration fault
  group_eq_nil : ∀ declaration,
    group declaration = [] ↔ vocabulary.Admits declaration

theorem stores_ofProductions
    (hadmits : ∀ declaration ∈ declarations, vocabulary.Admits declaration) :
    (ofProductions vocabulary.distinct
      (vocabulary.distinct.productionsOf declarations)).Stores
        vocabulary declarations := by
  have hagrees := vocabulary.agrees_distinct
  refine ⟨rfl, rfl, rfl, ?_, ?_⟩
  · intro symbol
    have hforall := Vocabulary.forall₂_shapes_productions symbol
      fun declaration hmem => hagrees.admits_iff.mp (hadmits declaration hmem)
    refine ⟨_, hforall.imp fun _ _ hshapes => hagrees.symm.shapes hshapes, ?_⟩
    have hrules := Rules.alternatives_ofProductions
      (vocabulary.distinct.productionsOf declarations) symbol
    rw [Vocabulary.productionsOf_eq, filter_eraseDups, map_eraseDups] at hrules
    · exact hrules
    · intro first hfirst second hsecond heq
      have hfirstSymbol := of_decide_eq_true (List.mem_filter.mp hfirst).2
      have hsecondSymbol := of_decide_eq_true (List.mem_filter.mp hsecond).2
      cases first
      cases second
      simp_all
  · intro symbol alternatives
    exact (Rules.inhabited_ofProductions _).mem_entries_iff

theorem build_of_no_problems
    (hnone : vocabulary.distinct.problems declarations origin = []) :
    build vocabulary declarations origin =
      .ok (ofProductions vocabulary.distinct
        (vocabulary.distinct.productionsOf declarations)) := by
  rw [build, hnone]

theorem build_of_sound (hproper : vocabulary.Proper)
    (hadmits : ∀ declaration ∈ declarations, vocabulary.Admits declaration) :
    build vocabulary declarations origin =
      .ok (ofProductions vocabulary.distinct
        (vocabulary.distinct.productionsOf declarations)) := by
  have hagrees := vocabulary.agrees_distinct
  apply build_of_no_problems
  exact Vocabulary.problems_eq_nil_iff.mpr ⟨hagrees.proper_iff.mp hproper,
    fun declaration hmem => hagrees.admits_iff.mp (hadmits declaration hmem)⟩

theorem build_of_problems
    (hproblems : vocabulary.distinct.problems declarations origin ≠ []) :
    build vocabulary declarations origin =
      .error (vocabulary.distinct.problems declarations origin) := by
  rw [build]
  split
  · rename_i hnone
    exact absurd hnone hproblems
  · rfl

theorem reports_problems
    (hproblems : vocabulary.distinct.problems declarations origin ≠ []) :
    Reports (vocabulary.distinct.problems declarations origin) vocabulary
      declarations origin vocabulary.distinct.faults
      vocabulary.distinct.breaches := by
  have hagrees := vocabulary.agrees_distinct.symm
  refine ⟨hproblems, rfl, Vocabulary.nodup_faults (nodup_eraseDups _), ?_, ?_, ?_⟩
  · intro fault
    rw [Vocabulary.mem_faults, hagrees.flawed_iff]
  · intro declaration fault
    rw [Vocabulary.mem_breaches, hagrees.breaches_iff]
  · intro declaration
    rw [Vocabulary.breaches_eq_nil_iff, hagrees.admits_iff]

/-- Declarations make a grammar exactly if they are in normal form over proper
symbols. The grammar stores them as they were declared; where there is none,
every fault is reported, and none that is not there. -/
theorem build_exact (vocabulary : Vocabulary) (declarations : List Declaration)
    (origin : Location) :
    ((∃ grammar, build vocabulary declarations origin = .ok grammar) ↔
      vocabulary.Proper ∧
        ∀ declaration ∈ declarations, vocabulary.Admits declaration) ∧
    (∀ grammar, build vocabulary declarations origin = .ok grammar →
      grammar.Stores vocabulary declarations) ∧
    (∀ problems, build vocabulary declarations origin = .error problems →
      ∃ header group,
        Reports problems vocabulary declarations origin header group) := by
  have hagrees := vocabulary.agrees_distinct
  by_cases hproblems : vocabulary.distinct.problems declarations origin = []
  · obtain ⟨hproper, hadmits⟩ := Vocabulary.problems_eq_nil_iff.mp hproblems
    have hproper := hagrees.proper_iff.mpr hproper
    have hadmits : ∀ declaration ∈ declarations, vocabulary.Admits declaration :=
      fun declaration hmem => hagrees.admits_iff.mpr (hadmits declaration hmem)
    rw [build_of_sound hproper hadmits]
    refine ⟨⟨fun _ => ⟨hproper, hadmits⟩, fun _ => ⟨_, rfl⟩⟩, ?_, ?_⟩
    · intro grammar hgrammar
      cases hgrammar
      exact stores_ofProductions hadmits
    · intro problems hreported
      cases hreported
  · rw [build_of_problems hproblems]
    refine ⟨⟨?_, ?_⟩, ?_, ?_⟩
    · intro hgrammar
      obtain ⟨_, hgrammar⟩ := hgrammar
      cases hgrammar
    · intro hsound
      obtain ⟨hproper, hadmits⟩ := hsound
      exact absurd (Vocabulary.problems_eq_nil_iff.mpr
        ⟨hagrees.proper_iff.mp hproper, fun declaration hmem =>
          hagrees.admits_iff.mp (hadmits declaration hmem)⟩) hproblems
    · intro grammar hgrammar
      cases hgrammar
    · intro problems hreported
      cases hreported
      exact ⟨_, _, reports_problems hproblems⟩

def starred : Vocabulary :=
  ⟨"S", ["a", "b", "a"], ["S", "*"]⟩

def starredDeclarations : List Declaration :=
  [⟨"S", ["*"], ⟨"", 4⟩⟩, ⟨"S", ["a"], ⟨"", 5⟩⟩, ⟨"S", ["*"], ⟨"", 6⟩⟩,
    ⟨"*", ["S", "*"], ⟨"", 7⟩⟩]

theorem build_starred : build starred starredDeclarations =
    .ok (ofProductions starred.distinct [⟨"S", .empty⟩, ⟨"S", .terminal "a"⟩,
      ⟨"*", .pair "S" "*"⟩]) := by
  decide

def undeclaredStar : Vocabulary :=
  { starred with nonterminals := ["S"] }

theorem build_exact_starred :
    (∃ grammar, build starred starredDeclarations = .ok grammar ∧
      grammar.terminals = ["a", "b"] ∧ ("b", []) ∉ grammar.rules.entries) ∧
    ∃ problems, build undeclaredStar starredDeclarations = .error problems ∧
      ∃ header group, Reports problems undeclaredStar starredDeclarations .unknown
        header group := by
  have hgrammar : build starred starredDeclarations =
      .ok (ofProductions starred.distinct [⟨"S", .empty⟩, ⟨"S", .terminal "a"⟩,
        ⟨"*", .pair "S" "*"⟩]) := by
    decide
  have hproblems : build undeclaredStar starredDeclarations =
      .error [⟨⟨"", 7⟩, .undeclaredLeftSide "*"⟩,
        ⟨⟨"", 7⟩, .undefinedNonterminal "*"⟩] := by
    decide
  have hstores := (build_exact starred starredDeclarations .unknown).2.1 _ hgrammar
  have hreports :=
    (build_exact undeclaredStar starredDeclarations .unknown).2.2 _ hproblems
  refine ⟨⟨_, hgrammar, hstores.terminals, ?_⟩, _, hproblems, hreports⟩
  intro hentry
  exact ((hstores.entries "b" []).mp hentry).2 rfl

end Grammar

end ChomskyChart
