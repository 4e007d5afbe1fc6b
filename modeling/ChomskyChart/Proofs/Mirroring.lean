import ChomskyChart.Proofs.Exactness

namespace ChomskyChart

namespace SortedSet

variable {α β : Type} [Ord α] [Ord β] [Std.TransOrd β] [Std.LawfulEqOrd β]

def image (set : SortedSet α) (naming : α → β) : SortedSet β :=
  ofList (set.toList.map naming)

@[simp] theorem mem_image {set : SortedSet α} {naming : α → β} {element : β} :
    element ∈ set.image naming ↔ ∃ origin ∈ set, naming origin = element := by
  rw [image, mem_ofList, List.mem_map]
  rfl

@[simp] theorem image_id {set : SortedSet β} : set.image id = set := by
  ext element
  simp

end SortedSet

namespace Alternative

def rename (naming : String → String) : Alternative → Alternative
  | terminal symbol => terminal (naming symbol)
  | pair left right => pair (naming left) (naming right)
  | empty => empty

@[simp] theorem rename_id (alternative : Alternative) :
    alternative.rename id = alternative := by
  cases alternative with
  | terminal symbol => rfl
  | pair left right => rfl
  | empty => rfl

theorem rename_injective {naming : String → String}
    (hinjective : naming.Injective) :
    (rename naming).Injective := by
  intro first second heq
  cases first with
  | terminal symbol =>
      cases second with
      | terminal other => exact congrArg terminal (hinjective (terminal.inj heq))
      | pair _ _ => cases heq
      | empty => cases heq
  | pair left right =>
      cases second with
      | terminal _ => cases heq
      | pair otherLeft otherRight =>
          obtain ⟨hleft, hright⟩ := pair.inj heq
          rw [hinjective hleft, hinjective hright]
      | empty => cases heq
  | empty =>
      cases second with
      | terminal _ => cases heq
      | pair _ _ => cases heq
      | empty => rfl

end Alternative

namespace Grammar

def HasImage (grammar : Grammar) (naming : String → String) (symbol : String)
    (alternative : Alternative) : Prop :=
  ∃ origin known, known ∈ grammar.alternatives origin ∧ naming origin = symbol ∧
    known.rename naming = alternative

/-- The terminals and pairs of the second grammar are those of the first one in
other symbols. -/
def Mirrors (naming : String → String) (first second : Grammar) : Prop :=
  ∀ symbol alternative, alternative ≠ .empty →
    (alternative ∈ second.alternatives symbol ↔
      first.HasImage naming symbol alternative)

structure Renames (naming : String → String) (first second : Grammar) : Prop where
  start : second.start = naming first.start
  alternatives : ∀ symbol alternative,
    alternative ∈ second.alternatives symbol ↔
      first.HasImage naming symbol alternative

def Within (first second : Grammar) : Prop :=
  ∀ symbol alternative, alternative ≠ .empty →
    alternative ∈ first.alternatives symbol →
    alternative ∈ second.alternatives symbol

variable {naming : String → String} {grammar first second : Grammar}
  {symbol : String}

theorem hasImage_id_iff {alternative : Alternative} :
    grammar.HasImage id symbol alternative ↔
      alternative ∈ grammar.alternatives symbol := by
  apply Iff.intro
  · intro himage
    obtain ⟨_, known, hknown, rfl, rfl⟩ := himage
    rw [known.rename_id]
    exact hknown
  · intro halternative
    exact ⟨symbol, alternative, halternative, rfl, alternative.rename_id⟩

theorem hasImage_rename_iff (hinjective : naming.Injective)
    (alternative : Alternative) :
    grammar.HasImage naming symbol (alternative.rename naming) ↔
      ∃ origin, alternative ∈ grammar.alternatives origin ∧
      naming origin = symbol := by
  apply Iff.intro
  · intro himage
    obtain ⟨origin, known, hknown, hsymbol, hrename⟩ := himage
    rw [Alternative.rename_injective hinjective hrename] at hknown
    exact ⟨origin, hknown, hsymbol⟩
  · intro horigin
    obtain ⟨origin, halternative, hsymbol⟩ := horigin
    exact ⟨origin, alternative, halternative, hsymbol, rfl⟩

theorem mirrors_of_within (hforth : first.Within second)
    (hback : second.Within first) :
    Mirrors id first second := by
  intro symbol alternative hne
  rw [hasImage_id_iff]
  exact ⟨hback symbol alternative hne, hforth symbol alternative hne⟩

theorem Mirrors.mem_alternatives_iff (hmirrors : Mirrors naming first second)
    (hinjective : naming.Injective) (alternative : Alternative)
    (hne : alternative ≠ .empty) :
    alternative.rename naming ∈ second.alternatives symbol ↔
      ∃ origin, alternative ∈ first.alternatives origin ∧
      naming origin = symbol := by
  have hrenamed : alternative.rename naming ≠ Alternative.rename naming .empty :=
    (Alternative.rename_injective hinjective).ne hne
  rw [hmirrors symbol _ hrenamed, hasImage_rename_iff hinjective]

theorem Renames.mirrors (hrenames : Renames naming first second) :
    Mirrors naming first second :=
  fun symbol alternative _ => hrenames.alternatives symbol alternative

theorem Renames.derivesEmpty_eq (hrenames : Renames naming first second)
    (hinjective : naming.Injective) : second.derivesEmpty = first.derivesEmpty := by
  have hempty : first.HasImage naming (naming first.start) .empty ↔
      ∃ origin, .empty ∈ first.alternatives origin ∧
      naming origin = naming first.start :=
    hasImage_rename_iff hinjective .empty
  rw [derivesEmpty, derivesEmpty, hrenames.start, Bool.eq_iff_iff, nullable_iff,
    nullable_iff, hrenames.alternatives, hempty]
  simp [hinjective.eq_iff]

end Grammar

namespace Chart

def rename (naming : String → String) (chart : Chart) : Chart :=
  ⟨chart.tokens.map naming, chart.rows.map (·.map (·.image naming))⟩

@[simp] theorem rename_id (chart : Chart) : chart.rename id = chart := by
  simp [rename]

section Naming

variable {naming : String → String} {chart : Chart} {length start : Nat}

theorem row_rename :
    (chart.rename naming).row length =
      (chart.row length).map (·.map (·.image naming)) := by
  cases length with
  | zero => rfl
  | succ length => exact List.getElem?_map

theorem cell_rename :
    (chart.rename naming).cell length start =
      (chart.cell length start).map (·.image naming) := by
  rw [cell, cell, row_rename]
  cases chart.row length with
  | none => rfl
  | some row => exact List.getElem?_map

theorem getD_cell_rename :
    ((chart.rename naming).cell length start).getD ∅ =
      ((chart.cell length start).getD ∅).image naming := by
  rw [cell_rename]
  cases chart.cell length start with
  | none => rfl
  | some cell => rfl

theorem top_rename : (chart.rename naming).top = chart.top.image naming := by
  have hlast : (chart.rename naming).rows.getLast? =
      chart.rows.getLast?.map (·.map (·.image naming)) :=
    List.getLast?_map
  rw [top, top, hlast]
  cases chart.rows.getLast? with
  | none => rfl
  | some row =>
      cases row with
      | nil => rfl
      | cons head tail => rfl

theorem accepts_rename (hinjective : naming.Injective) (chart : Chart)
    (symbol : String) :
    (chart.rename naming).accepts (naming symbol) = chart.accepts symbol := by
  apply decide_eq_decide.mpr
  rw [top_rename, SortedSet.mem_image]
  apply Iff.intro
  · intro horigin
    obtain ⟨origin, horigin, heq⟩ := horigin
    exact hinjective heq ▸ horigin
  · intro hsymbol
    exact ⟨symbol, hsymbol, rfl⟩

end Naming

section Filling

variable {naming : String → String} {first second : Grammar}

theorem firstRow_rename (hmirrors : Grammar.Mirrors naming first second)
    (hinjective : naming.Injective) (tokens : List String) :
    firstRow second (tokens.map naming) =
      (firstRow first tokens).map (·.image naming) := by
  rw [firstRow, firstRow, List.map_map, List.map_map]
  apply List.map_congr_left
  intro token _
  ext symbol
  change symbol ∈ second.producersOf (Alternative.rename naming (.terminal token)) ↔
    symbol ∈ (first.producersOf (.terminal token)).image naming
  rw [Grammar.mem_producersOf,
    hmirrors.mem_alternatives_iff hinjective (.terminal token) nofun,
    SortedSet.mem_image]
  simp only [Grammar.mem_producersOf]

theorem gatherCell_rename (hmirrors : Grammar.Mirrors naming first second)
    (hinjective : naming.Injective) (chart : Chart) (length start : Nat)
    (splits : List Nat) :
    (chart.rename naming).gatherCell second length start splits =
      (chart.gatherCell first length start splits).image naming := by
  rw [gatherCell_eq_deriveCell, gatherCell_eq_deriveCell]
  ext symbol
  have hpair (left right : String) :
      (Alternative.pair left right).rename naming ∈ second.alternatives symbol ↔
        ∃ origin, .pair left right ∈ first.alternatives origin ∧
        naming origin = symbol :=
    hmirrors.mem_alternatives_iff hinjective (.pair left right) nofun
  simp only [mem_deriveCell, getD_cell_rename, SortedSet.mem_image]
  apply Iff.intro
  · rintro ⟨split, hsplit, _, ⟨left, hleft, rfl⟩, _, ⟨right, hright, rfl⟩, hrenamed⟩
    obtain ⟨origin, horigin, hsymbol⟩ := (hpair left right).mp hrenamed
    exact ⟨origin, ⟨split, hsplit, left, hleft, right, hright, horigin⟩, hsymbol⟩
  · rintro ⟨origin, ⟨split, hsplit, left, hleft, right, hright, horigin⟩, hsymbol⟩
    exact ⟨split, hsplit, naming left, ⟨left, hleft, rfl⟩, naming right,
      ⟨right, hright, rfl⟩, (hpair left right).mpr ⟨origin, horigin, hsymbol⟩⟩

theorem deriveRow_rename (hmirrors : Grammar.Mirrors naming first second)
    (hinjective : naming.Injective) (chart : Chart) (length : Nat) :
    (chart.rename naming).deriveRow second length =
      (chart.deriveRow first length).map (·.image naming) := by
  have htokens : (chart.rename naming).tokens.length = chart.tokens.length :=
    List.length_map _
  rw [deriveRow, deriveRow, htokens, List.map_map]
  apply List.map_congr_left
  intro start _
  exact gatherCell_rename hmirrors hinjective chart length start _

/-- By induction on the rows: what is renamed before a row is filled is renamed
after it. -/
theorem fill_rename (hmirrors : Grammar.Mirrors naming first second)
    (hinjective : naming.Injective) (tokens : List String) (count : Nat) :
    fill second (tokens.map naming) count =
      (fill first tokens count).rename naming := by
  induction count with
  | zero =>
      rw [fill, fill, firstRow_rename hmirrors hinjective]
      rfl
  | succ count ih =>
      rw [fill, fill, ih, deriveRow_rename hmirrors hinjective]
      simp [rename]

theorem build_rename (hmirrors : Grammar.Mirrors naming first second)
    (hinjective : naming.Injective) (tokens : List String) :
    build second (tokens.map naming) =
      (build first tokens).map (·.rename naming) := by
  rw [build, build, fill_rename hmirrors hinjective, List.length_map]
  cases tokens with
  | nil => rfl
  | cons head tail => rfl

theorem fill_of_within (hforth : first.Within second) (hback : second.Within first)
    (tokens : List String)
    (count : Nat) : fill first tokens count = fill second tokens count := by
  have hmirrors := Grammar.mirrors_of_within hforth hback
  have hrename := fill_rename hmirrors Function.injective_id tokens count
  rw [List.map_id, rename_id] at hrename
  exact hrename.symm

theorem build_of_within (hforth : first.Within second) (hback : second.Within first)
    (tokens : List String) : build first tokens = build second tokens := by
  rw [build, build, fill_of_within hforth hback]

end Filling

end Chart

def Recognition.rename (naming : String → String) (recognition : Recognition) :
    Recognition := ⟨recognition.chart.map (·.rename naming), recognition.accepted⟩

@[simp] theorem Recognition.rename_id (recognition : Recognition) :
    recognition.rename id = recognition := by
  simp [rename]

theorem recognize_rename {naming : String → String} {first second : Grammar}
    (hrenames : Grammar.Renames naming first second) (hinjective : naming.Injective)
    (tokens : List String) :
    recognize second (tokens.map naming) =
      (recognize first tokens).rename naming := by
  rw [recognize, recognize, Chart.build_rename hrenames.mirrors hinjective]
  cases Chart.build first tokens with
  | none =>
      exact congrArg (Recognition.mk none)
        (hrenames.derivesEmpty_eq hinjective)
  | some chart =>
      have haccepts := Chart.accepts_rename hinjective chart first.start
      rw [← hrenames.start] at haccepts
      exact congrArg (Recognition.mk (some (chart.rename naming))) haccepts

/-- What is recognized does not depend on the order of the alternatives. -/
theorem recognize_congr {first second : Grammar}
    (hstart : first.start = second.start) (hmem : ∀ symbol alternative,
      alternative ∈ first.alternatives symbol ↔
        alternative ∈ second.alternatives symbol)
    (tokens : List String) : recognize first tokens = recognize second tokens := by
  have hrenames : Grammar.Renames id first second := by
    refine ⟨hstart.symm, ?_⟩
    intro symbol alternative
    rw [Grammar.hasImage_id_iff, hmem]
  have hrename := recognize_rename hrenames Function.injective_id tokens
  rw [List.map_id, Recognition.rename_id] at hrename
  exact hrename.symm

end ChomskyChart
