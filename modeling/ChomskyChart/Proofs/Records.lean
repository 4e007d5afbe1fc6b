import ChomskyChart.Journal
import ChomskyChart.Proofs.Unproduced
import Mathlib.Data.Set.Card

namespace ChomskyChart

section Counting

variable {α : Type} {test : α → Bool} {head : α} {tail : List α}

def passing (test : α → Bool) (elements : List α) : Set Nat :=
  {position : Nat |
    ∃ element, elements[position]? = some element ∧ test element = true}

theorem passing_cons_of_pos (hhead : test head = true) :
    passing test (head :: tail) = insert 0 (Nat.succ '' passing test tail) := by
  ext position
  cases position with
  | zero => simp [passing, hhead]
  | succ position => simp [passing]

theorem passing_cons_of_neg (hhead : test head = false) :
    passing test (head :: tail) = Nat.succ '' passing test tail := by
  ext position
  cases position with
  | zero => simp [passing, hhead]
  | succ position => simp [passing]

theorem finite_passing (test : α → Bool) (elements : List α) :
    (passing test elements).Finite := by
  apply (Set.finite_lt_nat elements.length).subset
  rintro position ⟨element, helement, _⟩
  exact (List.getElem?_eq_some_iff.mp helement).1

theorem countP_eq_ncard (test : α → Bool) (elements : List α) :
    elements.countP test = (passing test elements).ncard := by
  induction elements with
  | nil => simp [passing]
  | cons head tail ih =>
      have hshifted :=
        Set.ncard_image_of_injective (passing test tail) Nat.succ_injective
      cases hhead : test head with
      | true =>
          have hzero : 0 ∉ Nat.succ '' passing test tail := by simp
          rw [List.countP_cons_of_pos hhead, passing_cons_of_pos hhead,
            Set.ncard_insert_of_notMem hzero ((finite_passing test tail).image _),
            hshifted, ih]
      | false =>
          rw [List.countP_cons_of_neg (by simp [hhead]), passing_cons_of_neg hhead,
            hshifted, ih]

end Counting

namespace Grammar

variable {grammar : Grammar} {tokens : List String} {symbol : String}
  {alternative : Alternative}

theorem Obtained.mem_nonterminals (hobtained : grammar.Obtained)
    (halternative : alternative ∈ grammar.alternatives symbol) :
    symbol ∈ grammar.nonterminals := by
  obtain ⟨built, hsound, heq⟩ := hobtained.exists_sound
  rw [heq] at halternative ⊢
  exact (hsound.declared symbol alternative halternative).1

theorem Obtained.isEmpty_producersOf_iff (hobtained : grammar.Obtained) :
    (grammar.producersOf alternative).isEmpty = true ↔
      ∀ symbol ∈ grammar.nonterminals,
        alternative ∉ grammar.alternatives symbol := by
  rw [SortedSet.isEmpty_iff]
  apply Iff.intro
  · intro hempty symbol _ halternative
    have hproducer := mem_producersOf.mpr halternative
    rw [hempty] at hproducer
    exact SortedSet.not_mem_empty symbol hproducer
  · intro hnone
    ext symbol
    apply iff_of_false
    · intro hproducer
      have halternative := mem_producersOf.mp hproducer
      exact hnone symbol (hobtained.mem_nonterminals halternative) halternative
    · exact SortedSet.not_mem_empty symbol

/-- The positions where a span of the given length starts that some nonterminal
derives. -/
def derivedStarts (grammar : Grammar) (tokens : List String)
    (length : Nat) : Set Nat :=
  {start | start + length ≤ tokens.length ∧
    ∃ symbol ∈ grammar.nonterminals,
      grammar.Derives symbol (Chart.span tokens start length)}

noncomputable def spansEvent (grammar : Grammar) (tokens : List String)
    (length : Nat) : Event :=
  .rowFilled length (grammar.derivedStarts tokens length).ncard
    (tokens.length - length + 1)

section Unproduced

variable {token : String} (hobtained : grammar.Obtained) (hmem : token ∈ tokens)
  (hunproduced :
    ∀ symbol ∈ grammar.nonterminals, .terminal token ∉ grammar.alternatives symbol)

include hobtained hmem hunproduced

theorem Obtained.not_derives (symbol : String) :
    ¬ grammar.Derives symbol tokens := by
  intro hderives
  obtain ⟨producer, hproducer⟩ := hderives.exists_producer token hmem
  exact hunproduced producer (hobtained.mem_nonterminals hproducer) hproducer

theorem Obtained.derivedStarts_eq_empty :
    grammar.derivedStarts tokens tokens.length = ∅ := by
  rw [Set.eq_empty_iff_forall_notMem]
  rintro start ⟨hspan, symbol, _, hderives⟩
  obtain rfl : start = 0 := by omega
  rw [Chart.span_all] at hderives
  exact hobtained.not_derives hmem hunproduced symbol hderives

end Unproduced

end Grammar

namespace Journal

variable {grammar : Grammar} {tokens : List String}

section Filling

def unproducedEvents (grammar : Grammar) (tokens : List String) : List Event :=
  (tokens.filter fun token => (grammar.producersOfTerminal token).isEmpty).map
    .unproduced

def rowEvents (chart : Chart) : List Event :=
  (chart.rows.zipIdx 1).map fun entry => rowEvent entry.2 entry.1

def chartEvents (grammar : Grammar) (tokens : List String) :
    Option Chart → List Event
  | some chart => unproducedEvents grammar tokens ++ rowEvents chart
  | none => [.emptyInput grammar.start]

def recognitionEvents (grammar : Grammar) (tokens : List String)
    (recognition : Recognition) : List Event :=
  chartEvents grammar tokens recognition.chart ++
    [.decided grammar.start recognition.accepted tokens]

theorem events_firstRow (grammar : Grammar) (tokens : List String) :
    (firstRow grammar tokens).events = unproducedEvents grammar tokens := by
  induction tokens with
  | nil => rfl
  | cons token rest ih =>
      rw [firstRow, ih]
      cases hempty : (grammar.producersOfTerminal token).isEmpty with
      | true => simp [unproducedEvents, hempty]
      | false => simp [unproducedEvents, hempty]

theorem rowEvents_append (chart : Chart) (row : List Cell) :
    rowEvents { chart with rows := chart.rows ++ [row] } =
      rowEvents chart ++ [rowEvent (chart.rows.length + 1) row] := by
  rw [rowEvents, List.zipIdx_append, List.map_append, List.zipIdx_singleton,
    Nat.add_comm]
  rfl

theorem events_fill (grammar : Grammar) (tokens : List String) (count : Nat) :
    (fill grammar tokens count).events =
      chartEvents grammar tokens (some (Chart.fill grammar tokens count)) := by
  induction count with
  | zero =>
      rw [fill, events_firstRow, value_firstRow]
      rfl
  | succ count ih =>
      rw [fill, ih, value_fill, chartEvents, chartEvents, Chart.fill,
        rowEvents_append, Chart.length_rows_fill, List.append_assoc]

/-- What is recorded row by row can be read off the chart when it is filled. -/
theorem events_recognize (grammar : Grammar) (tokens : List String) :
    (recognize grammar tokens).events =
      recognitionEvents grammar tokens (ChomskyChart.recognize grammar tokens) := by
  rw [← value_recognize, recognize, recognitionEvents]
  by_cases hne : tokens = []
  · rw [chart, if_pos hne]
    rfl
  · simp only [chart, if_neg hne, value_fill, events_fill, accepts, List.append_nil]

theorem recognize_events (hne : tokens ≠ []) :
    (recognize grammar tokens).events =
      (fill grammar tokens (tokens.length - 1)).events ++
        [.decided grammar.start
          (ChomskyChart.recognize grammar tokens).accepted tokens] := by
  rw [events_recognize, recognitionEvents, Chart.recognize_of_ne_nil hne,
    events_fill]

end Filling

section Rows

theorem exists_mem_cell_iff {cell : Cell} :
    (∃ symbol, symbol ∈ cell) ↔ (!cell.isEmpty) = true := by
  rw [Bool.not_eq_true']
  exact List.isEmpty_eq_false_iff_exists_mem.symm

variable {length : Nat} {row : List Cell} (hobtained : grammar.Obtained)
  (hne : tokens ≠ [])

include hobtained hne

/-- The cells of a row that hold something are those whose spans are derived. -/
theorem passing_row
    (hrow : (Chart.fill grammar tokens (tokens.length - 1)).row length = some row) :
    passing (fun cell => !cell.isEmpty) row =
      grammar.derivedStarts tokens length := by
  ext start
  have hcells : (Chart.fill grammar tokens (tokens.length - 1)).cell length start =
      row[start]? := by
    rw [Chart.cell, hrow, Option.bind_some]
  apply Iff.intro
  · rintro ⟨cell, hcell, hfilled⟩
    rw [← hcells] at hcell
    have hbounds :=
      (Chart.isSome_cell_fill_iff hne).mp (Option.isSome_of_eq_some hcell)
    obtain ⟨symbol, hsymbol⟩ := exists_mem_cell_iff.mpr hfilled
    have hderives := (Chart.mem_cell_fill_iff hne hcell).mp hsymbol
    obtain ⟨alternative, halternative⟩ := hderives.exists_alternative
    exact ⟨hbounds.2, symbol, hobtained.mem_nonterminals halternative, hderives⟩
  · rintro ⟨hspan, symbol, _, hderives⟩
    obtain ⟨cell, hcell⟩ :=
      Chart.exists_cell_fill grammar hne (Chart.bounds_of_row hrow).1 hspan
    have hsymbol := (Chart.mem_cell_fill_iff hne hcell).mpr hderives
    exact ⟨cell, hcells.symm.trans hcell, exists_mem_cell_iff.mp ⟨symbol, hsymbol⟩⟩

theorem rowEvent_eq
    (hrow : (Chart.fill grammar tokens (tokens.length - 1)).row length = some row) :
    rowEvent length row = grammar.spansEvent tokens length := by
  have hlength := (Chart.triangle_fill_last hne).length_row length row hrow
  rw [Chart.tokens_fill] at hlength
  have hbounds := Chart.bounds_of_row hrow
  rw [Chart.length_rows_fill] at hbounds
  have hpositive := List.length_pos_iff.mpr hne
  have htotal : row.length = tokens.length - length + 1 := by omega
  rw [rowEvent, countP_eq_ncard, passing_row hobtained hne hrow, htotal,
    Grammar.spansEvent]

theorem fill_events_succ {count : Nat} (hcount : count + 1 < tokens.length) :
    (fill grammar tokens (count + 1)).events =
      (fill grammar tokens count).events ++
      [grammar.spansEvent tokens (count + 2)] := by
  have hrow : (Chart.fill grammar tokens (tokens.length - 1)).row (count + 2) =
      some ((Chart.fill grammar tokens count).deriveRow grammar (count + 2)) :=
    Chart.row_fill_add_two (by omega)
  rw [fill, value_fill, rowEvent_eq hobtained hne hrow]

theorem fill_events {count : Nat} (hcount : count < tokens.length) :
    (fill grammar tokens count).events = unproducedEvents grammar tokens ++
      (List.range' 1 (count + 1)).map (grammar.spansEvent tokens) := by
  induction count with
  | zero =>
      have hrow : (Chart.fill grammar tokens (tokens.length - 1)).row 1 =
          some (Chart.firstRow grammar tokens) :=
        Chart.row_fill_one _
      rw [fill, events_firstRow, value_firstRow, rowEvent_eq hobtained hne hrow]
      rfl
  | succ count ih =>
      have hlengths :
          List.range' 1 (count + 2) = List.range' 1 (count + 1) ++ [count + 2] := by
        rw [List.range'_1_concat, Nat.add_comm 1]
      rw [fill_events_succ hobtained hne hcount, ih (by omega), hlengths,
        List.map_append, List.append_assoc]
      rfl

end Rows

section Warnings

def unproducedPositions (grammar : Grammar) (tokens : List String) :
    List (Fin tokens.length) :=
  (List.finRange tokens.length).filter fun position =>
    (grammar.producersOfTerminal tokens[position]).isEmpty

theorem increasing_unproducedPositions :
    (unproducedPositions grammar tokens).Pairwise (· < ·) :=
  (List.pairwise_lt_finRange tokens.length).filter _

theorem mem_unproducedPositions (hobtained : grammar.Obtained)
    {position : Fin tokens.length} :
    position ∈ unproducedPositions grammar tokens ↔ ∀ symbol ∈ grammar.nonterminals,
      .terminal tokens[position] ∉ grammar.alternatives symbol := by
  rw [unproducedPositions, List.mem_filter, Grammar.producersOfTerminal,
    hobtained.isEmpty_producersOf_iff]
  exact and_iff_right (List.mem_finRange position)

theorem unproducedEvents_eq (grammar : Grammar) (tokens : List String) :
    unproducedEvents grammar tokens =
      (unproducedPositions grammar tokens).map fun position =>
        .unproduced tokens[position] := by
  have htokens :
      (List.finRange tokens.length).map (fun position => tokens[position]) =
      tokens := List.map_getElem_finRange tokens
  calc unproducedEvents grammar tokens
      = (((List.finRange tokens.length).map
        (fun position => tokens[position])).filter fun token =>
          (grammar.producersOfTerminal token).isEmpty).map .unproduced := by
        rw [htokens, unproducedEvents]
    _ = _ := by
        rw [List.filter_map, List.map_map]
        rfl

theorem exists_position_of_warn {lengths : List Nat} {accepted : Bool}
    {event : Event} (hmem : event ∈ unproducedEvents grammar tokens ++
      lengths.map (grammar.spansEvent tokens) ++
      [.decided grammar.start accepted tokens])
    (hwarn : event.level = .warn) :
    ∃ position, position ∈ unproducedPositions grammar tokens := by
  rw [List.mem_append, List.mem_append] at hmem
  rcases hmem with (htoken | hrow) | hlast
  · rw [unproducedEvents_eq] at htoken
    obtain ⟨position, hposition, _⟩ := List.mem_map.mp htoken
    exact ⟨position, hposition⟩
  · obtain ⟨length, _, rfl⟩ := List.mem_map.mp hrow
    cases hwarn
  · rw [List.mem_singleton.mp hlast] at hwarn
    cases hwarn

end Warnings

def verb (accepted : Bool) : String :=
  if accepted then "derives" else "does not derive"

theorem verb_eq_derives_iff {accepted : Bool} :
    verb accepted = "derives" ↔ accepted = true := by
  cases accepted with
  | true => decide
  | false => decide

theorem verb_eq_does_not_derive_iff {accepted : Bool} :
    verb accepted = "does not derive" ↔ accepted = false := by
  cases accepted with
  | true => decide
  | false => decide

/-- The records of a recognition are a warning for every token that nothing
produces, wherever it stands; then for every length how many spans are derived,
of how many there are; and last what the start symbol does. After a warning
nothing derives all tokens, and the last record says so. -/
theorem records_truthful (hobtained : grammar.Obtained) (hne : tokens ≠ []) :
    ∃ (positions : List (Fin tokens.length)) (accepted : Bool) (said : String),
      (recognize grammar tokens).events =
        positions.map (fun position => .unproduced tokens[position]) ++
          (List.range' 1 tokens.length).map (fun length => .rowFilled length
            (grammar.derivedStarts tokens length).ncard
              (tokens.length - length + 1)) ++
          [.decided grammar.start accepted tokens] ∧
      (recognize grammar tokens).events.map
        (fun event => (event.level, event.text)) =
        positions.map (fun position =>
            (.warn, "No nonterminal produces `" ++ tokens[position] ++ "`")) ++
          (List.range' 1 tokens.length).map (fun length => (.debug,
            "Filled row " ++ toString length ++ " (" ++
              toString (grammar.derivedStarts tokens length).ncard ++ " of " ++
              toString (tokens.length - length + 1) ++ " cells derivable)")) ++
          [(.info, "`" ++ grammar.start ++ "` " ++ said ++ " `" ++
            " ".intercalate tokens ++ "`")] ∧
      positions.Pairwise (· < ·) ∧
      (∀ position, position ∈ positions ↔ ∀ symbol ∈ grammar.nonterminals,
        .terminal tokens[position] ∉ grammar.alternatives symbol) ∧
      (Event.decided grammar.start accepted tokens).text =
        "`" ++ grammar.start ++ "` " ++ said ++ " `" ++ " ".intercalate tokens ++
        "`" ∧
      (said = "derives" ↔ grammar.Derives grammar.start tokens) ∧
      (said = "does not derive" ↔ ¬ grammar.Derives grammar.start tokens) ∧
      ((∃ event ∈ (recognize grammar tokens).events, event.level = .warn) →
        (grammar.derivedStarts tokens tokens.length).ncard = 0 ∧
        said = "does not derive") := by
  have hpositive := List.length_pos_iff.mpr hne
  have haccepted : (ChomskyChart.recognize grammar tokens).accepted = true ↔
      grammar.Derives grammar.start tokens :=
    Chart.accepted_iff_derives hne
  have hrejected : (ChomskyChart.recognize grammar tokens).accepted = false ↔
      ¬ grammar.Derives grammar.start tokens := by
    rw [← haccepted, Bool.not_eq_true]
  have hevents :
      (recognize grammar tokens).events = unproducedEvents grammar tokens ++
      (List.range' 1 tokens.length).map (grammar.spansEvent tokens) ++
      [.decided grammar.start
        (ChomskyChart.recognize grammar tokens).accepted tokens] := by
    rw [recognize_events hne,
      fill_events hobtained hne (Nat.sub_one_lt_of_lt hpositive),
      Nat.sub_add_cancel hpositive]
  refine ⟨unproducedPositions grammar tokens, _, verb _, ?_, ?_,
    increasing_unproducedPositions, fun _ => mem_unproducedPositions hobtained, rfl,
    verb_eq_derives_iff.trans haccepted,
    verb_eq_does_not_derive_iff.trans hrejected, ?_⟩
  · rw [hevents, unproducedEvents_eq]
    rfl
  · rw [hevents, unproducedEvents_eq, List.map_append, List.map_append,
      List.map_map, List.map_map]
    rfl
  · rintro ⟨event, hmem, hwarn⟩
    rw [hevents] at hmem
    obtain ⟨position, hposition⟩ := exists_position_of_warn hmem hwarn
    have hnone := (mem_unproducedPositions hobtained).mp hposition
    have htoken : tokens[position] ∈ tokens := List.getElem_mem position.isLt
    rw [hobtained.derivedStarts_eq_empty htoken hnone, Set.ncard_empty,
      verb_eq_does_not_derive_iff, hrejected]
    exact ⟨rfl, hobtained.not_derives htoken hnone grammar.start⟩

theorem records_truthful_samples :
    Chart.unused.Obtained ∧ ["b", "a", "a", "b"] ≠ [] ∧
      (.unproduced "b" ∈ (recognize Chart.unused ["b", "a", "a", "b"]).events ∧
        (Event.unproduced "b").level = .warn) ∧
      (.debug, "Filled row 2 (1 of 3 cells derivable)") ∈
        (recognize Chart.unused ["b", "a", "a", "b"]).events.map
          (fun event => (event.level, event.text)) ∧
      (Chart.unused.derivedStarts ["b", "a", "a", "b"] 1).ncard = 2 ∧
      (Chart.unused.derivedStarts ["b", "a", "a", "b"] 2).ncard = 1 ∧
      (Chart.unused.derivedStarts ["b", "a", "a", "b"] 4).ncard = 0 ∧
      ¬ Chart.unused.Derives "S" ["b", "a", "a", "b"] := by
  have hread :
      Source.grammarOfText "S\na b\nS\nS a SS\n" = .ok Chart.unused := by decide
  have hvalue : (recognize Chart.unused ["b", "a", "a", "b"]).events =
      [.unproduced "b", .unproduced "b", .rowFilled 1 2 4, .rowFilled 2 1 3,
        .rowFilled 3 0 2, .rowFilled 4 0 1,
        .decided "S" false ["b", "a", "a", "b"]] := by
    decide
  obtain ⟨positions, accepted, said, hevents, _, _, _, _, _, hsaid, hwarned⟩ :=
    records_truthful (.text hread) (by decide : ["b", "a", "a", "b"] ≠ [])
  have hwarning :
      .unproduced "b" ∈ (recognize Chart.unused ["b", "a", "a", "b"]).events := by
    rw [hvalue]
    decide
  obtain ⟨hnone, hrejected⟩ := hwarned ⟨_, hwarning, rfl⟩
  have hrow (length : Nat) (hlength : length ∈ List.range' 1 4) :
      Chart.unused.spansEvent ["b", "a", "a", "b"] length ∈
        (recognize Chart.unused ["b", "a", "a", "b"]).events := by
    rw [hevents]
    exact List.mem_append_left _
      (List.mem_append_right _ (List.mem_map_of_mem hlength))
  rw [hvalue] at hrow
  refine ⟨.text hread, by decide, ⟨hwarning, rfl⟩, ?_, ?_, ?_, hnone,
    hsaid.mp hrejected⟩
  · rw [hvalue]
    decide
  · simpa [Grammar.spansEvent] using hrow 1 (by decide)
  · simpa [Grammar.spansEvent] using hrow 2 (by decide)

end Journal

end ChomskyChart
