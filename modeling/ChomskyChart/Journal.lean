import ChomskyChart.Chart
import ChomskyChart.Event
import ChomskyChart.Source.Reading

namespace ChomskyChart.Journal

def strayEvents (grammar : Grammar) : List Event :=
  grammar.strayEmpty.map .strayEmpty

def warnings {ε : Type} : Except ε Grammar → List Event
  | .ok grammar => strayEvents grammar
  | .error _ => []

def buildEvents (vocabulary : Vocabulary)
    (declarations : List Declaration) : List Event :=
  (vocabulary.distinct.productionsOf declarations).map .productionAdded ++
    warnings (Grammar.build vocabulary declarations)

def build (vocabulary : Vocabulary) (declarations : List Declaration) :
    Logged (Except (List (Located GrammarFault)) Grammar) :=
  ⟨Grammar.build vocabulary declarations, buildEvents vocabulary declarations⟩

def withStart (grammar : Grammar) (start : String) :
    Logged (Except (List (Located GrammarFault)) Grammar) :=
  ⟨grammar.withStart start, warnings (grammar.withStart start)⟩

def draftEvents : Except (List (Located SourceFault)) Draft → List Event
  | .ok draft =>
      .draftRead draft.ruleCount draft.vocabulary.terminals.length
          draft.vocabulary.nonterminals.length ::
        buildEvents draft.vocabulary draft.declarations
  | .error _ => []

def grammarOfText (text : String) :
    Logged (Except (List (Located SourceFault)) Grammar) :=
  ⟨Source.grammarOfText text, draftEvents (Source.draftOfText text)⟩

def grammarOfFile (file : String) (contents : Except FileFailure (List UInt8)) :
    Logged (Except (List (Located SourceFault)) Grammar) :=
  ⟨Source.grammarOfFile file contents,
    draftEvents (Source.draftOfFile file contents)⟩

def rowEvent (length : Nat) (row : List Cell) : Event :=
  .rowFilled length (row.countP fun cell => !cell.isEmpty) row.length

def firstRow (grammar : Grammar) : List String → Logged (List Cell)
  | [] => ⟨[], []⟩
  | token :: rest =>
      let producers := grammar.producersOfTerminal token
      let others := firstRow grammar rest
      ⟨producers :: others.value,
        (if producers.isEmpty then [.unproduced token] else []) ++
          others.events⟩

/-- The chart row by row, with the record of each row as soon as it is there. -/
def fill (grammar : Grammar) (tokens : List String) : Nat → Logged Chart
  | 0 =>
      let row := firstRow grammar tokens
      ⟨⟨tokens, [row.value]⟩, row.events ++ [rowEvent 1 row.value]⟩
  | count + 1 =>
      let filled := fill grammar tokens count
      let row := filled.value.deriveRow grammar (count + 2)
      ⟨{ filled.value with rows := filled.value.rows ++ [row] },
        filled.events ++ [rowEvent (count + 2) row]⟩

def chart (grammar : Grammar) (tokens : List String) : Logged (Option Chart) :=
  if tokens = [] then ⟨none, []⟩
  else
    let filled := fill grammar tokens (tokens.length - 1)
    ⟨some filled.value, filled.events⟩

def accepts (grammar : Grammar) : Option Chart → Logged Bool
  | none => ⟨grammar.derivesEmpty, [.emptyInput grammar.start]⟩
  | some chart => ⟨chart.accepts grammar.start, []⟩

def recognize (grammar : Grammar) (tokens : List String) : Logged Recognition :=
  let chart := chart grammar tokens
  let accepted := accepts grammar chart.value
  ⟨⟨chart.value, accepted.value⟩,
    chart.events ++ accepted.events ++
      [.decided grammar.start accepted.value tokens]⟩

@[simp] theorem value_firstRow (grammar : Grammar) (tokens : List String) :
    (firstRow grammar tokens).value = Chart.firstRow grammar tokens := by
  induction tokens with
  | nil => rfl
  | cons token rest ih =>
      rw [firstRow, ih, Chart.firstRow, Chart.firstRow, List.map_cons]

@[simp] theorem value_fill (grammar : Grammar) (tokens : List String)
    (count : Nat) :
    (fill grammar tokens count).value = Chart.fill grammar tokens count := by
  induction count with
  | zero => rw [fill, value_firstRow, Chart.fill]
  | succ count ih => rw [fill, ih, Chart.fill]

theorem value_chart (grammar : Grammar) (tokens : List String) :
    (chart grammar tokens).value = Chart.build grammar tokens := by
  rw [chart, Chart.build]
  split
  · rfl
  · exact congrArg some (value_fill grammar tokens (tokens.length - 1))

theorem value_recognize (grammar : Grammar) (tokens : List String) :
    (recognize grammar tokens).value = ChomskyChart.recognize grammar tokens := by
  rw [recognize, value_chart, ChomskyChart.recognize]
  cases Chart.build grammar tokens with
  | none => rfl
  | some chart => rfl

end ChomskyChart.Journal
