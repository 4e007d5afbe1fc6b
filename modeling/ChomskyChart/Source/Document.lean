import ChomskyChart.Source.Rule
import ChomskyChart.Text.Lines

/-!
The lines of a grammar file. The first that are not blank hold the start symbol,
the terminals and the nonterminals, and every other one is a rule. A line that
begins with `;` is a comment, except in the place of the terminals or of the
nonterminals.
-/

namespace ChomskyChart

structure Source.Line where
  number : Nat
  text : List Char
  deriving DecidableEq, Repr

namespace Source.Line

def symbols (line : Line) : List String :=
  Text.symbols line.text

def isBlank (line : Line) : Bool :=
  (Text.trim line.text).isEmpty

def isComment (line : Line) : Bool :=
  (Text.trimStart line.text).head? = some ';'

theorem isBlank_eq (line : Line) :
    line.isBlank = decide (Text.words line.text = []) := by
  rw [isBlank, Bool.eq_iff_iff, List.isEmpty_iff, Text.trim_eq_nil_iff,
    decide_eq_true_iff]

theorem isComment_eq (line : Line) :
    line.isComment =
      decide ((Text.words line.text).head?.bind List.head? = some ';') := by
  rw [isComment, Text.head_words]

theorem isBlank_iff {line : Line} : line.isBlank = true ↔ line.symbols = [] := by
  rw [isBlank_eq, decide_eq_true_iff, symbols, Text.symbols, List.map_eq_nil_iff]

def numbered (texts : List (List Char)) : List Line :=
  (texts.zipIdx 1).map fun entry => ⟨entry.2, entry.1⟩

end Source.Line

structure Document where
  vocabulary : Vocabulary
  rules : List Source.Line
  deriving DecidableEq, Repr

open Source (Line)

def Document.ofLines (lines : List Line) : Except SourceFault Document :=
  match lines.dropWhile Line.isComment with
  | [] => .error .missingStart
  | first :: rest =>
      match first.symbols, rest with
      | [], _ => .error .missingStart
      | _, [] => .error .missingTerminals
      | _, [_] => .error .missingNonterminals
      | start :: _, terminals :: nonterminals :: others =>
          .ok ⟨⟨start, terminals.symbols, nonterminals.symbols⟩,
            others.filter fun line => !line.isComment⟩

/-- What the lines of a file declare, before it is known to be a grammar. -/
structure Draft where
  vocabulary : Vocabulary
  /-- The number of rule lines; a rule of several alternatives is one line. -/
  ruleCount : Nat
  declarations : List Declaration
  deriving DecidableEq, Repr

def Rule.declarations (rule : Rule) (location : Location) : List Declaration :=
  rule.alternatives.map fun rightSide => ⟨rule.symbol, rightSide, location⟩

namespace Document

def lineDeclarations (document : Document) (file : String) (line : Line) :
    Except (Located SourceFault) (List Declaration) :=
  match document.vocabulary.lineRule line.text with
  | .ok rule => .ok (rule.declarations ⟨file, line.number⟩)
  | .error fault => .error ⟨⟨file, line.number⟩, fault⟩

def draft (document : Document) (file : String) :
    Except (List (Located SourceFault)) Draft :=
  match gather (document.rules.map (document.lineDeclarations file)) with
  | .ok declarations =>
      .ok ⟨document.vocabulary, document.rules.length, declarations.flatten⟩
  | .error problems => .error problems

end Document

end ChomskyChart
