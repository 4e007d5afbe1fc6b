import ChomskyChart.CommandLine.Arguments
import ChomskyChart.CommandLine.Logger
import ChomskyChart.Journal
import ChomskyChart.Layout.Report

namespace ChomskyChart

/-- A part of the diagnostic output: a line, or a record that the logger gets. -/
inductive Diagnostic where
  | message (text : String)
  | record (event : Event)
  deriving DecidableEq, Repr

structure Outcome where
  exitCode : Nat
  output : String
  diagnostics : List Diagnostic
  deriving DecidableEq, Repr

def Diagnostic.written (logger : Logger) (place : Nat) : Diagnostic → String
  | message text => text ++ "\n"
  | record event => logger place event

def Outcome.diagnosticText (outcome : Outcome) (logger : Logger) : String :=
  String.join (outcome.diagnostics.mapIdx (Diagnostic.written logger))

def Outcome.failed {Fault : Type} [ToString Fault] (problems : List (Located Fault))
    (before after : List Event) : Outcome where
  exitCode := 1
  output := ""
  diagnostics :=
    before.map .record ++ problems.map (fun problem => .message problem.display) ++
      after.map .record

namespace Arguments

def started (arguments : Arguments) (grammar : Grammar) :
    Logged (Except (List (Located GrammarFault)) Grammar) :=
  match arguments.start with
  | some start => Journal.withStart grammar start
  | none => ⟨.ok grammar, []⟩

def tested (arguments : Arguments) (grammar : Grammar)
    (before : List Event) : Outcome :=
  let tokens := arguments.mode.tokenize arguments.word
  let recognition := Journal.recognize grammar tokens
  { exitCode := 0
    output :=
      Layout.report grammar recognition.value tokens arguments.mode arguments.quiet
    diagnostics := (before ++ recognition.events).map .record }

def run (arguments : Arguments) (contents : Except FileFailure (List UInt8)) :
    Outcome :=
  let reading := Journal.grammarOfFile arguments.file contents
  match reading.value with
  | .error problems => .failed problems reading.events [.unreadable arguments.file]
  | .ok grammar =>
      let start := arguments.started grammar
      match start.value with
      | .error problems => .failed problems (reading.events ++ start.events) []
      | .ok grammar => arguments.tested grammar (reading.events ++ start.events)

def usage : String := "Usage: cyk [OPTIONS] <FILE> <WORD>..."

def helpText : String :=
  Text.unlines
    [usage,
      "",
      "Arguments:",
      "  <FILE>     File containing the grammar in Chomsky Normal Form",
      "  <WORD>...  Word to test (`eps` for the empty word). Several words are read as tokens",
      "",
      "Options:",
      "  -t, --tokens          Split the word on whitespace instead of into characters",
      "  -s, --start <SYMBOL>  Start symbol (default: the one declared in the file)",
      "  -q, --quiet           Only print the verdict",
      "  -h, --help            Print help",
      "  -V, --version         Print version"]

def Misuse.message : Misuse → String
  | missingArgument => "error: a file and a word are required"
  | invalidValue => "error: a value is missing"
  | repeatedOption => "error: an option is given twice"
  | unwantedValue => "error: an option takes no value"
  | unknownOption => "error: unknown option"

def versionText : String := "cyk 0.1.0\n"

def Refusal.outcome : Refusal → Outcome
  | help => ⟨0, helpText, []⟩
  | version => ⟨0, versionText, []⟩
  | misuse found => ⟨2, "", [.message found.message, .message "", .message usage]⟩

end Arguments

end ChomskyChart
