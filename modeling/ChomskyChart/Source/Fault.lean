import ChomskyChart.Grammar.Vocabulary

namespace ChomskyChart

inductive FileFailure.Cause where
  | notFound
  | permissionDenied
  | invalidData
  | other
  deriving DecidableEq, Repr

/-- Why a file could not be read, with the wording of the system. -/
structure FileFailure where
  cause : FileFailure.Cause
  text : String
  deriving DecidableEq, Repr

namespace FileFailure

def missing : FileFailure := ⟨.notFound, "No such file or directory (os error 2)"⟩

def undecodable : FileFailure :=
  ⟨.invalidData, "stream did not contain valid UTF-8"⟩

end FileFailure

inductive SourceFault where
  | missingStart
  | missingTerminals
  | missingNonterminals
  | missingLeftSide
  | missingAlternatives
  | unexpectedArrow
  | emptyAlternative
  | malformedPair (word : String)
  | ambiguousPair (word : String)
  | grammar (fault : GrammarFault)
  /-- A line without words where a rule was expected; blank lines never get that
  far. -/
  | unexpectedBlankLine
  | file (failure : FileFailure)
  deriving DecidableEq, Repr

namespace SourceFault

def message : SourceFault → String
  | missingStart => "Expected a start symbol line"
  | missingTerminals => "Expected a line of terminals after the start symbol"
  | missingNonterminals => "Expected a line of nonterminals after the terminals"
  | missingLeftSide => "Expected a nonterminal at the start of the rule"
  | missingAlternatives => "Rule has no alternatives"
  | unexpectedArrow => "Unexpected `->` encountered"
  | emptyAlternative => "Empty alternative next to `|`"
  | malformedPair word => "`" ++ word ++ "` must name exactly two nonterminals"
  | ambiguousPair word =>
      "`" ++ word ++
        "` splits into two nonterminals in more than one way; separate them with `,`"
  | grammar fault => fault.message
  | unexpectedBlankLine =>
      "Blank line encountered in rule parser (this is a problem with the parser, not the grammar)"
  | file failure => "File error: " ++ failure.text

instance : ToString SourceFault := ⟨message⟩

/-- Whether two faults are of one kind and name the same words. File failures
are compared by their causes alone. -/
def agrees : SourceFault → SourceFault → Bool
  | file first, file second => first.cause == second.cause
  | first, second => first == second

end SourceFault

def Located.agrees (first second : Located SourceFault) : Bool :=
  first.location.agrees second.location && first.fault.agrees second.fault

end ChomskyChart
