import ChomskyChart.Word

namespace ChomskyChart

structure Arguments where
  file : String
  words : List String
  tokens : Bool
  quiet : Bool
  start : Option String
  words_ne_nil : words ≠ []
  deriving DecidableEq, Repr

namespace Arguments

def mode (arguments : Arguments) : TokenMode :=
  if arguments.tokens || arguments.words.length > 1 then .words else .characters

def word (arguments : Arguments) : String :=
  " ".intercalate arguments.words

inductive Misuse where
  | missingArgument
  | invalidValue
  | repeatedOption
  | unwantedValue
  | unknownOption
  deriving DecidableEq, Repr

inductive Refusal where
  | help
  | version
  | misuse (misuse : Misuse)
  deriving DecidableEq, Repr

inductive Flag where
  | tokens
  | quiet
  | help
  | version
  deriving DecidableEq, Repr

namespace Flag

def ofLetter? : Char → Option Flag
  | 't' => some tokens
  | 'q' => some quiet
  | 'h' => some help
  | 'V' => some version
  | _ => none

def ofName? : String → Option Flag
  | "tokens" => some tokens
  | "quiet" => some quiet
  | "help" => some help
  | "version" => some version
  | _ => none

end Flag

inductive Form where
  | endOfOptions
  | long (name : String) (value : Option String)
  | short (letters : List Char)
  | plain
  deriving DecidableEq, Repr

/-- A long option has its value after the first `=`; a single `-` is plain. -/
def Form.ofText (text : String) : Form :=
  match text.toList with
  | ['-', '-'] => .endOfOptions
  | '-' :: '-' :: rest =>
      .long (.ofList (rest.takeWhile (· ≠ '=')))
        ((rest.dropWhile (· ≠ '=')).tail?.map String.ofList)
  | '-' :: letter :: letters => .short (letter :: letters)
  | _ => .plain

/-- What was given last and is not checked yet. -/
inductive Pending where
  | nothing
  | file (name : String)
  | start (value : Option String)
  deriving DecidableEq, Repr

structure Progress where
  file : Option String := none
  words : List String := []
  tokens : Bool := false
  quiet : Bool := false
  start : Option String := none
  pending : Pending := .nothing
  deriving DecidableEq, Repr

namespace Progress

def setStart (progress : Progress) (value : String) : Except Refusal Progress :=
  if progress.start.isSome then .error (.misuse .repeatedOption)
  else .ok { progress with start := some value, pending := .nothing }

def settle (progress : Progress) : Except Refusal Progress :=
  match progress.pending with
  | .nothing => .ok progress
  | .file name =>
      if name = "" then .error (.misuse .invalidValue)
      else .ok { progress with file := some name, pending := .nothing }
  | .start none => .error (.misuse .invalidValue)
  | .start (some value) => progress.setStart value

def takeFlag (progress : Progress) (flag : Flag) : Except Refusal Progress := do
  let progress ← progress.settle
  match flag with
  | .help => throw .help
  | .version => throw .version
  | .tokens =>
      if progress.tokens then throw (.misuse .repeatedOption)
      return { progress with tokens := true }
  | .quiet =>
      if progress.quiet then throw (.misuse .repeatedOption)
      return { progress with quiet := true }

def takeStart (progress : Progress) : Option String → Except Refusal Progress
  | some value => do (← progress.settle).setStart value
  | none => do return { ← progress.settle with pending := .start none }

/-- The value written right after the letter of an option, with or without a `=`
before it. -/
def attachedValue : List Char → Option String
  | [] => none
  | '=' :: value => some (.ofList value)
  | value => some (.ofList value)

def takeLetters (progress : Progress) : List Char → Except Refusal Progress
  | [] => .ok progress
  | 's' :: rest => progress.takeStart (attachedValue rest)
  | letter :: rest =>
      match Flag.ofLetter? letter with
      | some flag => do (← progress.takeFlag flag).takeLetters rest
      | none => .error (.misuse .unknownOption)

def takeLong (progress : Progress) (name : String) (value : Option String) :
    Except Refusal Progress :=
  if name = "start" then progress.takeStart value
  else
    match Flag.ofName? name, value with
    | some flag, none => progress.takeFlag flag
    | some _, some _ => .error (.misuse .unwantedValue)
    | none, _ => .error (.misuse .unknownOption)

def takePositional (progress : Progress) (text : String) :
    Except Refusal Progress := do
  let progress ← progress.settle
  if progress.file.isNone then return { progress with pending := .file text }
  return { progress with words := progress.words ++ [text] }

def takePlain (progress : Progress) (text : String) : Except Refusal Progress :=
  match progress.pending with
  | .start none => .ok { progress with pending := .start (some text) }
  | _ => progress.takePositional text

def takeAll (progress : Progress) : List String → Except Refusal Progress
  | [] => .ok progress
  | text :: rest =>
      match Form.ofText text with
      | .endOfOptions => rest.foldlM takePositional progress
      | .long name value => do (← progress.takeLong name value).takeAll rest
      | .short letters => do (← progress.takeLetters letters).takeAll rest
      | .plain => do (← progress.takePlain text).takeAll rest

def finish (progress : Progress) : Except Refusal Arguments := do
  let ⟨some file, word :: words, tokens, quiet, start, _⟩ ← progress.settle
    | throw (.misuse .missingArgument)
  return ⟨file, word :: words, tokens, quiet, start, List.cons_ne_nil word words⟩

end Progress

def ofTexts (texts : List String) : Except Refusal Arguments := do
  (← Progress.takeAll {} texts).finish

example : (ofTexts ["g.cnf", "-tsNP", "the dog"]).toOption.map (·.start) =
    some (some "NP") := by
  decide

example : ofTexts ["-s", "--", "S", "a"] = .error (.misuse .invalidValue) := rfl

end Arguments

end ChomskyChart
