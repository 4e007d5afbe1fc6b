import ChomskyChart.CommandLine.Run

/-!
The program: reads the grammar file that its arguments name and tests the word
against it. The variable `RUST_LOG` holds the least level of the records that
are shown.
-/

namespace ChomskyChart

def levelNamed (name : String) : Option Level :=
  match name.toLower with
  | "off" => none
  | "warn" => some .warn
  | "info" => some .info
  | "debug" | "trace" => some .debug
  | _ => some .error

def FileFailure.ofError : IO.Error → FileFailure
  | .noFileOrDirectory .. => missing
  | .permissionDenied _ code details =>
      ⟨.permissionDenied, details ++ " (os error " ++ toString code ++ ")"⟩
  | failure => ⟨.other, toString failure⟩

def contentsOf (file : String) : IO (Except FileFailure (List UInt8)) := do
  try
    return .ok (← IO.FS.readBinFile file).toList
  catch failure =>
    return .error (.ofError failure)

def finish (outcome : Outcome) (logger : Logger) : IO UInt32 := do
  IO.eprint (outcome.diagnosticText logger)
  IO.print outcome.output
  return outcome.exitCode.toUInt32

end ChomskyChart

open ChomskyChart in
def main (texts : List String) : IO UInt32 := do
  let level := levelNamed ((← IO.getEnv "RUST_LOG").getD "error")
  let logger := Logger.leveled level fun _ => ""
  match Arguments.ofTexts texts with
  | .error refusal => finish refusal.outcome logger
  | .ok arguments =>
      finish (arguments.run (← contentsOf arguments.file)) logger
