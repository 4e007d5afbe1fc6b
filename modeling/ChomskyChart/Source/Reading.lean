import ChomskyChart.Grammar.Basic
import ChomskyChart.Source.Document

/-!
Grammars read from a text or from the bytes of a file. The stages are the lines,
the document, the draft and the grammar, and the problems of one stage are
reported only if the earlier stages had none.
-/

namespace ChomskyChart

open Source (Line)

def Located.ofGrammar (problem : Located GrammarFault) : Located SourceFault :=
  ⟨problem.location, .grammar problem.fault⟩

/-- The grammar of a draft. What is wrong with the header has no line of its
own. -/
def Draft.grammar (draft : Draft) (file : String) :
    Except (List (Located SourceFault)) Grammar :=
  (Grammar.build draft.vocabulary draft.declarations ⟨file, 0⟩).mapError
    (·.map Located.ofGrammar)

namespace Source

section Lines

variable {ε : Type}

def Line.numberedResults (results : List (Except ε (List Char))) :
    List (Except ε Line) :=
  (results.zipIdx 1).map fun entry => entry.1.map (Line.mk entry.2)

def Line.isWritten : Except ε Line → Bool
  | .ok line => !line.isBlank
  | .error _ => false

def Line.isFailed : Except ε Line → Bool
  | .ok _ => false
  | .error _ => true

end Lines

def undecodable (file : String) : Located SourceFault :=
  ⟨⟨file, 0⟩, .file .undecodable⟩

def decodeLine (file : String) (line : List UInt8) :
    Except (Located SourceFault) (List Char) :=
  match Text.decode? line with
  | some text => .ok text
  | none => .error (undecodable file)

def textLines (text : String) : List (Except (Located SourceFault) Line) :=
  (Line.numberedResults ((Text.lines text.toList).map .ok)).filter Line.isWritten

/-- The lines of a file. Blank ones are left out, and those that are not UTF-8
are kept as what is wrong with them. -/
def fileLines (file : String) (bytes : List UInt8) :
    List (Except (Located SourceFault) Line) :=
  (Line.numberedResults ((Text.byteLines bytes).map (decodeLine file))).filter
    fun result => Line.isWritten result || Line.isFailed result

/-- What the lines of a file declare. Lines that could not be read hide all
other problems. -/
def draftOfLines (file : String)
    (results : List (Except (Located SourceFault) Line)) :
    Except (List (Located SourceFault)) Draft := do
  match Document.ofLines (← gather results) with
  | .ok document => document.draft file
  | .error fault => .error [⟨⟨file, 0⟩, fault⟩]

def draftOfText (text : String) : Except (List (Located SourceFault)) Draft :=
  draftOfLines "" (textLines text)

def draftOfFile (file : String) :
    Except FileFailure (List UInt8) → Except (List (Located SourceFault)) Draft
  | .ok bytes => draftOfLines file (fileLines file bytes)
  | .error failure => .error [⟨⟨file, 0⟩, .file failure⟩]

def grammarOfText (text : String) :
    Except (List (Located SourceFault)) Grammar := do
  (← draftOfText text).grammar ""

def grammarOfFile (file : String) (contents : Except FileFailure (List UInt8)) :
    Except (List (Located SourceFault)) Grammar := do
  (← draftOfFile file contents).grammar file

section Pipelines

variable {ε : Type}

def written (lines : List Line) : List Line :=
  lines.filter fun line => !line.isBlank

theorem numberedResults_ok (texts : List (List Char)) :
    Line.numberedResults
      (texts.map (Except.ok : List Char → Except ε (List Char))) =
      (Line.numbered texts).map .ok := by
  rw [Line.numberedResults, List.zipIdx_map, List.map_map, Line.numbered,
    List.map_map]
  rfl

theorem textLines_eq (text : String) :
    textLines text =
      (written (Line.numbered (Text.lines text.toList))).map .ok := by
  rw [textLines, numberedResults_ok, List.filter_map, written]
  rfl

/-- The blank lines go, and no failure does. -/
theorem gather_numberedResults (results : List (Except ε (List Char))) :
    gather ((Line.numberedResults results).filter fun result =>
        Line.isWritten result || Line.isFailed result) =
      (gather results).map fun texts => written (Line.numbered texts) := by
  cases hgathered : gather results with
  | ok texts =>
      rw [gather_eq_ok_iff] at hgathered
      rw [hgathered, numberedResults_ok, List.filter_map]
      apply gather_eq_ok_iff.mpr
      simp [written, Function.comp_def, Line.isWritten, Line.isFailed]
  | error failures =>
      obtain ⟨hne, hfailures⟩ := gather_eq_error_iff.mp hgathered
      apply gather_eq_error_iff.mpr
      refine ⟨hne, ?_⟩
      have hkept : (fun result : Except ε Line =>
          if Line.isWritten result || Line.isFailed result then failure? result
            else none) ∘ (fun entry => entry.1.map (Line.mk entry.2)) =
          failure? ∘ Prod.fst := by
        funext ⟨result, number⟩
        cases result with
        | ok text => simp [Except.map, Line.isFailed, failure?]
        | error failure => rfl
      rw [List.filterMap_filter, Line.numberedResults, List.filterMap_map, hkept,
        ← List.filterMap_map, List.zipIdx_map_fst, hfailures]

end Pipelines

def draftOf (file : String) (lines : List Line) :
    Except (List (Located SourceFault)) Draft :=
  match Document.ofLines (written lines) with
  | .ok document => document.draft file
  | .error fault => .error [⟨⟨file, 0⟩, fault⟩]

theorem draftOfText_eq (text : String) :
    draftOfText text = draftOf "" (Line.numbered (Text.lines text.toList)) := by
  rw [draftOfText, draftOfLines, textLines_eq, gather_eq_ok_iff.mpr rfl]
  rfl

theorem draftOfFile_eq (file : String) (bytes : List UInt8) :
    draftOfFile file (.ok bytes) =
      gather ((Text.byteLines bytes).map (decodeLine file)) >>= fun texts =>
        draftOf file (Line.numbered texts) := by
  rw [draftOfFile, draftOfLines, fileLines, gather_numberedResults]
  cases gather ((Text.byteLines bytes).map (decodeLine file)) with
  | ok texts => rfl
  | error problems => rfl

end Source

end ChomskyChart
