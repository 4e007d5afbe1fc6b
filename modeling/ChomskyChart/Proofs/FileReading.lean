import ChomskyChart.Proofs.Encoding
import ChomskyChart.Proofs.Relocation

namespace ChomskyChart

def Location.inFile (file : String) (location : Location) : Location :=
  ⟨file, location.line⟩

def Located.inFile {Fault : Type} (file : String) (problem : Located Fault) :
    Located Fault := ⟨problem.location.inFile file, problem.fault⟩

namespace Source

open Text (encode IsUTF8 byteLines lines)

variable {file : String}

theorem carries_inFile (file : String) :
    Line.Carries id (Location.inFile file) "" file :=
  ⟨fun _ => rfl, fun _ => rfl, rfl⟩

theorem grammarOf_inFile (lines : List Line) :
    grammarOf file lines =
      (grammarOf "" lines).mapError (List.map (Located.inFile file)) := by
  have hmoved := grammarOf_map (carries_inFile file) lines
  rw [List.map_id] at hmoved
  exact hmoved

def undecodedCount (bytes : List UInt8) : Nat :=
  (byteLines bytes).countP fun line => ¬ IsUTF8 line

theorem decodeLine_encode (text : List Char) :
    decodeLine file (encode text) = .ok text := by
  rw [decodeLine, Text.decode?_eq_some_iff_encode.mpr rfl]

theorem decodeLine_eq_error {line : List UInt8} (hline : ¬ IsUTF8 line) :
    decodeLine file line = .error (undecodable file) := by
  rw [decodeLine]
  cases hdecoded : Text.decode? line with
  | none => rfl
  | some text =>
      exact absurd ⟨text, Text.decode?_eq_some_iff_encode.mp hdecoded⟩ hline

theorem filterMap_decodeLine (texts : List (List UInt8)) :
    (texts.map (decodeLine file)).filterMap failure? =
      List.replicate (texts.countP fun line => ¬ IsUTF8 line)
        (undecodable file) := by
  induction texts with
  | nil => rfl
  | cons line rest ih =>
      by_cases hline : IsUTF8 line
      · rw [List.countP_cons_of_neg (by simpa using hline), ← ih]
        obtain ⟨text, rfl⟩ := hline
        rw [List.map_cons, decodeLine_encode]
        rfl
      · rw [List.countP_cons_of_pos (by simpa using hline), List.replicate_succ,
          ← ih, List.map_cons, decodeLine_eq_error hline]
        rfl

theorem fileLines_encode (text : String) :
    fileLines file (encode text.toList) = textLines text := by
  have hread : (byteLines (encode text.toList)).map (decodeLine file) =
      (lines text.toList).map .ok := by
    rw [Text.byteLines_encode, List.map_map]
    exact List.map_congr_left fun line _ => decodeLine_encode line
  rw [fileLines, hread, numberedResults_ok, textLines, numberedResults_ok]
  apply List.filter_congr
  intro result hresult
  obtain ⟨line, _, rfl⟩ := List.mem_map.mp hresult
  simp [Line.isFailed]

theorem draftOfFile_encode (text : String) :
    draftOfFile file (.ok (encode text.toList)) =
      draftOf file (Line.ofText text) := by
  rw [draftOfFile, fileLines_encode, draftOfLines, textLines_eq,
    gather_eq_ok_iff.mpr rfl]
  rfl

theorem grammarOfFile_encode (text : String) :
    grammarOfFile file (.ok (encode text.toList)) =
      (grammarOfText text).mapError (List.map (Located.inFile file)) := by
  rw [grammarOfFile, draftOfFile_encode, grammarOfText_eq]
  exact grammarOf_inFile (Line.ofText text)

theorem undecodedCount_pos {bytes : List UInt8} (hbytes : ¬ IsUTF8 bytes) :
    0 < undecodedCount bytes := by
  apply Nat.pos_of_ne_zero
  intro hzero
  apply hbytes
  apply Text.isUTF8_iff_forall_byteLines.mpr
  simpa using List.countP_eq_zero.mp hzero

theorem grammarOfFile_eq_error {bytes : List UInt8} (hbytes : ¬ IsUTF8 bytes) :
    grammarOfFile file (.ok bytes) =
      .error (List.replicate (undecodedCount bytes) (undecodable file)) := by
  have hgathered : gather ((byteLines bytes).map (decodeLine file)) =
      .error (List.replicate (undecodedCount bytes) (undecodable file)) := by
    apply gather_eq_error_iff.mpr
    refine ⟨?_, filterMap_decodeLine (byteLines bytes)⟩
    intro hnil
    exact Nat.ne_of_gt (undecodedCount_pos hbytes)
      ((List.replicate_eq_nil_iff _).mp hnil)
  rw [grammarOfFile, draftOfFile_eq, hgathered]
  rfl

theorem toUTF8_eq_encode (text : String) :
    text.toUTF8.data.toList = encode text.toList := by
  rw [← Text.utf8Encode_eq, String.utf8Encode_toList]
  rfl

/-- A file is read as the text that its bytes encode. If they encode none, the
file has one problem for each line that encodes none, and no other. -/
theorem file_agrees (file : String) (bytes : List UInt8) :
    (∀ text : String, text.toUTF8.data.toList = bytes →
      grammarOfFile file (.ok bytes) =
        (grammarOfText text).mapError (List.map (Located.inFile file))) ∧
    ((∀ text : String, text.toUTF8.data.toList ≠ bytes) →
      0 < undecodedCount bytes ∧ grammarOfFile file (.ok bytes) =
        .error (List.replicate (undecodedCount bytes) (undecodable file))) := by
  apply And.intro
  · intro text htext
    rw [← htext, toUTF8_eq_encode]
    exact grammarOfFile_encode text
  · intro hnone
    have hbytes : ¬ IsUTF8 bytes := by
      intro hencodes
      obtain ⟨text, htext⟩ := hencodes
      apply hnone (String.ofList text)
      rw [toUTF8_eq_encode, String.toList_ofList, htext]
    exact ⟨undecodedCount_pos hbytes, grammarOfFile_eq_error hbytes⟩

theorem file_agrees_samples :
    (∃ text bytes, text = "S\r\nx é\r\nS\n\nS é x\r\nS y" ∧
      text.toUTF8.data.toList = bytes ∧
      grammarOfFile "g.cnf" (.ok bytes) =
        .error [⟨⟨"g.cnf", 6⟩, .grammar (.undefinedTerminal "y")⟩]) ∧
    (∃ bytes, bytes = [83, 255, 13, 10, 10, 97, 10, 195] ∧
      (∀ text : String, text.toUTF8.data.toList ≠ bytes) ∧
      grammarOfFile "g.cnf" (.ok bytes) =
        .error [undecodable "g.cnf", undecodable "g.cnf"]) := by
  have hread : grammarOfText "S\r\nx é\r\nS\n\nS é x\r\nS y" =
      .error [⟨⟨"", 6⟩, .grammar (.undefinedTerminal "y")⟩] :=
    rfl
  have hcount : undecodedCount [83, 255, 13, 10, 10, 97, 10, 195] = 2 := by
    decide
  have hnone : ∀ text : String,
      text.toUTF8.data.toList ≠ [83, 255, 13, 10, 10, 97, 10, 195] := by
    intro text htext
    rw [toUTF8_eq_encode] at htext
    exact absurd ⟨text.toList, htext.symm⟩
      (by decide : ¬ IsUTF8 [83, 255, 13, 10, 10, 97, 10, 195])
  refine ⟨⟨_, _, rfl, rfl, ?_⟩, ⟨_, rfl, hnone, ?_⟩⟩
  · rw [(file_agrees "g.cnf" _).1 _ rfl, hread]
    rfl
  · rw [((file_agrees "g.cnf" _).2 hnone).2, hcount]
    rfl

end Source

end ChomskyChart
