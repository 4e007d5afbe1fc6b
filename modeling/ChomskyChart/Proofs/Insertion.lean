import ChomskyChart.Proofs.Relocation

namespace ChomskyChart

namespace Text

def Closed (text : List Char) : Prop :=
  text = [] ∨ text.getLast? = some '\n'

def endings : List (List Char) :=
  [['\n'], ['\r', '\n']]

/-- The second text is the first with one more line. The boundary is how many
lines of the first stand above it. -/
inductive Inserts (line : List Char) : List Char → List Char → Nat → Prop where
  | between {front ending : List Char} (rest : List Char) (hclosed : Closed front)
      (hending : ending ∈ endings) :
      Inserts line (front ++ rest) (front ++ (line ++ ending ++ rest))
        (lines front).length
  | behind {text feed ending : List Char} (hopen : ¬ Closed text)
      (hfeed : feed ∈ endings) (hending : ending ∈ endings) :
      Inserts line text (text ++ feed ++ (line ++ ending)) (lines text).length
  | unended {first second ending : List Char} {boundary : Nat}
      (hopen : ¬ Closed second) (hending : ending ∈ endings)
      (hended : Inserts line first (second ++ ending) boundary) :
      Inserts line first second boundary

theorem words_withoutReturn (line : List Char) :
    words (withoutReturn '\r' line) = words line := by
  unfold withoutReturn
  split
  · rename_i hlast
    obtain ⟨front, rfl⟩ := List.getLast?_eq_some_iff.mp hlast
    rw [List.dropLast_concat, words_append_blank (by decide), words_nil,
      List.append_nil]
  · rfl

theorem lines_append_feed (front rest : List Char) :
    lines (front ++ '\n' :: rest) =
      (front.splitOn '\n').map (withoutReturn '\r') ++ lines rest := by
  have hsplit : (front ++ '\n' :: rest).splitOn '\n' =
      front.splitOn '\n' ++ rest.splitOn '\n' :=
    List.splitOnP_append_cons front rest (by decide)
  have hne := List.splitOn_ne_nil '\n' rest
  rw [lines, linesAt, hsplit, List.dropLast_append_of_ne_nil hne,
    List.getLast?_append, List.getLast?_eq_some_getLast hne, Option.some_or,
    List.map_append, List.append_assoc, lines, linesAt,
    List.getLast?_eq_some_getLast hne]

theorem lines_nil : lines [] = [] :=
  linesAt_nil _ _

theorem Closed.lines_append {front : List Char} (hclosed : Closed front)
    (rest : List Char) :
    lines (front ++ rest) = lines front ++ lines rest := by
  rcases hclosed with rfl | hlast
  · rw [lines_nil, List.nil_append, List.nil_append]
  · obtain ⟨above, rfl⟩ := List.getLast?_eq_some_iff.mp hlast
    rw [List.append_assoc, List.singleton_append, lines_append_feed,
      lines_append_feed, lines_nil, List.append_nil]

theorem words_lines_cons {line ending : List Char} (hline : '\n' ∉ line)
    (hending : ending ∈ endings) (rest : List Char) :
    (lines (line ++ ending ++ rest)).map words =
      words line :: (lines rest).map words := by
  have hfeed {ended : List Char} (hended : '\n' ∉ ended) :
      (lines (ended ++ '\n' :: rest)).map words =
        words ended :: (lines rest).map words := by
    rw [lines_append_feed, List.splitOn_eq_singleton hended, List.map_append,
      List.map_singleton, List.map_singleton, words_withoutReturn,
      List.singleton_append]
  rw [endings, List.mem_cons, List.mem_singleton] at hending
  rcases hending with rfl | rfl
  · rw [List.append_assoc, List.singleton_append, hfeed hline]
  · have hreturn : '\n' ∉ line ++ ['\r'] := by
      simpa using hline
    rw [List.append_cons, List.append_assoc, List.singleton_append, hfeed hreturn,
      words_append_blank (by decide), words_nil, List.append_nil]

theorem words_lines_ended {line ending : List Char} (hline : '\n' ∉ line)
    (hending : ending ∈ endings) :
    (lines (line ++ ending)).map words = [words line] := by
  have hended := words_lines_cons hline hending []
  rw [List.append_nil, lines_nil, List.map_nil] at hended
  exact hended

theorem closed_append {ending : List Char} (hending : ending ∈ endings)
    (text : List Char) :
    Closed (text ++ ending) := by
  rw [endings, List.mem_cons, List.mem_singleton] at hending
  rcases hending with rfl | rfl
  · exact .inr List.getLast?_concat
  · rw [List.append_cons]
    exact .inr List.getLast?_concat

theorem lines_singleton {line : List Char} (hne : line ≠ []) (hline : '\n' ∉ line) :
    lines line = [line] := by
  rw [lines, linesAt, List.splitOn_eq_singleton hline]
  simp [hne]

theorem exists_lastLine (text : List Char) :
    ∃ above line, text = above ++ line ∧ Closed above ∧ '\n' ∉ line := by
  induction text using List.reverseRecOn with
  | nil => exact ⟨[], [], rfl, .inl rfl, List.not_mem_nil⟩
  | append_singleton text c ih =>
      by_cases hfeed : c = '\n'
      · refine ⟨text ++ [c], [], (List.append_nil _).symm, .inr ?_,
          List.not_mem_nil⟩
        rw [List.getLast?_concat, hfeed]
      · obtain ⟨above, line, rfl, hclosed, hline⟩ := ih
        refine ⟨above, line ++ [c], List.append_assoc _ _ _, hclosed, ?_⟩
        rw [List.mem_append, List.mem_singleton]
        exact not_or.mpr ⟨hline, Ne.symm hfeed⟩

/-- An ending at the end of a text ends its last line and begins no other. -/
theorem words_lines_append {text ending : List Char} (hopen : ¬ Closed text)
    (hending : ending ∈ endings) :
    (lines (text ++ ending)).map words = (lines text).map words := by
  obtain ⟨above, line, rfl, hclosed, hline⟩ := exists_lastLine text
  have hne : line ≠ [] := by
    rintro rfl
    rw [List.append_nil] at hopen
    exact hopen hclosed
  rw [List.append_assoc, hclosed.lines_append, hclosed.lines_append,
    List.map_append, List.map_append, words_lines_ended hline hending,
    lines_singleton hne hline, List.map_singleton]

theorem Inserts.lines {line first second : List Char} {boundary : Nat}
    (hline : '\n' ∉ line) (hinserts : Inserts line first second boundary) :
    ∃ above below, Text.lines first = above ++ below ∧ above.length = boundary ∧
      (Text.lines second).map words = (above ++ line :: below).map words := by
  induction hinserts with
  | between rest hclosed hending =>
      refine ⟨_, _, hclosed.lines_append rest, rfl, ?_⟩
      rw [hclosed.lines_append, List.map_append, words_lines_cons hline hending,
        List.map_append, List.map_cons]
  | behind hopen hfeed hending =>
      refine ⟨_, [], (List.append_nil _).symm, rfl, ?_⟩
      rw [(closed_append hfeed _).lines_append, List.map_append,
        words_lines_append hopen hfeed, words_lines_ended hline hending,
        List.map_append, List.map_singleton]
  | unended hopen hending _ ih =>
      obtain ⟨above, below, hfirst, hlength, hsecond⟩ := ih
      exact ⟨above, below, hfirst, hlength,
        (words_lines_append hopen hending).symm.trans hsecond⟩

end Text

/-- The number of a line when there is one line more behind the boundary. Line 0
stays, as it lies behind none. -/
def raiseBehind (boundary number : Nat) : Nat :=
  if boundary < number then number + 1 else number

def Location.raised (boundary : Nat) (location : Location) : Location :=
  { location with line := raiseBehind boundary location.line }

namespace Source

open Text (words respaced isBlank)

namespace Line

def raised (boundary : Nat) (line : Line) : Line :=
  { line with number := raiseBehind boundary line.number }

def respace (line : Line) : Line :=
  { line with text := respaced line.text }

def numberedFrom (start : Nat) (texts : List (List Char)) : List Line :=
  (texts.zipIdx start).map fun entry => ⟨entry.2, entry.1⟩

theorem numbered_append (above below : List (List Char)) :
    numbered (above ++ below) =
      numbered above ++ numberedFrom (above.length + 1) below := by
  rw [numbered, List.zipIdx_append, List.map_append, Nat.add_comm 1]
  rfl

theorem numbered_insert (above : List (List Char)) (line : List Char)
    (below : List (List Char)) :
    numbered (above ++ line :: below) =
      numbered above ++
      ⟨above.length + 1, line⟩ :: numberedFrom (above.length + 2) below := by
  rw [numbered_append]
  rfl

theorem map_raised_numbered {boundary : Nat} {texts : List (List Char)}
    (hlength : texts.length ≤ boundary) :
    (numbered texts).map (raised boundary) = numbered texts := by
  have hkept : ∀ line ∈ numbered texts, raised boundary line = id line := by
    intro line hline
    obtain ⟨hpositive, htext⟩ := mem_numbered.mp hline
    have hlast := (List.getElem?_eq_some_iff.mp htext).1
    rw [raised, raiseBehind, if_neg (by omega)]
    rfl
  exact (List.map_congr_left hkept).trans (List.map_id _)

theorem map_raised_numberedFrom {boundary start : Nat} (hstart : boundary < start)
    (texts : List (List Char)) :
    (numberedFrom start texts).map (raised boundary) =
      numberedFrom (start + 1) texts := by
  rw [numberedFrom, numberedFrom, List.zipIdx_succ, List.map_map, List.map_map]
  apply List.map_congr_left
  rintro ⟨text, number⟩ hentry
  have hnumber := List.le_snd_of_mem_zipIdx hentry
  rw [Function.comp_apply, raised, raiseBehind,
    if_pos (Nat.lt_of_lt_of_le hstart hnumber)]
  rfl

theorem map_raised_append (above below : List (List Char)) :
    (numbered (above ++ below)).map (raised above.length) =
      numbered above ++ numberedFrom (above.length + 2) below := by
  rw [numbered_append, List.map_append, map_raised_numbered (Nat.le_refl _),
    map_raised_numberedFrom (Nat.lt_succ_self _)]

end Line

theorem carries_raised (boundary : Nat) :
    Line.Carries (Line.raised boundary) (Location.raised boundary) "" "" :=
  ⟨fun _ => rfl, fun _ => rfl, rfl⟩

theorem carries_respace : Line.Carries Line.respace id "" "" :=
  ⟨fun line => Text.words_respaced line.text, fun _ => rfl, rfl⟩

theorem numbered_map_respaced (texts : List (List Char)) :
    Line.numbered (texts.map respaced) =
      (Line.numbered texts).map Line.respace := by
  rw [Line.numbered, List.zipIdx_map, List.map_map, Line.numbered, List.map_map]
  rfl

theorem grammarOf_respaced (texts : List (List Char)) :
    grammarOf "" (Line.numbered (texts.map respaced)) =
      grammarOf "" (Line.numbered texts) := by
  rw [numbered_map_respaced, grammarOf_map carries_respace]
  cases grammarOf "" (Line.numbered texts) with
  | ok grammar => rfl
  | error problems => exact congrArg Except.error (List.map_id problems)

theorem grammarOf_congr {first second : List (List Char)}
    (hwords : first.map words = second.map words) :
    grammarOf "" (Line.numbered first) = grammarOf "" (Line.numbered second) := by
  have hrespaced : first.map respaced = second.map respaced := by
    have hall := congrArg (List.map fun pieces =>
      (" ".intercalate (pieces.map String.ofList)).toList) hwords
    rw [List.map_map, List.map_map] at hall
    exact hall
  rw [← grammarOf_respaced first, hrespaced, grammarOf_respaced]

theorem written_append (upper lower : List Line) :
    written (upper ++ lower) = written upper ++ written lower :=
  List.filter_append _ _

theorem ofLines_comments {front : List Line}
    (hcomments : ∀ line ∈ front, line.isComment = true)
    (rest : List Line) :
    Document.ofLines (front ++ rest) = Document.ofLines rest := by
  rw [Document.ofLines, List.dropWhile_append_of_pos hcomments, Document.ofLines]

theorem ofLines_append {front : List Line} {document : Document}
    (hread : Document.ofLines front = .ok document) (rest : List Line) :
    Document.ofLines (front ++ rest) =
      .ok { document with
        rules := document.rules ++ rest.filter fun line => !line.isComment } := by
  unfold Document.ofLines at hread
  split at hread
  · cases hread
  · rename_i first others hdropped
    have hbehind :
        (front ++ rest).dropWhile Line.isComment = first :: (others ++ rest) := by
      rw [List.dropWhile_append, hdropped]
      rfl
    split at hread
    · cases hread
    · cases hread
    · cases hread
    · rename_i hsymbols
      cases hread
      rw [Document.ofLines, hbehind]
      simp only [hsymbols, List.cons_append, List.filter_append]

/-- The boundary lies before the line of the start symbol, or after the line of
the nonterminals. -/
inductive OutsideHeader (lines : List Line) (boundary : Nat) : Prop where
  | above (hnone : ∀ line ∈ lines, line.number ≤ boundary →
      line.isBlank = true ∨ line.isComment = true)
  | below {vocabulary : Vocabulary} {last : Nat}
      (hheads : Heads lines vocabulary last) (hlast : last ≤ boundary)

section Header

variable {lines front : List Line} {vocabulary : Vocabulary} {last : Nat}

theorem First.of_subset {above : Nat} {test : Line → Prop} {line : Line}
    (hfirst : First lines above test line)
    (hsubset : ∀ other ∈ front, other ∈ lines)
    (hline : line ∈ front) : First front above test line :=
  ⟨hline, hfirst.below, hfirst.passes, fun other hother =>
    hfirst.least other (hsubset other hother)⟩

theorem Heads.of_subset (hheads : Heads lines vocabulary last)
    (hsubset : ∀ line ∈ front, line ∈ lines)
    (hfront : ∀ line ∈ lines, line.number ≤ last → line ∈ front) :
    Heads front vocabulary last := by
  cases hheads with
  | intro hstart hsymbol hterminals hnonterminals =>
      have hbefore := hnonterminals.below.le
      have hfirst := hterminals.below.le.trans hbefore
      exact .intro (hstart.of_subset hsubset (hfront _ hstart.mem hfirst)) hsymbol
        (hterminals.of_subset hsubset (hfront _ hterminals.mem hbefore))
        (hnonterminals.of_subset hsubset
          (hfront _ hnonterminals.mem (Nat.le_refl _)))

theorem Heads.not_lacks (hheads : Heads lines vocabulary last)
    (fault : SourceFault) :
    ¬ Lacks lines fault := by
  intro hlacks
  cases hheads with
  | @intro start terminals nonterminals symbol hstart _ hterminals hnonterminals =>
      cases hlacks with
      | start hnone =>
          rcases hnone start hstart.mem with hblank | hcomment
          · exact Bool.eq_false_iff.mp hstart.passes.1 hblank
          · exact Bool.eq_false_iff.mp hstart.passes.2 hcomment
      | terminals hother hnone =>
          have hle := hother.le hstart.mem hstart.below hstart.passes
          have hblank :=
            hnone terminals hterminals.mem (hle.trans_lt hterminals.below)
          exact Bool.eq_false_iff.mp hterminals.passes hblank
      | nonterminals hother hnext hnone =>
          have hle := hother.le hstart.mem hstart.below hstart.passes
          have hnextLe :=
            hnext.le hterminals.mem
            (hle.trans_lt hterminals.below) hterminals.passes
          have hblank := hnone nonterminals hnonterminals.mem
            (hnextLe.trans_lt hnonterminals.below)
          exact Bool.eq_false_iff.mp hnonterminals.passes hblank

end Header

section Inserting

variable {above below : List (List Char)} {line : List Char}

theorem mem_numbered_above {line : Line} :
    line ∈ Line.numbered above ↔
      line ∈ Line.numbered (above ++ below) ∧ line.number ≤ above.length := by
  rw [Line.mem_numbered, Line.mem_numbered]
  apply Iff.intro
  · intro hplace
    obtain ⟨hpositive, htext⟩ := hplace
    have hlength := (List.getElem?_eq_some_iff.mp htext).1
    refine ⟨⟨hpositive, ?_⟩, by omega⟩
    rw [List.getElem?_append_left hlength, htext]
  · intro hplace
    obtain ⟨⟨hpositive, htext⟩, hlast⟩ := hplace
    rw [List.getElem?_append_left (by omega)] at htext
    exact ⟨hpositive, htext⟩

theorem Heads.exists_document {vocabulary : Vocabulary} {last : Nat}
    (hheads : Heads (Line.numbered above) vocabulary last) :
    ∃ document, Document.ofLines (written (Line.numbered above)) = .ok document ∧
      document.vocabulary = vocabulary := by
  have hincreasing := Line.increasing_numbered above
  have hpositive : ∀ line ∈ Line.numbered above, 0 < line.number :=
    fun line hline => (Line.mem_numbered.mp hline).1
  cases hread : Document.ofLines (written (Line.numbered above)) with
  | ok document =>
      obtain ⟨bottom, hdescribes⟩ :=
        describes_of_ofLines hincreasing hpositive hread
      exact ⟨document, rfl, (hdescribes.heads.unique hincreasing hheads).1⟩
  | error fault =>
      exact absurd (lacks_of_ofLines hincreasing hpositive hread)
        (hheads.not_lacks fault)

theorem ofLines_above {vocabulary : Vocabulary} {last : Nat}
    (hheads : Heads (Line.numbered (above ++ below)) vocabulary last)
    (hlast : last ≤ above.length) :
    ∃ document,
      Document.ofLines (written (Line.numbered above)) = .ok document := by
  have habove : Heads (Line.numbered above) vocabulary last := by
    apply hheads.of_subset
    · intro line hline
      exact (mem_numbered_above.mp hline).1
    · intro line hline hnumber
      exact mem_numbered_above.mpr ⟨hline, hnumber.trans hlast⟩
  obtain ⟨document, hread, _⟩ := habove.exists_document
  exact ⟨document, hread⟩

theorem isComment_of_above
    (hnone : ∀ line ∈ Line.numbered (above ++ below), line.number ≤ above.length →
      line.isBlank = true ∨ line.isComment = true) :
    ∀ line ∈ written (Line.numbered above), line.isComment = true := by
  intro line hline
  obtain ⟨hmem, hwritten⟩ := mem_written.mp hline
  obtain ⟨hwhole, hlast⟩ := mem_numbered_above.mp hmem
  rcases hnone line hwhole hlast with hblank | hcomment
  · exact absurd hblank (Bool.eq_false_iff.mp hwritten)
  · exact hcomment

theorem ofLines_insert_comment {extra : Line} (hcomment : extra.isComment = true)
    (houtside : OutsideHeader (Line.numbered (above ++ below)) above.length)
    (lower : List Line) :
    Document.ofLines (written (Line.numbered above) ++ extra :: lower) =
      Document.ofLines (written (Line.numbered above) ++ lower) := by
  cases houtside with
  | above hnone =>
      have hcomments := isComment_of_above hnone
      have hextra : ∀ line ∈ [extra], line.isComment = true := by
        intro line hline
        rw [List.mem_singleton.mp hline, hcomment]
      rw [ofLines_comments hcomments, ofLines_comments hcomments,
        ← ofLines_comments hextra lower, List.singleton_append]
  | below hheads hlast =>
      obtain ⟨document, hread⟩ := ofLines_above hheads hlast
      rw [ofLines_append hread, ofLines_append hread,
        List.filter_cons_of_neg (by rw [hcomment]; decide)]

theorem ofLines_insert {number : Nat}
    (hquiet : words line = [] ∨ (words line).head?.bind List.head? = some ';' ∧
      OutsideHeader (Line.numbered (above ++ below)) above.length)
        (lower : List Line) :
    Document.ofLines (written (Line.numbered above ++ ⟨number, line⟩ :: lower)) =
      Document.ofLines (written (Line.numbered above ++ lower)) := by
  rw [written_append, written_append]
  rcases hquiet with hblank | ⟨hcomment, houtside⟩
  · have hdropped : written (⟨number, line⟩ :: lower) = written lower :=
      List.filter_cons_of_neg (by simp [Line.isBlank_eq, hblank])
    rw [hdropped]
  · have hkept :
        written (⟨number, line⟩ :: lower) = ⟨number, line⟩ :: written lower := by
      apply List.filter_cons_of_pos
      rw [Line.isBlank_eq, Bool.not_eq_true', decide_eq_false_iff_not]
      intro hnil
      rw [hnil] at hcomment
      cases hcomment
    have hmarked : (Line.mk number line).isComment = true :=
      (Line.isComment_eq _).trans (decide_eq_true hcomment)
    rw [hkept, ofLines_insert_comment hmarked houtside]

theorem grammarOf_insert
    (hquiet : words line = [] ∨ (words line).head?.bind List.head? = some ';' ∧
      OutsideHeader (Line.numbered (above ++ below)) above.length) :
    grammarOf "" (Line.numbered (above ++ line :: below)) =
      (grammarOf "" (Line.numbered (above ++ below))).mapError
        (List.map (Located.relocate (Location.raised above.length))) := by
  rw [← grammarOf_map (carries_raised above.length), Line.map_raised_append,
    Line.numbered_insert, grammarOf, draftOf, ofLines_insert hquiet, grammarOf,
    draftOf]

end Inserting

/-- Reading sees the words of the lines only. A line that says nothing leaves
the grammar, or raises the numbers of the lines below it in the problems. -/
theorem reading_by_words :
    (∀ first second : String,
      (Text.lines first.toList).map words = (Text.lines second.toList).map words →
        grammarOfText first = grammarOfText second) ∧
    (∀ (first second : String) (line : List Char) (boundary : Nat), '\n' ∉ line →
      Text.Inserts line first.toList second.toList boundary →
      ((∀ c ∈ line, isBlank c = true) ∨ (line.dropWhile isBlank).head? = some ';' ∧
        OutsideHeader (Line.ofText first) boundary) →
      grammarOfText second = (grammarOfText first).mapError
        (List.map (Located.relocate (Location.raised boundary)))) := by
  apply And.intro
  · intro first second hwords
    rw [grammarOfText_eq, grammarOfText_eq]
    exact grammarOf_congr hwords
  · intro first second line boundary hline hinserts hquiet
    obtain ⟨above, below, hfirst, rfl, hsecond⟩ := hinserts.lines hline
    have hwords : words line = [] ∨ (words line).head?.bind List.head? = some ';' ∧
        OutsideHeader (Line.numbered (above ++ below)) above.length := by
      rcases hquiet with hblank | ⟨hcomment, houtside⟩
      · exact .inl (Text.words_eq_nil hblank)
      · rw [Line.ofText, hfirst] at houtside
        exact .inr ⟨(Text.head_words line).trans hcomment, houtside⟩
    rw [grammarOfText_eq, grammarOfText_eq, Line.ofText, Line.ofText, hfirst,
      grammarOf_congr hsecond, grammarOf_insert hwords]

theorem reading_by_words_samples :
    (∃ first second, first = "S\nx\tb\nS\n\n S -> x|y \n" ∧
      second = "S\r\nx b\r\n\u3000S\r\n\r\nS\u00A0-> x|y" ∧
      (Text.lines first.toList).map words = (Text.lines second.toList).map words ∧
      grammarOfText first = grammarOfText second) ∧
    (∃ first line second, first = "S\nx\nS\nS y" ∧ line = " ; y".toList ∧
      second = "S\nx\nS\n ; y\nS y" ∧ '\n' ∉ line ∧
      Text.Inserts line first.toList second.toList 3 ∧
      (line.dropWhile isBlank).head? = some ';' ∧
      OutsideHeader (Line.ofText first) 3 ∧
      grammarOfText second =
        .error [⟨⟨"", 5⟩, .grammar (.undefinedTerminal "y")⟩]) ∧
    (∃ first line second, first = "S\nx\nS\nS y" ∧ line = ['\t', '\r'] ∧
      second = "S\nx\nS\nS y\n\t\r" ∧ '\n' ∉ line ∧
      Text.Inserts line first.toList second.toList 4 ∧
      (∀ c ∈ line, isBlank c = true) ∧
      grammarOfText second =
        .error [⟨⟨"", 4⟩, .grammar (.undefinedTerminal "y")⟩]) := by
  have hread : grammarOfText "S\nx\nS\nS y" =
      .error [⟨⟨"", 4⟩, .grammar (.undefinedTerminal "y")⟩] :=
    rfl
  have hheads : Heads (Line.ofText "S\nx\nS\nS y") ⟨"S", ["x"], ["S"]⟩ 3 := by
    apply @Heads.intro _ ⟨1, ['S']⟩ ⟨2, ['x']⟩ ⟨3, ['S']⟩
    · exact ⟨by decide, by decide, by decide, by decide⟩
    · rfl
    · exact ⟨by decide, by decide, by decide, by decide⟩
    · exact ⟨by decide, by decide, by decide, by decide⟩
  refine ⟨⟨_, _, rfl, rfl, by decide, reading_by_words.1 _ _ (by decide)⟩, ?_, ?_⟩
  · have hinserts : Text.Inserts " ; y".toList "S\nx\nS\nS y".toList
        "S\nx\nS\n ; y\nS y".toList 3 :=
      @Text.Inserts.between _ "S\nx\nS\n".toList ['\n'] "S y".toList
        (.inr (by decide))
        (by decide)
    refine ⟨_, _, _, rfl, rfl, rfl, by decide, hinserts, rfl,
      .below hheads (by decide), ?_⟩
    rw [reading_by_words.2 _ _ _ _ (by decide) hinserts
      (.inr ⟨rfl, .below hheads (by decide)⟩), hread]
    rfl
  · have hinserts : Text.Inserts ['\t', '\r'] "S\nx\nS\nS y".toList
        "S\nx\nS\nS y\n\t\r".toList 4 := by
      have hfeed : ['\n'] ∈ Text.endings := by
        decide
      apply Text.Inserts.unended (not_or.mpr ⟨by decide, by decide⟩) hfeed
      exact .behind (not_or.mpr ⟨by decide, by decide⟩) hfeed hfeed
    have hblank : ∀ c ∈ ['\t', '\r'],
        isBlank c = true := List.all_eq_true.mp (by decide)
    refine ⟨_, _, _, rfl, rfl, rfl, by decide, hinserts, hblank, ?_⟩
    rw [reading_by_words.2 _ _ _ _ (by decide) hinserts (.inl hblank), hread]
    rfl

end Source

end ChomskyChart
