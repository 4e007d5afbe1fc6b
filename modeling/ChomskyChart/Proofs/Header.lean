import ChomskyChart.Source.Reading
import Mathlib.Data.List.Nodup
import Mathlib.Data.List.TakeWhile

/-!
The roles of the lines of a grammar file: which lines are its header, which are
its rules, and what a header can lack. The roles are said by the numbers of the
lines and found again in the order in which the lines are read.
-/

namespace ChomskyChart

namespace Source

namespace Line

def ofText (text : String) : List Line :=
  numbered (Text.lines text.toList)

def Increasing (lines : List Line) : Prop :=
  lines.Pairwise fun first second => first.number < second.number

theorem increasing_numbered (texts : List (List Char)) :
    Increasing (numbered texts) := by
  have hnumbers : ((texts.zipIdx 1).map Prod.snd).Pairwise (· < ·) := by
    rw [List.zipIdx_map_snd]
    exact List.pairwise_lt_range'
  exact List.pairwise_map.mpr (List.pairwise_map.mp hnumbers)

theorem mem_numbered {texts : List (List Char)} {line : Line} :
    line ∈ numbered texts ↔
      0 < line.number ∧ texts[line.number - 1]? = some line.text := by
  rw [numbered, List.mem_map]
  apply Iff.intro
  · intro hentry
    obtain ⟨entry, hmem, rfl⟩ := hentry
    exact List.mem_zipIdx_iff_le_and_getElem?_sub.mp hmem
  · intro hplace
    exact ⟨(line.text, line.number),
      List.mem_zipIdx_iff_le_and_getElem?_sub.mpr hplace, rfl⟩

theorem increasing_ofText (text : String) : Increasing (ofText text) :=
  increasing_numbered _

theorem Increasing.eq_of_number {lines : List Line} (hincreasing : Increasing lines)
    {first second : Line} (hfirst : first ∈ lines) (hsecond : second ∈ lines)
    (hnumber : first.number = second.number) : first = second := by
  have hnodup : (lines.map number).Nodup :=
    List.pairwise_map.mpr (hincreasing.imp fun hless => Nat.ne_of_lt hless)
  exact List.inj_on_of_nodup_map hnodup hfirst hsecond hnumber

theorem number_pos_of_mem_ofText {text : String} {line : Line}
    (hline : line ∈ ofText text) : 0 < line.number :=
  (mem_numbered.mp hline).1

end Line

structure First (lines : List Line) (above : Nat) (test : Line → Prop)
    (line : Line) : Prop where
  mem : line ∈ lines
  below : above < line.number
  passes : test line
  least : ∀ other ∈ lines, above < other.number → other.number < line.number →
      ¬ test other

/-- The lines hold a header of the given symbols, which ends at the given
number. -/
inductive Heads (lines : List Line) : Vocabulary → Nat → Prop where
  | intro {start terminals nonterminals : Line} {symbol : String}
      (hstart : First lines 0
        (fun line => line.isBlank = false ∧ line.isComment = false) start)
      (hsymbol : start.symbols.head? = some symbol)
      (hterminals : First lines start.number (·.isBlank = false) terminals)
      (hnonterminals :
        First lines terminals.number (·.isBlank = false) nonterminals) :
      Heads lines
        ⟨symbol, terminals.symbols, nonterminals.symbols⟩ nonterminals.number

inductive Lacks (lines : List Line) : SourceFault → Prop where
  | start (hnone : ∀ line ∈ lines, line.isBlank = true ∨ line.isComment = true) :
      Lacks lines .missingStart
  | terminals {start : Line}
      (hstart : First lines 0
        (fun line => line.isBlank = false ∧ line.isComment = false) start)
      (hnone : ∀ line ∈ lines, start.number < line.number → line.isBlank = true) :
      Lacks lines .missingTerminals
  | nonterminals {start terminals : Line}
      (hstart : First lines 0
        (fun line => line.isBlank = false ∧ line.isComment = false) start)
      (hterminals : First lines start.number (·.isBlank = false) terminals)
      (hnone : ∀ line ∈ lines, terminals.number < line.number →
        line.isBlank = true) :
      Lacks lines .missingNonterminals

structure IsRule (lines : List Line) (last : Nat) (line : Line) : Prop where
  mem : line ∈ lines
  below : last < line.number
  not_blank : line.isBlank = false
  not_comment : line.isComment = false

section Unique

variable {lines : List Line}

theorem First.le {above : Nat} {test : Line → Prop} {line other : Line}
    (hfirst : First lines above test line) (hother : other ∈ lines)
    (habove : above < other.number)
    (htest : test other) : line.number ≤ other.number :=
  Nat.le_of_not_lt fun hless => hfirst.least other hother habove hless htest

theorem First.unique (hincreasing : Line.Increasing lines) {above : Nat}
    {test : Line → Prop} {line other : Line} (hfirst : First lines above test line)
    (hother : First lines above test other) : line = other :=
  hincreasing.eq_of_number hfirst.mem hother.mem <| Nat.le_antisymm
    (hfirst.le hother.mem hother.below hother.passes)
    (hother.le hfirst.mem hfirst.below hfirst.passes)

theorem Heads.unique (hincreasing : Line.Increasing lines)
    {first second : Vocabulary} {last bottom : Nat}
    (hfirst : Heads lines first last) (hsecond : Heads lines second bottom) :
    first = second ∧ last = bottom := by
  cases hfirst with
  | intro hstart hsymbol hterminals hnonterminals =>
      cases hsecond with
      | intro hotherStart hotherSymbol hotherTerminals hotherNonterminals =>
          cases hstart.unique hincreasing hotherStart
          cases hterminals.unique hincreasing hotherTerminals
          cases hnonterminals.unique hincreasing hotherNonterminals
          cases hsymbol.symm.trans hotherSymbol
          exact ⟨rfl, rfl⟩

end Unique

section Reading

variable {lines front rest : List Line} {line : Line}

theorem mem_written :
    line ∈ written lines ↔ line ∈ lines ∧ line.isBlank = false := by
  rw [written, List.mem_filter, Bool.not_eq_true']

theorem increasing_written (hincreasing : Line.Increasing lines) :
    Line.Increasing (written lines) :=
  List.Pairwise.filter _ hincreasing

theorem mem_rest (hincreasing : Line.Increasing lines)
    (hwritten : written lines = front ++ line :: rest) {other : Line} :
    other ∈ rest ↔
      other ∈ lines ∧ other.isBlank = false ∧ line.number < other.number := by
  have hordered := increasing_written hincreasing
  rw [hwritten] at hordered
  obtain ⟨_, hbehind, hbefore⟩ := List.pairwise_append.mp hordered
  apply Iff.intro
  · intro hmem
    have hread : other ∈ written lines := by
      rw [hwritten]
      exact List.mem_append_right _ (List.mem_cons_of_mem _ hmem)
    obtain ⟨hline, hblank⟩ := mem_written.mp hread
    exact ⟨hline, hblank, (List.pairwise_cons.mp hbehind).1 other hmem⟩
  · intro hbelow
    obtain ⟨hline, hblank, hnumber⟩ := hbelow
    have hread : other ∈ written lines := mem_written.mpr ⟨hline, hblank⟩
    rw [hwritten] at hread
    rcases List.mem_append.mp hread with hfront | hread
    · have hless := hbefore other hfront line List.mem_cons_self
      omega
    · rcases List.mem_cons.mp hread with heq | hrest
      · rw [heq] at hnumber
        omega
      · exact hrest

theorem first_next (hincreasing : Line.Increasing lines) {next : Line}
    (hwritten : written lines = front ++ line :: next :: rest) :
    First lines line.number (·.isBlank = false) next := by
  have hnext := (mem_rest hincreasing hwritten).mp List.mem_cons_self
  refine ⟨hnext.1, hnext.2.2, hnext.2.1, ?_⟩
  intro other hother habove hbelow hblank
  have hread := (mem_rest hincreasing hwritten).mpr ⟨hother, hblank, habove⟩
  have hwritten' := hwritten.trans (List.append_cons _ _ _)
  rcases List.mem_cons.mp hread with heq | hrest
  · rw [heq] at hbelow
    omega
  · have hafter := ((mem_rest hincreasing hwritten').mp hrest).2.2
    omega

theorem isBlank_of_last (hincreasing : Line.Increasing lines)
    (hwritten : written lines = front ++ [line]) :
    ∀ other ∈ lines, line.number < other.number → other.isBlank = true := by
  intro other hother hnumber
  by_contra hblank
  have hread := (mem_rest hincreasing hwritten).mpr
    ⟨hother, Bool.eq_false_iff.mpr hblank, hnumber⟩
  exact List.not_mem_nil hread

theorem first_start (hincreasing : Line.Increasing lines)
    (hpositive : ∀ line ∈ lines, 0 < line.number)
    (hdropped : (written lines).dropWhile Line.isComment = line :: rest) :
    First lines 0 (fun line => line.isBlank = false ∧ line.isComment = false) line ∧
      written lines = (written lines).takeWhile Line.isComment ++ line :: rest := by
  have hwritten : written lines =
      (written lines).takeWhile Line.isComment ++ line :: rest := by
    rw [← hdropped, List.takeWhile_append_dropWhile]
  have hread : line ∈ written lines := by
    rw [hwritten]
    exact List.mem_append_right _ List.mem_cons_self
  obtain ⟨hline, hblank⟩ := mem_written.mp hread
  have hcomment : line.isComment = false := by
    have hhead := List.head?_dropWhile_not Line.isComment (written lines)
    rw [hdropped] at hhead
    exact hhead
  refine ⟨⟨hline, hpositive line hline, ⟨hblank, hcomment⟩, ?_⟩, hwritten⟩
  -- an earlier line was skipped as a comment, a later one has a greater number
  intro other hother _ hbefore htest
  have hotherRead : other ∈ written lines := mem_written.mpr ⟨hother, htest.1⟩
  rw [hwritten] at hotherRead
  rcases List.mem_append.mp hotherRead with hskipped | hkept
  · have hskippedComment := List.mem_takeWhile_imp hskipped
    rw [htest.2] at hskippedComment
    cases hskippedComment
  · rcases List.mem_cons.mp hkept with heq | hrest
    · rw [heq] at hbefore
      omega
    · have hafter := ((mem_rest hincreasing hwritten).mp hrest).2.2
      omega

theorem start_symbols_ne_nil (hincreasing : Line.Increasing lines)
    (hpositive : ∀ line ∈ lines, 0 < line.number)
    (hdropped : (written lines).dropWhile Line.isComment = line :: rest) :
    line.symbols ≠ [] := by
  intro hnil
  have hblank := (first_start hincreasing hpositive hdropped).1.passes.1
  rw [Line.isBlank_iff.mpr hnil] at hblank
  cases hblank

theorem lacks_of_ofLines (hincreasing : Line.Increasing lines)
    (hpositive : ∀ line ∈ lines, 0 < line.number) {fault : SourceFault}
    (hread : Document.ofLines (written lines) = .error fault) :
    Lacks lines fault := by
  unfold Document.ofLines at hread
  split at hread
  · rename_i hdropped
    cases hread
    apply Lacks.start
    intro line hline
    by_cases hblank : line.isBlank = true
    · exact .inl hblank
    · exact .inr (List.dropWhile_eq_nil_iff.mp hdropped line
        (mem_written.mpr ⟨hline, Bool.eq_false_iff.mpr hblank⟩))
  · rename_i start rest hdropped
    have hne := start_symbols_ne_nil hincreasing hpositive hdropped
    obtain ⟨hstart, hwritten⟩ := first_start hincreasing hpositive hdropped
    split at hread
    · rename_i hnil
      exact absurd hnil hne
    · cases hread
      exact .terminals hstart (isBlank_of_last hincreasing hwritten)
    · rename_i terminals _
      cases hread
      refine .nonterminals hstart (first_next hincreasing hwritten) ?_
      exact isBlank_of_last hincreasing (hwritten.trans (List.append_cons _ _ _))
    · cases hread

/-- The document holds the symbols of the header and, in their order, the rules
below it. -/
structure Describes (lines : List Line) (document : Document)
    (last : Nat) : Prop where
  heads : Heads lines document.vocabulary last
  increasing : Line.Increasing document.rules
  mem_rules : ∀ line, line ∈ document.rules ↔ IsRule lines last line

theorem describes_of_ofLines (hincreasing : Line.Increasing lines)
    (hpositive : ∀ line ∈ lines, 0 < line.number) {document : Document}
    (hread : Document.ofLines (written lines) = .ok document) :
    ∃ last, Describes lines document last := by
  unfold Document.ofLines at hread
  split at hread
  · cases hread
  · rename_i start rest hdropped
    obtain ⟨hstart, hwritten⟩ := first_start hincreasing hpositive hdropped
    split at hread
    · cases hread
    · cases hread
    · cases hread
    · rename_i symbol _ terminals nonterminals others hsymbols
      cases hread
      have hnext : written lines =
          ((written lines).takeWhile Line.isComment ++ [start]) ++
            terminals :: nonterminals :: others :=
        hwritten.trans (List.append_cons _ _ _)
      have hlast := hnext.trans (List.append_cons _ _ _)
      have hfirst : start.symbols.head? = some symbol := by
        rw [hsymbols]
        rfl
      refine ⟨nonterminals.number,
        .intro hstart hfirst (first_next hincreasing hwritten)
        (first_next hincreasing hnext), ?_, ?_⟩
      · have hordered := increasing_written hincreasing
        rw [hlast] at hordered
        have hothers :=
          (List.pairwise_cons.mp (List.pairwise_append.mp hordered).2.1).2
        exact hothers.filter _
      · intro line
        rw [List.mem_filter, mem_rest hincreasing hlast, Bool.not_eq_true']
        apply Iff.intro
        · intro hline
          obtain ⟨⟨hmem, hblank, hbelow⟩, hcomment⟩ := hline
          exact ⟨hmem, hbelow, hblank, hcomment⟩
        · intro hrule
          exact ⟨⟨hrule.mem, hrule.not_blank, hrule.below⟩, hrule.not_comment⟩

end Reading

end Source

end ChomskyChart
