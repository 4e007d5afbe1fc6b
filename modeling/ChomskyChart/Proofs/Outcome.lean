import ChomskyChart.CommandLine.Run
import ChomskyChart.Proofs.FileReading
import ChomskyChart.Proofs.Inclusion
import ChomskyChart.Proofs.Reporting
import ChomskyChart.Proofs.StartOverride

namespace ChomskyChart

section Reading

variable {file : String} {problems : List (Located SourceFault)}

theorem Draft.ne_nil_of_grammar {draft : Draft}
    (hgrammar : draft.grammar file = .error problems) : problems ≠ [] := by
  obtain ⟨found, hbuilt, rfl⟩ := Draft.exists_of_grammar_error hgrammar
  simpa using (Grammar.reports_of_build hbuilt).ne_nil

namespace Source

theorem ne_nil_of_draftOfLines {results : List (Except (Located SourceFault) Line)}
    (hread : draftOfLines file results = .error problems) : problems ≠ [] := by
  rcases bind_eq_error hread with hfailed | ⟨lines, _, hdocument⟩
  · exact (gather_eq_error_iff.mp hfailed).1
  · split at hdocument
    · exact (Document.filterMap_of_draft_error hdocument).1
    · cases hdocument
      exact List.cons_ne_nil _ _

theorem ne_nil_of_grammarOfFile {contents : Except FileFailure (List UInt8)}
    (hread : grammarOfFile file contents = .error problems) : problems ≠ [] := by
  rcases bind_eq_error hread with hdraft | ⟨draft, _, hgrammar⟩
  · cases contents with
    | error failure =>
        cases hdraft
        exact List.cons_ne_nil _ _
    | ok bytes => exact ne_nil_of_draftOfLines hdraft
  · exact Draft.ne_nil_of_grammar hgrammar

end Source

end Reading

namespace Grammar

variable {grammar : Grammar} {start symbol : String} {tokens : List String}

/-- The symbol derives the tokens through terminals and pairs, or the empty
sequence by an alternative of its own. -/
inductive Yields (grammar : Grammar) (symbol : String) : List String → Prop where
  | empty (hempty : .empty ∈ grammar.alternatives symbol) : grammar.Yields symbol []
  | derives {tokens : List String} (hderives : grammar.Derives symbol tokens) :
      grammar.Yields symbol tokens

theorem accepted_iff_yields :
    (recognize grammar tokens).accepted = true ↔
      grammar.Yields grammar.start tokens := by
  cases tokens with
  | nil =>
      rw [Chart.accepted_nil_iff]
      apply Iff.intro Yields.empty
      intro hyields
      cases hyields with
      | empty hempty => exact hempty
      | derives hderives => exact absurd rfl hderives.ne_nil
  | cons token rest =>
      rw [Chart.accepted_iff_derives (List.cons_ne_nil _ _)]
      apply Iff.intro Yields.derives
      intro hyields
      cases hyields with
      | derives hderives => exact hderives

theorem Yields.startingAt (hyields : grammar.Yields symbol tokens)
    (start : String) :
    (grammar.startingAt start).Yields symbol tokens := by
  cases hyields with
  | empty hempty => exact .empty hempty
  | derives hderives =>
      have hwithin : grammar.Within (grammar.startingAt start) :=
        fun _ _ _ halternative => halternative
      exact .derives (hderives.mono hwithin)

theorem yields_startingAt_iff :
    (grammar.startingAt start).Yields symbol tokens ↔
      grammar.Yields symbol tokens :=
  ⟨fun hyields => hyields.startingAt grammar.start,
    fun hyields => hyields.startingAt start⟩

end Grammar

/-- How a place is written: the file, or what stands for none, and the line
unless the place is the file as a whole. -/
inductive Location.Written : Location → String → Prop where
  | input : Written ⟨"", 0⟩ "<input>"
  | inputLine {line : Nat} (hline : 0 < line) :
      Written ⟨"", line⟩ ("<input>:" ++ toString line)
  | file {file : String} (hnamed : file ≠ "") : Written ⟨file, 0⟩ file
  | fileLine {file : String} {line : Nat} (hnamed : file ≠ "") (hline : 0 < line) :
      Written ⟨file, line⟩ (file ++ ":" ++ toString line)

theorem Location.written_iff {location : Location} {place : String} :
    location.Written place ↔ place = location.text := by
  obtain ⟨file, line⟩ := location
  apply Iff.intro
  · intro hwritten
    cases hwritten with
    | input => rfl
    | inputLine hline => simp [text, fileText, Nat.ne_of_gt hline]
    | file hnamed => simp [text, fileText, hnamed]
    | fileLine hnamed hline => simp [text, fileText, hnamed, Nat.ne_of_gt hline]
  · rintro rfl
    by_cases hnamed : file = ""
    · subst hnamed
      cases line with
      | zero => exact .input
      | succ line => exact .inputLine (Nat.succ_pos line)
    · simp only [text, fileText, hnamed, if_false]
      cases line with
      | zero => exact .file hnamed
      | succ line => exact .fileLine hnamed (Nat.succ_pos line)

/-- The message for a problem: the place in red brackets, then what is wrong
there, all in bold. -/
inductive Located.Displayed {Fault : Type} [ToString Fault] :
    Located Fault → String → Prop where
  | intro {location : Location} {fault : Fault} {place : String}
      (hplace : location.Written place) :
      Displayed ⟨location, fault⟩
        ("\x1b[31;49;1m[" ++ place ++ "]\x1b[39;49;1m  " ++
          toString fault ++ "\x1b[0m")

theorem Located.displayed_iff {Fault : Type} [ToString Fault]
    {problem : Located Fault} {message : String} :
    problem.Displayed message ↔ message = problem.display := by
  apply Iff.intro
  · intro hdisplayed
    cases hdisplayed with
    | intro hplace =>
        rw [Location.written_iff.mp hplace]
        rfl
  · rintro rfl
    exact .intro (Location.written_iff.mpr rfl)

namespace Outcome

variable {exitCode : Nat} {output : String} {before after : List Event}
  {messages : List String}

theorem failed_eq {Fault : Type} [ToString Fault] (problems : List (Located Fault))
    (before after : List Event) :
    failed problems before after = ⟨1, "", before.map .record ++
      (problems.map Located.display).map .message ++ after.map .record⟩ := by
  rw [failed, List.map_map]
  rfl

theorem mapIdx_written_record (logger : Logger) (events : List Event) :
    ((events.map .record).mapIdx (Diagnostic.written logger)) =
      events.mapIdx logger := by
  induction events generalizing logger with
  | nil => rfl
  | cons event rest ih =>
      rw [List.map_cons, List.mapIdx_cons, List.mapIdx_cons]
      exact congrArg _ (ih fun place => logger (place + 1))

theorem mapIdx_written_message (logger : Logger) (messages : List String) :
    ((messages.map .message).mapIdx (Diagnostic.written logger)) =
      messages.map (· ++ "\n") := by
  induction messages generalizing logger with
  | nil => rfl
  | cons message rest ih =>
      rw [List.map_cons, List.mapIdx_cons, List.map_cons]
      exact congrArg _ (ih fun place => logger (place + 1))

theorem diagnosticText_eq (logger : Logger) :
    diagnosticText ⟨exitCode, output,
        before.map .record ++ messages.map .message ++ after.map .record⟩ logger =
      String.join (before.mapIdx logger) ++ Text.unlines messages ++
        String.join (after.mapIdx fun place =>
          logger (place + (before.length + messages.length))) := by
  have hmessages : ((messages.map .message).mapIdx fun place =>
      Diagnostic.written logger (place + before.length)) =
        messages.map (· ++ "\n") :=
    mapIdx_written_message (fun place => logger (place + before.length)) messages
  have hafter : ((after.map .record).mapIdx fun place =>
      Diagnostic.written logger (place + (before.length + messages.length))) =
        after.mapIdx fun place =>
          logger (place + (before.length + messages.length)) :=
    mapIdx_written_record _ after
  rw [diagnosticText, List.mapIdx_append, List.mapIdx_append,
    mapIdx_written_record, List.length_append, List.length_map, List.length_map,
    hmessages, hafter, String.join_append, String.join_append, Text.unlines]

end Outcome

namespace Arguments

variable {arguments : Arguments} {contents : Except FileFailure (List UInt8)}
  {grammar : Grammar}

/-- The tokens asked about: the characters of a single word, where tokens are
not asked for, or else the words of all that is given. -/
def asked (arguments : Arguments) : List String :=
  match arguments.words, arguments.tokens with
  | [word], false =>
      if isEmptyWord word then [] else word.toList.map String.singleton
  | words, _ => words.flatMap fun word => Text.symbols word.toList

theorem tokenize_word (arguments : Arguments) :
    arguments.mode.tokenize arguments.word = arguments.asked := by
  obtain ⟨file, words, tokens, quiet, start, hne⟩ := arguments
  match words, tokens with
  | [word], false => simp [mode, Arguments.word, asked, TokenMode.tokenize]
  | [word], true => exact Text.symbols_spaced [word]
  | first :: second :: others, tokens =>
      have hmode :
          mode ⟨file, first :: second :: others, tokens, quiet, start, hne⟩ =
          .words := by
        simp [mode]
      rw [hmode]
      exact Text.symbols_spaced (first :: second :: others)

def startIn (arguments : Arguments) (grammar : Grammar) : String :=
  arguments.start.getD grammar.start

/-- The file holds the grammar, and the start symbol asked for is one of its
nonterminals. -/
structure Selects (arguments : Arguments)
    (contents : Except FileFailure (List UInt8)) (grammar : Grammar) : Prop where
  read : Source.grammarOfFile arguments.file contents = .ok grammar
  declared : ∀ start ∈ arguments.start, start ∈ grammar.nonterminals

inductive Refused (arguments : Arguments)
    (contents : Except FileFailure (List UInt8)) :
    List String → Prop where
  | unread {problems : List (Located SourceFault)} {messages : List String}
      (hread : Source.grammarOfFile arguments.file contents = .error problems)
      (hdisplayed : List.Forall₂ Located.Displayed problems messages) :
      arguments.Refused contents messages
  | start {grammar : Grammar} {start message : String}
      (hread : Source.grammarOfFile arguments.file contents = .ok grammar)
      (hstart : arguments.start = some start)
      (hundeclared : start ∉ grammar.nonterminals)
      (hdisplayed : Located.Displayed
        (⟨.unknown, .startNotNonterminal start⟩ : Located GrammarFault) message) :
      arguments.Refused contents [message]

theorem started_of_selects (hselects : arguments.Selects contents grammar) :
    (arguments.started grammar).value =
      .ok (grammar.startingAt (arguments.startIn grammar)) := by
  rw [started, startIn]
  cases hstart : arguments.start with
  | none => rfl
  | some start => exact Grammar.withStart_of_mem (hselects.declared start hstart)

theorem run_of_selects (hselects : arguments.Selects contents grammar) :
    ∃ before, arguments.run contents =
      arguments.tested (grammar.startingAt (arguments.startIn grammar)) before := by
  rw [run]
  have hread :
      (Journal.grammarOfFile arguments.file contents).value = .ok grammar :=
    hselects.read
  simp only [hread, started_of_selects hselects]
  exact ⟨_, rfl⟩

theorem run_of_refused (hnone : ∀ grammar, ¬ arguments.Selects contents grammar) :
    ∃ messages, messages ≠ [] ∧ arguments.Refused contents messages ∧
      ∃ before after : List Event, arguments.run contents =
        ⟨1, "", before.map .record ++ messages.map .message ++
          after.map .record⟩ := by
  cases hread : Source.grammarOfFile arguments.file contents with
  | error problems =>
      have hdisplayed : List.Forall₂ Located.Displayed problems
          (problems.map Located.display) :=
        List.forall₂_map_right_iff.mpr
          (List.forall₂_same.mpr fun _ _ => Located.displayed_iff.mpr rfl)
      refine ⟨problems.map Located.display, ?_, .unread hread hdisplayed, ?_⟩
      · simpa using Source.ne_nil_of_grammarOfFile hread
      · have hvalue :
            (Journal.grammarOfFile arguments.file contents).value =
            .error problems := hread
        simp only [run, hvalue, Outcome.failed_eq]
        exact ⟨_, _, rfl⟩
  | ok grammar =>
      obtain ⟨start, hstart, hundeclared⟩ : ∃ start, arguments.start = some start ∧
          start ∉ grammar.nonterminals := by
        by_contra hdeclared
        push Not at hdeclared
        exact hnone grammar ⟨hread, hdeclared⟩
      refine ⟨_, List.cons_ne_nil _ _,
        .start hread hstart hundeclared (Located.displayed_iff.mpr rfl), ?_⟩
      have hvalue :
          (Journal.grammarOfFile arguments.file contents).value = .ok grammar :=
        hread
      have hstarted : (arguments.started grammar).value =
          .error [⟨.unknown, .startNotNonterminal start⟩] := by
        rw [started, hstart]
        exact Grammar.withStart_of_not_mem hundeclared
      simp only [run, hvalue, hstarted, Outcome.failed_eq]
      exact ⟨_, _, rfl⟩

theorem report_recognize (grammar : Grammar) (tokens : List String)
    (mode : TokenMode) (quiet : Bool) :
    Layout.report grammar (recognize grammar tokens) tokens mode quiet =
      (if quiet = true ∨ tokens = [] then ""
        else Layout.working grammar
          (Chart.fill grammar tokens (tokens.length - 1)) tokens mode) ++
      Layout.verdict grammar.start tokens mode
        (recognize grammar tokens).accepted := by
  rw [Layout.report]
  by_cases hne : tokens = []
  · rw [Chart.chart_recognize, Chart.build, if_pos hne, if_pos (.inr hne)]
  · rw [Chart.chart_recognize, Chart.build_eq_some hne]
    simp only [hne, or_false]

/-- What is printed for a word: a verdict under the start symbol in effect, and
before it the working with that symbol, if it is asked for and there is a chart. -/
structure Prints (arguments : Arguments) (grammar : Grammar)
    (working result output : String) : Prop where
  output_eq : output = working ++ Text.unlines
    [Layout.verdictRule,
      "Start Symbol: " ++ arguments.startIn grammar,
      "Word        : " ++ arguments.mode.wordText arguments.asked,
      "Result      : " ++ result,
      Layout.verdictRule]
  accepted_iff : result = "ACCEPTED" ↔
    grammar.Yields (arguments.startIn grammar) arguments.asked
  rejected_iff : result = "REJECTED" ↔
    ¬ grammar.Yields (arguments.startIn grammar) arguments.asked
  working_eq : working =
    if arguments.quiet = true ∨ arguments.asked = [] then ""
    else
      let restarted := grammar.startingAt (arguments.startIn grammar)
      Layout.working restarted
        (Chart.fill restarted arguments.asked (arguments.asked.length - 1))
        arguments.asked arguments.mode

theorem prints_of_selects (hselects : arguments.Selects contents grammar) :
    ∃ working result,
      arguments.Prints grammar working result (arguments.run contents).output := by
  obtain ⟨before, hrun⟩ := run_of_selects hselects
  have haccepted : (recognize (grammar.startingAt (arguments.startIn grammar))
      arguments.asked).accepted = true ↔
        grammar.Yields (arguments.startIn grammar) arguments.asked :=
    Grammar.accepted_iff_yields.trans Grammar.yields_startingAt_iff
  rw [hrun, tested, Journal.value_recognize, tokenize_word]
  refine ⟨_, _, report_recognize _ _ _ _, ?_, ?_, rfl⟩
  · rw [← haccepted]
    simp
  · rw [← haccepted]
    simp

/-- A run ends well if the file holds a grammar with the start symbol that is
asked for. Then its output ends with the verdict on the tokens asked about, and
otherwise it has no output, and all problems of the step that failed among its
diagnostics. -/
theorem run_exact (arguments : Arguments)
    (contents : Except FileFailure (List UInt8)) :
    ((arguments.run contents).exitCode = 0 ↔
      ∃ grammar, arguments.Selects contents grammar) ∧
    (∀ grammar, arguments.Selects contents grammar → ∃ working result,
      arguments.Prints grammar working result (arguments.run contents).output) ∧
    ((∀ grammar, ¬ arguments.Selects contents grammar) →
      (arguments.run contents).exitCode = 1 ∧ (arguments.run contents).output = "" ∧
      ∃ messages, messages ≠ [] ∧ arguments.Refused contents messages ∧
        ∃ before after : List Event, ∀ logger : Logger,
          (arguments.run contents).diagnosticText logger =
            String.join (before.mapIdx logger) ++ Text.unlines messages ++
              String.join (after.mapIdx fun place =>
                logger (place + (before.length + messages.length)))) := by
  refine ⟨?_, fun _ => prints_of_selects, ?_⟩
  · apply Iff.intro
    · intro hcode
      by_contra hnone
      obtain ⟨_, _, _, _, _, hrun⟩ := run_of_refused (not_exists.mp hnone)
      rw [hrun] at hcode
      cases hcode
    · intro hexists
      obtain ⟨grammar, hselects⟩ := hexists
      obtain ⟨before, hrun⟩ := run_of_selects hselects
      rw [hrun]
      rfl
  · intro hnone
    obtain ⟨messages, hne, hrefused, before, after, hrun⟩ := run_of_refused hnone
    rw [hrun]
    exact ⟨rfl, rfl, messages, hne, hrefused, before, after,
      Outcome.diagnosticText_eq⟩

def trailing : Grammar :=
  .ofProductions ⟨"S", ["a", "b"], ["S", "A", "B"]⟩
    [⟨"S", .empty⟩, ⟨"A", .pair "A" "B"⟩, ⟨"A", .terminal "a"⟩,
      ⟨"B", .terminal "b"⟩]

def restarting : Arguments :=
  ⟨"g.cnf", ["a", " b b"], false, true, some "A", List.cons_ne_nil _ _⟩

/-- The logger without a level chosen: errors alone are shown, with their time. -/
def clocked : Logger :=
  Logger.leveled (some .error) fun place =>
    "2024-05-17T08:30:0" ++ toString place ++ "Z "

theorem run_exact_samples :
    (∃ contents : Except FileFailure (List UInt8),
      contents = .ok (Text.encode "S\na b\nS A B\nS *\nA AB a\nB b".toList) ∧
      restarting.Selects contents trailing ∧ trailing.Yields "A" ["a", "b", "b"] ∧
      (restarting.run contents).exitCode = 0 ∧
      (restarting.run contents).output = Text.unlines
        ["====================================",
          "Start Symbol: A",
          "Word        : a b b",
          "Result      : ACCEPTED",
          "===================================="]) ∧
    (∃ contents : Except FileFailure (List UInt8),
      contents = .ok (Text.encode "S\na".toList) ∧
      (∀ grammar, ¬ restarting.Selects contents grammar) ∧
      (restarting.run contents).exitCode = 1 ∧
      (restarting.run contents).output = "" ∧
      (∃ before after : List Event,
        (restarting.run contents).diagnosticText clocked =
          String.join (before.mapIdx clocked) ++ Text.unlines
            ["\x1b[31;49;1m[g.cnf]\x1b[39;49;1m  Expected a line of nonterminals " ++
              "after the terminals\x1b[0m"] ++
            String.join (after.mapIdx fun place =>
              clocked (place + (before.length + 1)))) ∧
      (restarting.run contents).diagnosticText clocked = Text.unlines
        ["\x1b[31;49;1m[g.cnf]\x1b[39;49;1m  Expected a line of nonterminals " ++
            "after the terminals\x1b[0m",
          "[2024-05-17T08:30:01Z ERROR cyk] Could not read a grammar from g.cnf"]) := by
  apply And.intro
  · have hread :
        Source.grammarOfText "S\na b\nS A B\nS *\nA AB a\nB b" = .ok trailing := by
      decide
    have hselects : restarting.Selects
        (.ok (Text.encode "S\na b\nS A B\nS *\nA AB a\nB b".toList)) trailing :=
      ⟨by rw [Source.grammarOfFile_encode, hread]; rfl, by decide⟩
    have hyields : trailing.Yields "A" ["a", "b", "b"] := by
      have hfirst : trailing.Derives "A" (["a"] ++ ["b"]) :=
        @Grammar.Derives.pair trailing "A" "A" "B" _ _ (by decide)
          (.terminal (by decide))
          (.terminal (by decide))
      exact .derives
        (@Grammar.Derives.pair trailing "A" "A" "B" _ _ (by decide) hfirst
          (.terminal (by decide)))
    obtain ⟨working, result, hprints⟩ :=
      (run_exact restarting _).2.1 trailing hselects
    have hresult := hprints.accepted_iff.mpr hyields
    refine ⟨_, rfl, hselects, hyields, (run_exact restarting _).1.mpr ⟨_, hselects⟩,
      ?_⟩
    rw [hprints.output_eq, hresult, hprints.working_eq]
    rfl
  · have hread : Source.grammarOfFile "g.cnf" (.ok (Text.encode "S\na".toList)) =
        .error [⟨⟨"g.cnf", 0⟩, .missingNonterminals⟩] := by
      rw [Source.grammarOfFile_encode]
      decide
    have hnone : ∀ grammar, ¬ restarting.Selects
        (.ok (Text.encode "S\na".toList)) grammar := by
      intro grammar hselects
      cases hread.symm.trans hselects.read
    obtain ⟨hcode, houtput, messages, _, hrefused, before, after, htext⟩ :=
      (run_exact restarting _).2.2 hnone
    have hmessages : messages =
        ["\x1b[31;49;1m[g.cnf]\x1b[39;49;1m  Expected a line of nonterminals " ++
          "after the terminals\x1b[0m"] := by
      cases hrefused with
      | start hgrammar => cases hread.symm.trans hgrammar
      | unread hproblems hdisplayed =>
          cases hread.symm.trans hproblems
          cases hdisplayed with
          | cons hdisplayed hrest =>
              cases hrest
              rw [Located.displayed_iff.mp hdisplayed]
              rfl
    have hjournal :
        Journal.grammarOfFile "g.cnf" (.ok (Text.encode "S\na".toList)) =
        ⟨.error [⟨⟨"g.cnf", 0⟩, .missingNonterminals⟩], []⟩ := by
      rw [Journal.grammarOfFile, hread, Source.draftOfFile_encode]
      rfl
    rw [hmessages] at htext
    refine ⟨_, rfl, hnone, hcode, houtput, ⟨before, after, htext clocked⟩, ?_⟩
    simp only [run, restarting, hjournal]
    rfl

end Arguments

end ChomskyChart
