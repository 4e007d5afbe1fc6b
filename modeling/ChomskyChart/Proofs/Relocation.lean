import ChomskyChart.Proofs.Header
import ChomskyChart.Proofs.Spacing
import ChomskyChart.Source.Reading

namespace ChomskyChart

def Located.relocate {Fault : Type} (move : Location → Location)
    (problem : Located Fault) : Located Fault :=
  ⟨move problem.location, problem.fault⟩

def Declaration.relocate (move : Location → Location)
    (declaration : Declaration) : Declaration :=
  { declaration with location := move declaration.location }

def Draft.relocate (move : Location → Location) (draft : Draft) : Draft :=
  { draft with declarations := draft.declarations.map (Declaration.relocate move) }

theorem gather_map {ε δ α β : Type} (failed : ε → δ) (done : α → β)
    (outcomes : List (Except ε α)) :
    gather (outcomes.map fun outcome => (outcome.map done).mapError failed) =
      ((gather outcomes).map (List.map done)).mapError (List.map failed) := by
  cases hgathered : gather outcomes with
  | ok values =>
      apply gather_eq_ok_iff.mpr
      rw [gather_eq_ok_iff.mp hgathered, List.map_map, List.map_map]
      rfl
  | error failures =>
      obtain ⟨hne, hfailures⟩ := gather_eq_error_iff.mp hgathered
      apply gather_eq_error_iff.mpr
      refine ⟨by simpa using hne, ?_⟩
      have heach : failure? ∘ (fun outcome : Except ε α =>
          (outcome.map done).mapError failed) = fun outcome =>
            (failure? outcome).map failed := by
        funext outcome
        cases outcome with
        | ok _ => rfl
        | error _ => rfl
      rw [← hfailures, List.filterMap_map, List.map_filterMap, heach]

section Declarations

variable (move : Location → Location)

namespace Vocabulary

variable (vocabulary : Vocabulary) (declarations : List Declaration)

theorem declarationFaults_relocate (declaration : Declaration) :
    vocabulary.declarationFaults (declaration.relocate move) =
      (vocabulary.declarationFaults declaration).map (Located.relocate move) := by
  rw [declarationFaults, declarationFaults, List.map_map]
  rfl

theorem problems_relocate (origin : Location) :
    vocabulary.problems (declarations.map (Declaration.relocate move))
      (move origin) =
      (vocabulary.problems declarations origin).map (Located.relocate move) := by
  have hgroups : vocabulary.declarationFaults ∘ Declaration.relocate move =
      fun declaration =>
        (vocabulary.declarationFaults declaration).map (Located.relocate move) :=
    funext (vocabulary.declarationFaults_relocate move)
  rw [problems, problems, List.map_append, List.map_map, List.flatMap_map,
    List.map_flatMap]
  change _ ++ declarations.flatMap (vocabulary.declarationFaults ∘ _) = _
  rw [hgroups]
  rfl

theorem productionsOf_relocate :
    vocabulary.productionsOf (declarations.map (Declaration.relocate move)) =
      vocabulary.productionsOf declarations := by
  rw [productionsOf, productionsOf, List.filterMap_map]
  rfl

end Vocabulary

theorem Grammar.build_relocate (vocabulary : Vocabulary)
    (declarations : List Declaration) (origin : Location) :
    Grammar.build vocabulary (declarations.map (Declaration.relocate move))
      (move origin) =
      (Grammar.build vocabulary declarations origin).mapError
        (List.map (Located.relocate move)) := by
  rw [Grammar.build, Grammar.build, Vocabulary.problems_relocate,
    Vocabulary.productionsOf_relocate]
  cases vocabulary.distinct.problems declarations origin with
  | nil => rfl
  | cons problem others => rfl

theorem Rule.declarations_relocate (rule : Rule) (location : Location) :
    rule.declarations (move location) =
      (rule.declarations location).map (Declaration.relocate move) := by
  rw [declarations, declarations, List.map_map]
  rfl

end Declarations

open Source (Line written)

/-- The lines keep their words, and their places in the one file become those in
the other by the move. -/
structure Source.Line.Carries (change : Line → Line) (move : Location → Location)
    (file other : String) : Prop where
  words : ∀ line, Text.words (change line).text = Text.words line.text
  number : ∀ line, move ⟨file, line.number⟩ = ⟨other, (change line).number⟩
  origin : move ⟨file, 0⟩ = ⟨other, 0⟩

def Document.carry (change : Line → Line) (document : Document) : Document :=
  { document with rules := document.rules.map change }

namespace Source

section Carrying

variable {change : Line → Line} {move : Location → Location} {file other : String}

theorem Line.Carries.symbols_eq (hcarries : Line.Carries change move file other)
    (line : Line) :
    (change line).symbols = line.symbols := by
  rw [Line.symbols, Text.symbols, hcarries.words, Line.symbols, Text.symbols]

theorem Line.Carries.isBlank_comp (hcarries : Line.Carries change move file other) :
    Line.isBlank ∘ change = Line.isBlank := by
  funext line
  rw [Function.comp_apply, Line.isBlank_eq, Line.isBlank_eq, hcarries.words]

theorem Line.Carries.isComment_comp
    (hcarries : Line.Carries change move file other) :
    Line.isComment ∘ change = Line.isComment := by
  funext line
  rw [Function.comp_apply, Line.isComment_eq, Line.isComment_eq, hcarries.words]

theorem written_map (hcarries : Line.Carries change move file other)
    (lines : List Line) :
    written (lines.map change) = (written lines).map change := by
  have htest : (fun line => !line.isBlank) ∘ change = fun line => !line.isBlank :=
    congrArg (fun test line => !test line) hcarries.isBlank_comp
  rw [written, List.filter_map, htest, written]

theorem filter_isComment_map (hcarries : Line.Carries change move file other)
    (lines : List Line) :
    (lines.map change).filter (fun line => !line.isComment) =
      (lines.filter fun line => !line.isComment).map change := by
  have htest : (fun line => !line.isComment) ∘ change = fun line =>
      !line.isComment :=
    congrArg (fun test line => !test line) hcarries.isComment_comp
  rw [List.filter_map, htest]

theorem ofLines_map (hcarries : Line.Carries change move file other)
    (lines : List Line) :
    Document.ofLines (lines.map change) =
      (Document.ofLines lines).map (Document.carry change) := by
  rw [Document.ofLines, Document.ofLines, List.dropWhile_map,
    hcarries.isComment_comp]
  cases lines.dropWhile Line.isComment with
  | nil => rfl
  | cons first rest =>
      rw [List.map_cons]
      simp only [hcarries.symbols_eq]
      cases first.symbols with
      | nil => rfl
      | cons start others =>
          match rest with
          | [] => rfl
          | [terminals] => rfl
          | terminals :: nonterminals :: rules =>
              simp only [List.map_cons, hcarries.symbols_eq,
                filter_isComment_map hcarries]
              rfl

theorem lineDeclarations_carry (hcarries : Line.Carries change move file other)
    (document : Document) (line : Line) :
    (document.carry change).lineDeclarations other (change line) =
      ((document.lineDeclarations file line).map
        (List.map (Declaration.relocate move))).mapError
          (Located.relocate move) := by
  change document.lineDeclarations other (change line) = _
  unfold Document.lineDeclarations
  rw [document.vocabulary.lineRule_congr (hcarries.words line), ← hcarries.number]
  cases document.vocabulary.lineRule line.text with
  | ok rule =>
      exact congrArg Except.ok (rule.declarations_relocate move ⟨file, line.number⟩)
  | error fault => rfl

theorem draft_carry (hcarries : Line.Carries change move file other)
    (document : Document) :
    (document.carry change).draft other =
      ((document.draft file).map (Draft.relocate move)).mapError
        (List.map (Located.relocate move)) := by
  have hlines : (document.carry change).rules.map
        ((document.carry change).lineDeclarations other) =
      (document.rules.map (document.lineDeclarations file)).map fun outcome =>
        (outcome.map (List.map (Declaration.relocate move))).mapError
          (Located.relocate move) := by
    rw [Document.carry, List.map_map, List.map_map]
    exact List.map_congr_left fun line _ =>
      lineDeclarations_carry hcarries document line
  rw [Document.draft, hlines, gather_map, Document.draft]
  cases gather (document.rules.map (document.lineDeclarations file)) with
  | ok groups =>
      change Except.ok (Draft.mk _ (document.rules.map change).length
          (groups.map (List.map (Declaration.relocate move))).flatten) =
        .ok (Draft.mk _ _ (groups.flatten.map (Declaration.relocate move)))
      rw [List.length_map, List.map_flatten]
      rfl
  | error problems => rfl

theorem grammar_relocate (hcarries : Line.Carries change move file other)
    (draft : Draft) :
    (draft.relocate move).grammar other =
      (draft.grammar file).mapError (List.map (Located.relocate move)) := by
  have hbuilt :=
    Grammar.build_relocate move draft.vocabulary draft.declarations ⟨file, 0⟩
  rw [hcarries.origin] at hbuilt
  rw [Draft.grammar, Draft.relocate, hbuilt, Draft.grammar]
  cases Grammar.build draft.vocabulary draft.declarations ⟨file, 0⟩ with
  | ok grammar => rfl
  | error problems =>
      change Except.error
        ((problems.map (Located.relocate move)).map Located.ofGrammar) =
        .error ((problems.map Located.ofGrammar).map (Located.relocate move))
      rw [List.map_map, List.map_map]
      rfl

def grammarOf (file : String) (lines : List Line) :
    Except (List (Located SourceFault)) Grammar := do
  (← draftOf file lines).grammar file

theorem grammarOfText_eq (text : String) :
    grammarOfText text = grammarOf "" (Line.ofText text) := by
  rw [grammarOfText, draftOfText_eq]
  rfl

theorem draftOf_map (hcarries : Line.Carries change move file other)
    (lines : List Line) :
    draftOf other (lines.map change) =
      ((draftOf file lines).map (Draft.relocate move)).mapError
        (List.map (Located.relocate move)) := by
  rw [draftOf, written_map hcarries, ofLines_map hcarries, draftOf]
  cases Document.ofLines (written lines) with
  | ok document => exact draft_carry hcarries document
  | error fault =>
      change Except.error [Located.mk ⟨other, 0⟩ fault] =
        .error [Located.mk (move ⟨file, 0⟩) fault]
      rw [hcarries.origin]

theorem grammarOf_map (hcarries : Line.Carries change move file other)
    (lines : List Line) :
    grammarOf other (lines.map change) =
      (grammarOf file lines).mapError (List.map (Located.relocate move)) := by
  rw [grammarOf, grammarOf, draftOf_map hcarries]
  cases draftOf file lines with
  | ok draft => exact grammar_relocate hcarries draft
  | error problems => rfl

end Carrying

end Source

end ChomskyChart
