import ChomskyChart.Source.Fault

namespace ChomskyChart

namespace Vocabulary

def cuts (word : String) : List (String × String) :=
  (List.range' 1 (word.length - 1)).map fun position =>
    (String.ofList (word.toList.take position),
      String.ofList (word.toList.drop position))

theorem mem_cuts {word first second : String} :
    (first, second) ∈ cuts word ↔
      first ≠ "" ∧ second ≠ "" ∧ first ++ second = word := by
  simp only [cuts, List.mem_map, List.mem_range'_1, Prod.mk.injEq]
  constructor
  · rintro ⟨position, ⟨hpositive, hinside⟩, rfl, rfl⟩
    have hposition : position < word.toList.length := by
      rw [String.length_toList]
      omega
    refine ⟨?_, ?_, ?_⟩
    · simp only [Ne, String.ofList_eq_empty_iff, List.take_eq_nil_iff]
      rintro (hzero | hnil)
      · omega
      · simp [hnil] at hposition
    · simp only [Ne, String.ofList_eq_empty_iff, List.drop_eq_nil_iff]
      omega
    · rw [← String.ofList_append, List.take_append_drop, String.ofList_toList]
  · rintro ⟨hfirst, hsecond, rfl⟩
    have hlengths : first.length ≠ 0 ∧ second.length ≠ 0 :=
      ⟨mt String.length_eq_zero_iff.mp hfirst,
        mt String.length_eq_zero_iff.mp hsecond⟩
    refine ⟨first.length, ?_, ?_, ?_⟩
    · rw [String.length_append]
      omega
    · simp [← String.length_toList]
    · simp [← String.length_toList]

theorem nodup_cuts (word : String) : (cuts word).Nodup := by
  apply List.pairwise_map.mpr
  refine List.Pairwise.imp_of_mem ?_ (List.pairwise_lt_range' 1)
  intro position later _ hlater hless heq
  have hparts : min position word.length = min later word.length := by
    simpa [String.length_toList] using congrArg (fun parts => parts.1.length) heq
  rw [List.mem_range'_1] at hlater
  omega

def juxtapositions (vocabulary : Vocabulary) (word : String) :
    List (String × String) :=
  (cuts word).filter fun parts =>
    parts.1 ∈ vocabulary.nonterminals && parts.2 ∈ vocabulary.nonterminals

theorem mem_juxtapositions {vocabulary : Vocabulary} {word first second : String} :
    (first, second) ∈ vocabulary.juxtapositions word ↔
      (first ≠ "" ∧ first ∈ vocabulary.nonterminals) ∧
        (second ≠ "" ∧ second ∈ vocabulary.nonterminals) ∧
        first ++ second = word := by
  simp only [juxtapositions, List.mem_filter, mem_cuts, Bool.and_eq_true,
    decide_eq_true_iff]
  constructor
  · rintro ⟨⟨hfirst, hsecond, hword⟩, hdeclared, hmember⟩
    exact ⟨⟨hfirst, hdeclared⟩, ⟨hsecond, hmember⟩, hword⟩
  · rintro ⟨⟨hfirst, hdeclared⟩, ⟨hsecond, hmember⟩, hword⟩
    exact ⟨⟨hfirst, hsecond, hword⟩, hdeclared, hmember⟩

/-- No way to read a word is listed twice, so one entry alone says that there is
one way. -/
theorem nodup_juxtapositions (vocabulary : Vocabulary) (word : String) :
    (vocabulary.juxtapositions word).Nodup :=
  (nodup_cuts word).filter _

def commaPair (word : String) : Except SourceFault (List String) :=
  match word.toList.splitOn ',' with
  | [left, right] =>
      if left = [] ∨ right = [] then .error (.malformedPair word)
      else .ok [.ofList left, .ofList right]
  | _ => .error (.malformedPair word)

/-- The symbols that a one-word alternative names. A word that names nothing is
left whole: what is wrong with it is for the grammar to say. -/
def resolve (vocabulary : Vocabulary) (word : String) :
    Except SourceFault (List String) :=
  if word = emptyMarker ∨ word ∈ vocabulary.terminals then .ok [word]
  else if ',' ∈ word.toList then commaPair word
  else
    match vocabulary.juxtapositions word with
    | [] => .ok [word]
    | [(left, right)] => .ok [left, right]
    | _ => .error (.ambiguousPair word)

example : resolve ⟨"S", ["a"], ["A", "B", "AB", "BA"]⟩ "ABA" =
    .error (.ambiguousPair "ABA") := rfl

end Vocabulary

end ChomskyChart
