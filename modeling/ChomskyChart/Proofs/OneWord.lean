import ChomskyChart.Proofs.LineGrammar
import ChomskyChart.Proofs.Reporting
import Mathlib.Data.Set.Subsingleton

namespace ChomskyChart

namespace Vocabulary

open Source (Token)

variable {vocabulary : Vocabulary} {word : String}

section Comma

theorem exists_commaPair {symbols : List String}
    (hread : commaPair word = .ok symbols) :
    ∃ left right, CommaPair word left right ∧ symbols = [left, right] := by
  unfold commaPair at hread
  split at hread
  · rename_i left right hsplit
    split at hread
    · cases hread
    · rename_i hparts
      cases hread
      obtain ⟨_, hfree, hjoined⟩ := splitOn_eq_iff.mp hsplit
      obtain ⟨hleft, hright⟩ := not_or.mp hparts
      refine ⟨.ofList left, .ofList right, ⟨⟨by simpa, ?_⟩, ⟨by simpa, ?_⟩, ?_⟩,
        rfl⟩
      · simpa using hfree left (by simp)
      · simpa using hfree right (by simp)
      · apply String.toList_inj.mp
        simp [← hjoined, List.intercalate_cons_cons]
  · cases hread

theorem commaPair_eq_pair_iff {left right : String} :
    commaPair word = .ok [left, right] ↔ CommaPair word left right := by
  apply Iff.intro
  · intro hread
    obtain ⟨_, _, hpair, heq⟩ := exists_commaPair hread
    cases heq
    exact hpair
  · exact CommaPair.commaPair_eq

theorem commaPair_eq_malformed_iff :
    commaPair word = .error (.malformedPair word) ↔
      ∀ left right, ¬ CommaPair word left right := by
  apply Iff.intro
  · intro hread left right hpair
    rw [hpair.commaPair_eq] at hread
    cases hread
  · intro hnone
    cases hread : commaPair word with
    | ok symbols =>
        obtain ⟨left, right, hpair, _⟩ := exists_commaPair hread
        exact absurd hpair (hnone left right)
    | error fault => rw [malformedPair_of_commaPair hread]

end Comma

section Joined

/-- The ways to write a word as one nonterminal right after another. -/
def halves (vocabulary : Vocabulary) (word : String) : Set (String × String) :=
  {pair | (pair.1 ≠ "" ∧ pair.1 ∈ vocabulary.nonterminals) ∧
    (pair.2 ≠ "" ∧ pair.2 ∈ vocabulary.nonterminals) ∧ pair.1 ++ pair.2 = word}

theorem mem_halves {pair : String × String} :
    pair ∈ vocabulary.halves word ↔ pair ∈ vocabulary.juxtapositions word :=
  mem_juxtapositions.symm

theorem resolve_joined_cases (hmarker : word ≠ emptyMarker)
    (hterminal : word ∉ vocabulary.terminals) (hcomma : ',' ∉ word.toList) :
    (vocabulary.halves word = ∅ ∧ vocabulary.resolve word = .ok [word]) ∨
      (∃ left right, vocabulary.halves word = {(left, right)} ∧
        vocabulary.resolve word = .ok [left, right]) ∨
      ((vocabulary.halves word).Nontrivial ∧
        vocabulary.resolve word = .error (.ambiguousPair word)) := by
  have hnodup := vocabulary.nodup_juxtapositions word
  have hmem := fun pair => @mem_halves vocabulary word pair
  rw [resolve, if_neg (not_or.mpr ⟨hmarker, hterminal⟩), if_neg hcomma]
  generalize vocabulary.juxtapositions word = ways at hnodup hmem
  cases ways with
  | nil =>
      exact .inl
        ⟨Set.eq_empty_of_forall_notMem fun pair => by simp [hmem], rfl⟩
  | cons first others =>
      cases others with
      | nil =>
          exact .inr
            (.inl ⟨first.1, first.2, Set.ext fun pair => by simp [hmem], rfl⟩)
      | cons second others =>
          -- no way is listed twice, so two entries are two ways
          have hne : first ≠ second := by
            intro heq
            simp [heq] at hnodup
          exact .inr (.inr
            ⟨⟨first, by simp [hmem], second, by simp [hmem], hne⟩, rfl⟩)

variable (hmarker : word ≠ emptyMarker) (hterminal : word ∉ vocabulary.terminals)
  (hcomma : ',' ∉ word.toList)
include hmarker hterminal hcomma

theorem resolve_eq_pair_iff {left right : String} :
    vocabulary.resolve word = .ok [left, right] ↔
      vocabulary.halves word = {(left, right)} := by
  rcases resolve_joined_cases hmarker hterminal hcomma with
    ⟨hhalves, hread⟩ | ⟨first, second, hhalves, hread⟩ | ⟨hhalves, hread⟩
  · rw [hread, hhalves]
    simp [Set.ext_iff]
  · rw [hread, hhalves]
    simp
  · rw [hread]
    refine ⟨nofun, ?_⟩
    intro hsingle
    exact absurd (hsingle ▸ hhalves) Set.not_nontrivial_singleton

theorem resolve_eq_ambiguous_iff :
    vocabulary.resolve word = .error (.ambiguousPair word) ↔
      (vocabulary.halves word).Nontrivial := by
  rcases resolve_joined_cases hmarker hterminal hcomma with
    ⟨hhalves, hread⟩ | ⟨first, second, hhalves, hread⟩ | ⟨hhalves, hread⟩
  · rw [hread, hhalves]
    exact ⟨nofun, fun hmany => absurd hmany Set.not_nontrivial_empty⟩
  · rw [hread, hhalves]
    exact ⟨nofun, fun hmany => absurd hmany Set.not_nontrivial_singleton⟩
  · exact ⟨fun _ => hhalves, fun _ => hread⟩

theorem resolve_eq_whole_iff :
    vocabulary.resolve word = .ok [word] ↔ vocabulary.halves word = ∅ := by
  rcases resolve_joined_cases hmarker hterminal hcomma with
    ⟨hhalves, hread⟩ | ⟨first, second, hhalves, hread⟩ | ⟨hhalves, hread⟩
  · exact ⟨fun _ => hhalves, fun _ => hread⟩
  · rw [hread, hhalves]
    simp
  · rw [hread]
    exact ⟨nofun, fun hnone => absurd hnone hhalves.nonempty.ne_empty⟩

end Joined

theorem resolve_congr {other : Vocabulary}
    (hterminals : ∀ symbol, symbol ∈ vocabulary.terminals ↔
      symbol ∈ other.terminals)
    (hnonterminals : ∀ symbol, symbol ∈ vocabulary.nonterminals ↔
      symbol ∈ other.nonterminals)
    (word : String) : vocabulary.resolve word = other.resolve word := by
  simp only [resolve, juxtapositions, hterminals, hnonterminals]

/-- A word that is an alternative of its own in a rule line. -/
inductive OneWord (vocabulary : Vocabulary) (line : List Char)
    (word : String) : Prop where
  | word {symbol : String} {words : List String}
      (hform : ¬ vocabulary.ArrowForm line)
      (hsymbols : Text.symbols line = symbol :: words) (hmem : word ∈ words)
  | part {symbol : String} {rest : List Token} {parts : List (List Token)}
      (hform : vocabulary.ArrowForm line)
      (htokens : Token.scan line = .word symbol :: .arrow :: rest)
      (hparts : Token.Barred rest parts) (hmem : [.word word] ∈ parts)

theorem OneWord.exists_alternative {line : List Char} {rule : Rule}
    (hword : vocabulary.OneWord line word)
    (hread : vocabulary.lineRule line = .ok rule) :
    ∃ symbols ∈ rule.alternatives, vocabulary.resolve word = .ok symbols := by
  cases hword with
  | word hform hsymbols hmem =>
      cases lineReads_of_lineRule hread with
      | words _ hothers _ hreads =>
          cases hsymbols.symm.trans hothers
          exact exists_related hreads.flip hmem
      | parts harrow => exact absurd harrow hform
  | part hform htokens hparts hmem =>
      cases lineReads_of_lineRule hread with
      | words hliteral => exact absurd hform hliteral
      | parts _ hothers _ hotherParts hreads =>
          cases htokens.symm.trans hothers
          rw [Token.barred_iff] at hparts hotherParts
          cases hparts.symm.trans hotherParts
          obtain ⟨symbols, hmem, hpart⟩ := exists_related hreads.flip hmem
          exact ⟨symbols, hmem, hpart.alternativeOf⟩

end Vocabulary

namespace Source

variable {text : String} {vocabulary : Vocabulary} {last : Nat} {line : Line}
  {grammar : Grammar}

theorem admits_of_grammarOfText (hread : grammarOfText text = .ok grammar)
    (hheads : Heads (Line.ofText text) vocabulary last)
    (hrule : IsRule (Line.ofText text) last line) :
    ∃ rule, vocabulary.lineRule line.text = .ok rule ∧
    vocabulary.AdmitsRule rule := by
  obtain ⟨draft, hdraft, hgrammar⟩ := bind_eq_ok hread
  obtain ⟨document, bottom, hdescribes, hdrafted⟩ := describes_of_draftOfText hdraft
  obtain ⟨rfl, rfl⟩ := hheads.unique (Line.increasing_ofText text) hdescribes.heads
  obtain ⟨hvocabulary, hdeclarations, hlines⟩ := Document.draft_eq_ok hdrafted
  have hline := (hdescribes.mem_rules line).mpr hrule
  obtain ⟨rule, hrule⟩ := hlines line hline
  refine ⟨rule, hrule, ?_⟩
  rw [Vocabulary.admitsRule_iff (Vocabulary.alternatives_ne_nil hrule)
    ⟨"", line.number⟩]
  intro declaration hdeclaration
  rw [← hvocabulary]
  apply Grammar.admits_of_build (Draft.build_of_grammar hgrammar)
  rw [hdeclarations, List.mem_flatMap]
  refine ⟨line, hline, ?_⟩
  rw [Document.declared_of_lineRule hrule]
  exact hdeclaration

theorem refused_of_whole {word : String}
    (hheads : Heads (Line.ofText text) vocabulary last)
    (hrule : IsRule (Line.ofText text) last line)
    (hword : vocabulary.OneWord line.text word) (hmarker : word ≠ emptyMarker)
    (hterminal : word ∉ vocabulary.terminals)
    (hwhole : vocabulary.resolve word = .ok [word]) :
    ∃ problems, grammarOfText text = .error problems := by
  cases hread : grammarOfText text with
  | error problems => exact ⟨problems, rfl⟩
  | ok grammar =>
      obtain ⟨rule, hline, _, hadmits⟩ := admits_of_grammarOfText hread hheads hrule
      obtain ⟨symbols, hmem, hsymbols⟩ := hword.exists_alternative hline
      cases hwhole.symm.trans hsymbols
      obtain ⟨alternative, hshapes⟩ := hadmits [word] hmem
      cases hshapes with
      | empty => exact absurd rfl hmarker
      | terminal hdeclared _ => exact absurd hdeclared hterminal

end Source

namespace Vocabulary

open Source (Line Heads IsRule grammarOfText)

/-- The marker and the terminals stand for themselves, a comma separates two
symbols, and other words are read as two nonterminals if there is one way to. A
word that is none of this is left whole, and then no text with it as an
alternative is read as a grammar. -/
theorem resolve_exact (vocabulary : Vocabulary) (word : String) :
    (word = emptyMarker ∨ word ∈ vocabulary.terminals →
      vocabulary.resolve word = .ok [word]) ∧
    (word ≠ emptyMarker → word ∉ vocabulary.terminals → ',' ∈ word.toList →
      (∀ left right, vocabulary.resolve word = .ok [left, right] ↔
        CommaPair word left right) ∧
      (vocabulary.resolve word = .error (.malformedPair word) ↔
        ∀ left right, ¬ CommaPair word left right)) ∧
    (word ≠ emptyMarker → word ∉ vocabulary.terminals → ',' ∉ word.toList →
      (∀ left right, vocabulary.resolve word = .ok [left, right] ↔
        vocabulary.halves word = {(left, right)}) ∧
      (vocabulary.resolve word = .error (.ambiguousPair word) ↔
        (vocabulary.halves word).Nontrivial) ∧
      (vocabulary.resolve word = .ok [word] ↔ vocabulary.halves word = ∅)) ∧
    (∀ other : Vocabulary,
      (∀ symbol, symbol ∈ vocabulary.terminals ↔ symbol ∈ other.terminals) →
      (∀ symbol, symbol ∈ vocabulary.nonterminals ↔ symbol ∈ other.nonterminals) →
        vocabulary.resolve word = other.resolve word) ∧
    ∀ (text : String) (last : Nat) (line : Line),
      Heads (Line.ofText text) vocabulary last →
      IsRule (Line.ofText text) last line → vocabulary.OneWord line.text word →
        word ≠ emptyMarker → word ∉ vocabulary.terminals →
          vocabulary.resolve word = .ok [word] →
            ∃ problems, grammarOfText text = .error problems := by
  refine ⟨?_, ?_, ?_, ?_, ?_⟩
  · intro hsymbol
    rw [resolve, if_pos hsymbol]
  · intro hmarker hterminal hcomma
    rw [resolve_comma hmarker hterminal hcomma]
    exact ⟨fun _ _ => commaPair_eq_pair_iff, commaPair_eq_malformed_iff⟩
  · intro hmarker hterminal hcomma
    exact ⟨fun _ _ => resolve_eq_pair_iff hmarker hterminal hcomma,
      resolve_eq_ambiguous_iff hmarker hterminal hcomma,
      resolve_eq_whole_iff hmarker hterminal hcomma⟩
  · intro other hterminals hnonterminals
    exact resolve_congr hterminals hnonterminals word
  · intro text last line hheads hrule hword hmarker hterminal hwhole
    exact Source.refused_of_whole hheads hrule hword hmarker hterminal hwhole

def overlapping : Vocabulary where
  start := "S"
  terminals := ["a", "A,B"]
  nonterminals := ["S", "A", "B", "AB", "BA"]

theorem resolve_exact_samples :
    ("A,B" ∈ overlapping.terminals ∧ overlapping.resolve "A,B" = .ok ["A,B"]) ∧
    (overlapping.resolve "B,C" = .ok ["B", "C"] ∧ CommaPair "B,C" "B" "C") ∧
    (∀ left right, ¬ CommaPair "A,,B" left right) ∧
    (overlapping.halves "SAB" = {("S", "AB")} ∧
      (overlapping.halves "ABA").Nontrivial ∧
      overlapping.halves "AA" = {("A", "A")} ∧ overlapping.halves "A" = ∅) ∧
    (overlapping.resolve "ABA" =
      (⟨"A", ["A,B", "a"], ["BA", "B", "A", "S", "AB", "A"]⟩ :
        Vocabulary).resolve "ABA") ∧
    (∃ problems, grammarOfText "S\na\nS A\nA a A\n" = .error problems) := by
  have hword (word : String) (hmarker : word ≠ emptyMarker)
      (hterminal : word ∉ overlapping.terminals) (hcomma : ',' ∉ word.toList) :=
    (resolve_exact overlapping word).2.2.1 hmarker hterminal hcomma
  refine ⟨⟨by decide, (resolve_exact _ _).1 (.inr (by decide))⟩, ?_, ?_, ?_, ?_, ?_⟩
  · have hread : overlapping.resolve "B,C" = .ok ["B", "C"] := rfl
    have hpair :=
      (resolve_exact overlapping "B,C").2.1 (by decide) (by decide) (by decide)
    exact ⟨hread, (hpair.1 _ _).mp hread⟩
  · have hpair :=
      (resolve_exact overlapping "A,,B").2.1 (by decide) (by decide) (by decide)
    exact hpair.2.mp rfl
  · exact ⟨((hword "SAB" (by decide) (by decide) (by decide)).1 _ _).mp rfl,
      (hword "ABA" (by decide) (by decide) (by decide)).2.1.mp rfl,
      ((hword "AA" (by decide) (by decide) (by decide)).1 _ _).mp rfl,
      (hword "A" (by decide) (by decide) (by decide)).2.2.mp rfl⟩
  · apply (resolve_exact overlapping "ABA").2.2.2.1
    · intro symbol
      simp [overlapping, or_comm]
    · intro symbol
      simp only [overlapping, List.mem_cons, List.not_mem_nil, or_false]
      tauto
  · have hheads :
        Heads (Line.ofText "S\na\nS A\nA a A\n") ⟨"S", ["a"], ["S", "A"]⟩ 3 := by
      apply @Heads.intro _ ⟨1, ['S']⟩ ⟨2, ['a']⟩ ⟨3, ['S', ' ', 'A']⟩
      · exact ⟨by decide, by decide, by decide, by decide⟩
      · rfl
      · exact ⟨by decide, by decide, by decide, by decide⟩
      · exact ⟨by decide, by decide, by decide, by decide⟩
    apply (resolve_exact ⟨"S", ["a"], ["S", "A"]⟩ "A").2.2.2.2 _ 3
      ⟨4, "A a A".toList⟩ hheads
    · exact ⟨by decide, by decide, by decide, by decide⟩
    · have hform : ¬ ArrowForm ⟨"S", ["a"], ["S", "A"]⟩ "A a A".toList :=
        mt isArrowForm_iff.mpr (by decide)
      exact @OneWord.word _ _ _ "A" ["a", "A"] hform rfl (by decide)
    · decide
    · decide
    · rfl

end Vocabulary

end ChomskyChart
