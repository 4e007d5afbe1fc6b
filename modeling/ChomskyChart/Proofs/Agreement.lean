import ChomskyChart.Proofs.Exactness
import ChomskyChart.Proofs.Rewriting

namespace ChomskyChart

namespace Alternative

def hasMember (symbol : String) : Alternative → Bool
  | pair left right => symbol ∈ [left, right]
  | _ => false

theorem hasMember_iff {symbol : String} {alternative : Alternative} :
    alternative.hasMember symbol = true ↔
      ∃ left right, alternative = .pair left right ∧ symbol ∈ [left, right] := by
  cases alternative with
  | terminal _ => simp [hasMember]
  | pair left right => simp [hasMember]
  | empty => simp [hasMember]

end Alternative

namespace Grammar

variable {grammar : Grammar} {tokens : List String}

theorem accepted_iff_generates :
    (recognize grammar tokens).accepted = true ↔
      grammar.Generates (· ≠ .empty) [.nonterminal grammar.start] tokens ∨
        tokens = [] ∧ .empty ∈ grammar.alternatives grammar.start := by
  rw [generates_iff_derives]
  by_cases hnil : tokens = []
  · subst tokens
    rw [Chart.accepted_nil_iff]
    apply Iff.intro
    · intro hempty
      exact .inr ⟨rfl, hempty⟩
    · intro hcases
      rcases hcases with hderives | hempty
      · exact absurd rfl hderives.ne_nil
      · exact hempty.2
  · rw [Chart.accepted_iff_derives hnil]
    apply Iff.intro
    · exact .inl
    · intro hcases
      rcases hcases with hderives | hempty
      · exact hderives
      · exact absurd hempty.1 hnil

theorem mem_language_of_accepted
    (haccepted : (recognize grammar tokens).accepted = true) :
    tokens ∈ grammar.language := by
  apply mem_language_iff_generates.mpr
  rcases accepted_iff_generates.mp haccepted with hgenerates | hempty
  · exact hgenerates.mono fun _ _ => trivial
  · obtain ⟨rfl, hempty⟩ := hempty
    exact .of_alternative hempty trivial .refl

def Paired (grammar : Grammar) (symbol : String) : Prop :=
  ∃ parent left right, .pair left right ∈ grammar.alternatives parent ∧
    symbol ∈ [left, right]

/-- No nonterminal with the empty alternative is a member of a pair. -/
def EmptyApart (grammar : Grammar) : Prop :=
  ∀ symbol, .empty ∈ grammar.alternatives symbol → ¬ grammar.Paired symbol

theorem paired_iff_production {symbol : String} :
    grammar.Paired symbol ↔ ∃ production ∈ grammar.rules.productions,
      production.alternative.hasMember symbol = true := by
  simp only [Paired, Alternative.hasMember_iff, Rules.mem_productions_iff]
  apply Iff.intro
  · intro hpaired
    obtain ⟨parent, left, right, hpair, hmem⟩ := hpaired
    exact ⟨⟨parent, .pair left right⟩, hpair, left, right, rfl, hmem⟩
  · intro hproduction
    obtain ⟨production, halternative, left, right, hshape, hmem⟩ := hproduction
    rw [hshape] at halternative
    exact ⟨production.symbol, left, right, halternative, hmem⟩

instance (symbol : String) : Decidable (grammar.Paired symbol) :=
  decidable_of_iff _ paired_iff_production.symm

instance : Decidable grammar.EmptyApart :=
  decidable_of_iff
    (∀ symbol ∈ (grammar.producersOf .empty).toList, ¬ grammar.Paired symbol)
    (forall_congr' fun _ => imp_congr_left mem_producersOf)

theorem EmptyApart.closed (hapart : grammar.EmptyApart) :
    grammar.Closed (fun _ => True) fun symbol tokens =>
      grammar.Derives symbol tokens ∨
        tokens = [] ∧ .empty ∈ grammar.alternatives symbol := by
  intro symbol alternative halternative _ tokens hspells
  rw [spells_output_iff] at hspells
  cases alternative with
  | terminal token =>
      subst tokens
      exact .inl (.terminal halternative)
  | pair left right =>
      obtain ⟨first, second, rfl, hfirst, hsecond⟩ := hspells
      have hmember {member : String} (hmem : member ∈ [left, right]) :
          .empty ∉ grammar.alternatives member := fun hempty =>
        hapart member hempty ⟨symbol, left, right, halternative, hmem⟩
      have hfirstDerives : grammar.Derives left first :=
        hfirst.resolve_right fun hempty => hmember (by simp) hempty.2
      have hsecondDerives : grammar.Derives right second :=
        hsecond.resolve_right fun hempty => hmember (by simp) hempty.2
      exact .inl (.pair halternative hfirstDerives hsecondDerives)
  | empty => exact .inr ⟨hspells, halternative⟩

theorem EmptyApart.accepted_of_mem_language (hapart : grammar.EmptyApart)
    (hmem : tokens ∈ grammar.language) :
    (recognize grammar tokens).accepted = true := by
  rw [accepted_iff_generates, generates_iff_derives]
  exact (mem_language_iff_generates.mp hmem).has_property hapart.closed

/-- Recognition accepts words of the language only, and all of them where no
nonterminal with the empty alternative is a member of a pair. -/
theorem recognition_agrees (grammar : Grammar) :
    (∀ tokens, (recognize grammar tokens).accepted = true →
      tokens ∈ grammar.language) ∧
    (grammar.EmptyApart → ∀ tokens, tokens ∈ grammar.language →
      (recognize grammar tokens).accepted = true) := by
  refine ⟨fun _ => mem_language_of_accepted, ?_⟩
  intro hapart tokens
  exact hapart.accepted_of_mem_language

def optionalPair : Grammar :=
  .ofProductions ⟨"S", ["a", "b"], ["S", "A", "B"]⟩
    [⟨"S", .pair "A" "B"⟩, ⟨"S", .empty⟩, ⟨"A", .terminal "a"⟩,
      ⟨"B", .terminal "b"⟩]

theorem recognition_agrees_optionalPair :
    (recognize optionalPair ["a", "b"]).accepted = true ∧
      optionalPair.EmptyApart ∧
      ["a", "b"] ∈ optionalPair.language ∧ ["a"] ∉ optionalPair.language := by
  obtain ⟨hsound, hcomplete⟩ := recognition_agrees optionalPair
  refine ⟨by decide, by decide, hsound _ (by decide), ?_⟩
  intro hmem
  exact absurd (hcomplete (by decide) ["a"] hmem) (by decide)

section Unwarned

theorem eq_start_of_strayEmpty_eq_nil (hstray : grammar.strayEmpty = [])
    {symbol : String} (hempty : .empty ∈ grammar.alternatives symbol) :
    symbol = grammar.start := by
  by_contra hne
  have hmem := mem_strayEmpty.mpr ⟨hempty, hne⟩
  rw [hstray] at hmem
  exact List.not_mem_nil hmem

theorem accepted_nil_of_mem_language (hstray : grammar.strayEmpty = [])
    (hmem : [] ∈ grammar.language) :
    (recognize grammar []).accepted = true := by
  rw [Chart.accepted_nil_iff]
  have hclosed : grammar.Closed (fun _ => True) fun _ tokens =>
      tokens = [] → .empty ∈ grammar.alternatives grammar.start := by
    intro symbol alternative halternative _ tokens hspells hnil
    subst tokens
    rw [spells_output_iff] at hspells
    cases alternative with
    | terminal token => cases hspells
    | pair left right =>
        obtain ⟨first, second, happend, hfirst, _⟩ := hspells
        exact hfirst (List.append_eq_nil_iff.mp happend.symm).1
    | empty =>
        rw [eq_start_of_strayEmpty_eq_nil hstray halternative] at halternative
        exact halternative
  exact (mem_language_iff_generates.mp hmem).has_property hclosed rfl

/-- Where only the start symbol can be erased, recognition agrees with the
language on a word exactly if the word, being in the language, is empty or is
generated without erasing. It agrees on all words if the start symbol cannot be
erased or is a member of no pair. -/
theorem unwarned_recognition (grammar : Grammar)
    (hstray : grammar.strayEmpty = []) :
    (∀ tokens,
      ((recognize grammar tokens).accepted = true ↔
          tokens ∈ grammar.language) ↔
        (tokens ∈ grammar.language → tokens = [] ∨
          grammar.Generates (· ≠ .empty) [.nonterminal grammar.start] tokens)) ∧
    ((.empty ∈ grammar.alternatives grammar.start →
        ¬ grammar.Paired grammar.start) →
      ∀ tokens, (recognize grammar tokens).accepted = true ↔
        tokens ∈ grammar.language) := by
  refine ⟨?_, ?_⟩
  · intro tokens
    apply Iff.intro
    · intro hagrees hmem
      rcases accepted_iff_generates.mp (hagrees.mpr hmem) with hgenerates | hempty
      · exact .inr hgenerates
      · exact .inl hempty.1
    · intro hreached
      refine ⟨mem_language_of_accepted, ?_⟩
      intro hmem
      rcases hreached hmem with rfl | hgenerates
      · exact accepted_nil_of_mem_language hstray hmem
      · exact accepted_iff_generates.mpr (.inl hgenerates)
  · intro hstart tokens
    refine ⟨mem_language_of_accepted, ?_⟩
    have hapart : grammar.EmptyApart := by
      intro symbol hempty
      have heq := eq_start_of_strayEmpty_eq_nil hstray hempty
      subst heq
      exact hstart hempty
    exact hapart.accepted_of_mem_language

/-- Any number of tokens `a`; with one token or more the inner start symbol has
to be erased. -/
def recurring : Grammar :=
  .ofProductions ⟨"S", ["a"], ["S", "A"]⟩
    [⟨"S", .pair "S" "A"⟩, ⟨"S", .empty⟩, ⟨"A", .terminal "a"⟩]

theorem mem_language_recurring : ["a"] ∈ recurring.language := by
  have hpair : .pair "S" "A" ∈ recurring.alternatives "S" := by decide
  have hempty : .empty ∈ recurring.alternatives "S" := by decide
  have hterminal : .terminal "a" ∈ recurring.alternatives "A" := by decide
  have hleft : recurring.Generates (fun _ => True) [.nonterminal "S"] [] :=
    .of_alternative hempty trivial .refl
  have hright : recurring.Generates (fun _ => True) [.nonterminal "A"] ["a"] :=
    .of_alternative hterminal trivial .refl
  apply mem_language_iff_generates.mpr
  exact .of_alternative hpair trivial (hleft.append hright)

theorem unwarned_recognition_samples :
    (recurring.strayEmpty = [] ∧ ¬ recurring.Generates (· ≠ .empty)
      [.nonterminal recurring.start] ["a"]) ∧
    optionalPair.strayEmpty = [] ∧ ¬ optionalPair.Paired optionalPair.start ∧
      ["a"] ∉ optionalPair.language := by
  have hrecurring := unwarned_recognition recurring (by decide)
  have hoptional := unwarned_recognition optionalPair (by decide)
  refine ⟨⟨by decide, ?_⟩, by decide, by decide, ?_⟩
  · intro hgenerates
    have hagrees := (hrecurring.1 ["a"]).mpr fun _ => .inr hgenerates
    exact absurd (hagrees.mpr mem_language_recurring) (by decide)
  · rw [← hoptional.2 (by decide)]
    decide

/-- A start symbol that is erased inside a pair: the grammar is built without a
warning, and a word of its language is not accepted. -/
theorem recurring_start_missed :
    ∃ grammar, Grammar.build ⟨"S", ["a"], ["S", "A"]⟩
        [⟨"S", ["S", "A"], .unknown⟩, ⟨"S", ["*"], .unknown⟩,
          ⟨"A", ["a"], .unknown⟩] = .ok grammar ∧
      grammar.strayEmpty = [] ∧ ["a"] ∈ grammar.language ∧
      (recognize grammar ["a"]).accepted = false :=
  ⟨recurring, by decide, by decide, mem_language_recurring, by decide⟩

end Unwarned

end Grammar

end ChomskyChart
