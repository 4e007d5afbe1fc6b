import ChomskyChart.Grammar.Derivation
import ChomskyChart.Grammar.Language

/-!
Rewriting by those alternatives of a grammar that are admitted, at any place and
in any order. What a form generates falls into parts, one for each of its
symbols, so a property of symbols and tokens that the admitted alternatives
preserve holds of all that is generated (`Generates.spells`).
-/

namespace ChomskyChart.Grammar

/-- A nonterminal somewhere in a form gives way to one of its alternatives. -/
def Rewrites (grammar : Grammar) (admitted : Alternative → Prop)
    (form next : List (Symbol String String)) : Prop :=
  ∃ symbol, ∃ alternative ∈ grammar.alternatives symbol,
    admitted alternative ∧
      (ContextFreeRule.mk symbol alternative.output).Rewrites form next

def Generates (grammar : Grammar) (admitted : Alternative → Prop)
    (form : List (Symbol String String)) (tokens : List String) : Prop :=
  Relation.ReflTransGen (grammar.Rewrites admitted) form (tokens.map .terminal)

section Language

variable {grammar : Grammar} {tokens : List String}

theorem produces_iff_rewrites {form next : List (Symbol String String)} :
    grammar.contextFree.Produces form next ↔
      grammar.Rewrites (fun _ => True) form next := by
  apply Iff.intro
  · intro hproduces
    obtain ⟨rule, hrule, hrewrites⟩ := hproduces
    obtain ⟨alternative, halternative, houtput⟩ := mem_contextFree_rules.mp hrule
    refine ⟨rule.input, alternative, halternative, trivial, ?_⟩
    rw [← houtput]
    exact hrewrites
  · intro hrewrites
    obtain ⟨symbol, alternative, halternative, _, hrewrites⟩ := hrewrites
    exact ⟨_, mem_contextFree_rules.mpr ⟨alternative, halternative, rfl⟩, hrewrites⟩

theorem mem_language_iff_generates :
    tokens ∈ grammar.language ↔
      grammar.Generates (fun _ => True) [.nonterminal grammar.start] tokens := by
  have hproduces : grammar.contextFree.Produces =
      grammar.Rewrites (fun _ => True) := by
    funext form next
    exact propext produces_iff_rewrites
  unfold Generates
  rw [← hproduces]
  exact Iff.rfl

end Language

variable {grammar : Grammar} {admitted : Alternative → Prop}

theorem Rewrites.append_left {form next : List (Symbol String String)}
    (hrewrites : grammar.Rewrites admitted form next)
    (before : List (Symbol String String)) :
    grammar.Rewrites admitted (before ++ form) (before ++ next) := by
  obtain ⟨symbol, alternative, halternative, hadmitted, hrule⟩ := hrewrites
  exact ⟨symbol, alternative, halternative, hadmitted, hrule.append_left before⟩

theorem Rewrites.append_right {form next : List (Symbol String String)}
    (hrewrites : grammar.Rewrites admitted form next)
    (after : List (Symbol String String)) :
    grammar.Rewrites admitted (form ++ after) (next ++ after) := by
  obtain ⟨symbol, alternative, halternative, hadmitted, hrule⟩ := hrewrites
  exact ⟨symbol, alternative, halternative, hadmitted, hrule.append_right after⟩

theorem Generates.append {first second : List (Symbol String String)}
    {firstTokens secondTokens : List String}
    (hfirst : grammar.Generates admitted first firstTokens)
    (hsecond : grammar.Generates admitted second secondTokens) :
    grammar.Generates admitted (first ++ second) (firstTokens ++ secondTokens) := by
  rw [Generates, List.map_append]
  have hleft : Relation.ReflTransGen (grammar.Rewrites admitted)
      (first ++ second) (firstTokens.map .terminal ++ second) :=
    hfirst.lift (· ++ second) fun _ _ hstep => hstep.append_right second
  have hright : Relation.ReflTransGen (grammar.Rewrites admitted)
      (firstTokens.map .terminal ++ second)
      (firstTokens.map .terminal ++ secondTokens.map .terminal) :=
    hsecond.lift (firstTokens.map .terminal ++ ·)
      fun _ _ hstep => hstep.append_left _
  exact hleft.trans hright

theorem Generates.of_alternative {symbol : String} {alternative : Alternative}
    {tokens : List String}
    (halternative : alternative ∈ grammar.alternatives symbol)
    (hadmitted : admitted alternative)
    (hgenerates : grammar.Generates admitted alternative.output tokens) :
    grammar.Generates admitted [.nonterminal symbol] tokens :=
  .head ⟨symbol, alternative, halternative, hadmitted,
    ContextFreeRule.Rewrites.input_output⟩ hgenerates

theorem Generates.mono {more : Alternative → Prop}
    {form : List (Symbol String String)} {tokens : List String}
    (hmore : ∀ alternative, admitted alternative → more alternative)
    (hgenerates : grammar.Generates admitted form tokens) :
    grammar.Generates more form tokens := by
  refine Relation.ReflTransGen.mono ?_ form (tokens.map .terminal) hgenerates
  intro form next hstep
  obtain ⟨symbol, alternative, halternative, hadmitted, hrule⟩ := hstep
  exact ⟨symbol, alternative, halternative, hmore alternative hadmitted, hrule⟩

/-- The tokens fall into parts, one for each symbol of the form: a terminal is
its own part, and a nonterminal has the property together with its part. -/
def Spells (property : String → List String → Prop) :
    List (Symbol String String) → List String → Prop
  | [], tokens => tokens = []
  | .terminal token :: form, tokens =>
      ∃ rest, tokens = token :: rest ∧ Spells property form rest
  | .nonterminal symbol :: form, tokens =>
      ∃ part rest, tokens = part ++ rest ∧ property symbol part ∧
        Spells property form rest

section Spells

variable {property : String → List String → Prop}

theorem spells_terminals (tokens : List String) :
    Spells property (tokens.map .terminal) tokens := by
  induction tokens with
  | nil => rfl
  | cons token tokens ih => exact ⟨tokens, rfl, ih⟩

theorem spells_append_iff {first second : List (Symbol String String)}
    {tokens : List String} :
    Spells property (first ++ second) tokens ↔
      ∃ firstTokens secondTokens, tokens = firstTokens ++ secondTokens ∧
        Spells property first firstTokens ∧
        Spells property second secondTokens := by
  induction first generalizing tokens with
  | nil => simp [Spells]
  | cons symbol first ih =>
      cases symbol with
      | terminal token =>
          simp only [List.cons_append, Spells, ih]
          apply Iff.intro
          · intro hspells
            obtain ⟨_, rfl, left, right, rfl, hleft, hright⟩ := hspells
            exact ⟨token :: left, right, rfl, ⟨left, rfl, hleft⟩, hright⟩
          · intro hspells
            obtain ⟨_, right, rfl, ⟨left, rfl, hleft⟩, hright⟩ := hspells
            exact ⟨left ++ right, rfl, left, right, rfl, hleft, hright⟩
      | nonterminal symbol =>
          simp only [List.cons_append, Spells, ih]
          apply Iff.intro
          · intro hspells
            obtain ⟨part, _, rfl, hpart, left, right, rfl, hleft, hright⟩ := hspells
            exact ⟨part ++ left, right, (List.append_assoc ..).symm,
              ⟨part, left, rfl, hpart, hleft⟩, hright⟩
          · intro hspells
            obtain ⟨_, right, rfl, ⟨part, left, rfl, hpart, hleft⟩, hright⟩ :=
              hspells
            exact ⟨part, left ++ right, List.append_assoc .., hpart,
              left, right, rfl, hleft, hright⟩

@[simp] theorem spells_nonterminal_iff {symbol : String} {tokens : List String} :
    Spells property [.nonterminal symbol] tokens ↔ property symbol tokens := by
  simp [Spells]

theorem spells_output_iff {alternative : Alternative} {tokens : List String} :
    Spells property alternative.output tokens ↔
      match alternative with
      | .terminal token => tokens = [token]
      | .pair left right => ∃ first second, tokens = first ++ second ∧
          property left first ∧ property right second
      | .empty => tokens = [] := by
  cases alternative with
  | terminal token => simp [Alternative.output, Spells]
  | pair left right => simp [Alternative.output, Spells]
  | empty => simp [Alternative.output, Spells]

/-- Every admitted alternative of a symbol hands the property on to it. -/
def Closed (grammar : Grammar) (admitted : Alternative → Prop)
    (property : String → List String → Prop) : Prop :=
  ∀ symbol, ∀ alternative ∈ grammar.alternatives symbol, admitted alternative →
    ∀ tokens, Spells property alternative.output tokens → property symbol tokens

theorem Rewrites.spells {form next : List (Symbol String String)}
    {tokens : List String} (hclosed : grammar.Closed admitted property)
    (hstep : grammar.Rewrites admitted form next)
    (hspells : Spells property next tokens) : Spells property form tokens := by
  obtain ⟨symbol, alternative, halternative, hadmitted, hrule⟩ := hstep
  obtain ⟨before, after, rfl, rfl⟩ := hrule.exists_parts
  obtain ⟨_, last, rfl, hfront, hlast⟩ := spells_append_iff.mp hspells
  obtain ⟨first, part, rfl, hfirst, hpart⟩ := spells_append_iff.mp hfront
  have hsymbol : property symbol part :=
    hclosed symbol alternative halternative hadmitted part hpart
  apply spells_append_iff.mpr
  refine ⟨first ++ part, last, rfl, spells_append_iff.mpr ?_, hlast⟩
  exact ⟨first, part, rfl, hfirst, spells_nonterminal_iff.mpr hsymbol⟩

theorem Generates.spells {form : List (Symbol String String)}
    {tokens : List String} (hclosed : grammar.Closed admitted property)
    (hgenerates : grammar.Generates admitted form tokens) :
    Spells property form tokens := by
  -- From the last step back to the first: the tokens spell every form on the way.
  induction hgenerates using Relation.ReflTransGen.head_induction_on with
  | refl => exact spells_terminals tokens
  | head hstep _ ih => exact hstep.spells hclosed ih

theorem Generates.has_property {symbol : String} {tokens : List String}
    (hclosed : grammar.Closed admitted property)
    (hgenerates : grammar.Generates admitted [.nonterminal symbol] tokens) :
    property symbol tokens :=
  spells_nonterminal_iff.mp (hgenerates.spells hclosed)

end Spells

/-- Derivation through terminals and pairs is rewriting that never erases. -/
theorem generates_iff_derives {symbol : String} {tokens : List String} :
    grammar.Generates (· ≠ .empty) [.nonterminal symbol] tokens ↔
      grammar.Derives symbol tokens := by
  apply Iff.intro
  · intro hgenerates
    apply hgenerates.has_property
    intro symbol alternative halternative hadmitted tokens hspells
    rw [spells_output_iff] at hspells
    cases alternative with
    | terminal token =>
        subst tokens
        exact .terminal halternative
    | pair left right =>
        obtain ⟨first, second, rfl, hfirst, hsecond⟩ := hspells
        exact .pair halternative hfirst hsecond
    | empty => exact absurd rfl hadmitted
  · intro hderives
    induction hderives with
    | terminal hterminal =>
        exact .of_alternative hterminal (by simp) .refl
    | pair hpair _ _ ihFirst ihSecond =>
        exact .of_alternative hpair (by simp) (ihFirst.append ihSecond)

end ChomskyChart.Grammar
