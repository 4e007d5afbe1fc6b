import ChomskyChart.Proofs.Redeclaration
import ChomskyChart.Proofs.Wording
import ChomskyChart.Source.Rule
import ChomskyChart.Source.Spelling

namespace ChomskyChart

section Steps

variable {ε α β : Type} {step : α → Except ε β} {elements : List α}

theorem mapM_eq_ok {image : α → β}
    (hsteps : ∀ element ∈ elements, step element = .ok (image element)) :
    elements.mapM step = .ok (elements.map image) := by
  induction elements with
  | nil => rfl
  | cons head tail ih =>
      have hhead := hsteps head List.mem_cons_self
      have htail := ih fun element helement =>
        hsteps element (List.mem_cons_of_mem _ helement)
      rw [List.mapM_cons, hhead, htail]
      rfl

theorem bind_eq_ok {first : Except ε α} {next : α → Except ε β} {image : β}
    (hsteps : first >>= next = .ok image) :
    ∃ element, first = .ok element ∧ next element = .ok image := by
  cases first with
  | error failure => cases hsteps
  | ok element => exact ⟨element, rfl, hsteps⟩

theorem bind_eq_error {first : Except ε α} {next : α → Except ε β} {failure : ε}
    (hsteps : first >>= next = .error failure) :
    first = .error failure ∨
    ∃ element, first = .ok element ∧ next element = .error failure := by
  cases first with
  | error earlier =>
      cases hsteps
      exact .inl rfl
  | ok element => exact .inr ⟨element, rfl, hsteps⟩

theorem mapM_cons_eq_ok {head : α} {tail : List α} {images : List β}
    (hsteps : (head :: tail).mapM step = .ok images) :
    ∃ image others, step head = .ok image ∧ tail.mapM step = .ok others ∧
      images = image :: others := by
  rw [List.mapM_cons] at hsteps
  obtain ⟨image, hhead, hrest⟩ := bind_eq_ok hsteps
  obtain ⟨others, htail, himages⟩ := bind_eq_ok hrest
  cases himages
  exact ⟨image, others, hhead, htail, rfl⟩

theorem mapM_eq_ok_iff {images : List β} :
    elements.mapM step = .ok images ↔
      List.Forall₂
        (fun element image => step element = .ok image) elements images := by
  apply Iff.intro
  · intro hsteps
    induction elements generalizing images with
    | nil =>
        cases hsteps
        exact .nil
    | cons head tail ih =>
        obtain ⟨image, others, hhead, htail, rfl⟩ := mapM_cons_eq_ok hsteps
        exact .cons hhead (ih htail)
  · intro hforall
    induction hforall with
    | nil => rfl
    | cons hhead _ ih =>
        rw [List.mapM_cons, hhead, ih]
        rfl

/-- The leftmost of the elements that are refused is refused for the given
reason. -/
def FailsFirst (reads : α → Except ε β → Prop) (elements : List α)
    (failure : ε) : Prop :=
  ∃ before element after, elements = before ++ element :: after ∧
    (∀ earlier ∈ before, ∃ image, reads earlier (.ok image)) ∧
    reads element (.error failure)

theorem FailsFirst.ne_nil {reads : α → Except ε β → Prop} {failure : ε}
    (hfails : FailsFirst reads elements failure) : elements ≠ [] := by
  obtain ⟨before, element, after, rfl, _, _⟩ := hfails
  simp

theorem FailsFirst.imp {reads others : α → Except ε β → Prop} {failure : ε}
    (himp : ∀ element outcome, reads element outcome → others element outcome)
    (hfails : FailsFirst reads elements failure) :
    FailsFirst others elements failure := by
  obtain ⟨before, element, after, heq, hbefore, helement⟩ := hfails
  refine ⟨before, element, after, heq, ?_, himp _ _ helement⟩
  intro earlier hmem
  obtain ⟨image, hearlier⟩ := hbefore earlier hmem
  exact ⟨image, himp _ _ hearlier⟩

theorem mapM_eq_error_iff {failure : ε} :
    elements.mapM step = .error failure ↔
      FailsFirst (fun element outcome =>
        step element = outcome) elements failure := by
  apply Iff.intro
  · intro hsteps
    induction elements with
    | nil => cases hsteps
    | cons head tail ih =>
        rw [List.mapM_cons] at hsteps
        rcases bind_eq_error hsteps with hhead | ⟨image, hhead, hrest⟩
        · exact ⟨[], head, tail, rfl, nofun, hhead⟩
        · rcases bind_eq_error hrest with htail | ⟨others, _, hlisted⟩
          · obtain ⟨before, element, after, rfl, hbefore, helement⟩ := ih htail
            exact ⟨head :: before, element, after, rfl,
              List.forall_mem_cons.mpr ⟨⟨image, hhead⟩, hbefore⟩, helement⟩
          · cases hlisted
  · intro hfails
    obtain ⟨before, element, after, rfl, hbefore, helement⟩ := hfails
    induction before with
    | nil =>
        rw [List.nil_append, List.mapM_cons, helement]
        rfl
    | cons head before ih =>
        obtain ⟨⟨image, hhead⟩, hrest⟩ := List.forall_mem_cons.mp hbefore
        rw [List.cons_append, List.mapM_cons, hhead, ih hrest]
        rfl

theorem exists_of_mapM_eq_error {failure : ε}
    (hsteps : elements.mapM step = .error failure) :
    ∃ element ∈ elements, step element = .error failure := by
  obtain ⟨_, element, _, rfl, _, helement⟩ := mapM_eq_error_iff.mp hsteps
  exact ⟨element, by simp, helement⟩

theorem ne_nil_of_mapM_eq_ok {images : List β} (hne : elements ≠ [])
    (hsteps : elements.mapM step = .ok images) : images ≠ [] := by
  cases elements with
  | nil => exact absurd rfl hne
  | cons head tail =>
      obtain ⟨_, _, _, _, rfl⟩ := mapM_cons_eq_ok hsteps
      exact List.cons_ne_nil _ _

end Steps

namespace Source.Token

structure Plain (symbol : String) : Prop where
  isWord : Text.IsWord symbol
  no_bar : '|' ∉ symbol.toList
  ne_arrow : symbol ≠ arrowText

instance (symbol : String) : Decidable (Plain symbol) :=
  decidable_of_iff (Text.IsWord symbol ∧ '|' ∉ symbol.toList ∧ symbol ≠ arrowText)
    ⟨fun hplain => ⟨hplain.1, hplain.2.1, hplain.2.2⟩,
      fun hplain => ⟨hplain.isWord, hplain.no_bar, hplain.ne_arrow⟩⟩

theorem plain_emptyMarker : Plain emptyMarker :=
  ⟨by decide, by decide, by decide⟩

def Separate (text : List Char) : Prop :=
  ∀ c ∈ text.head?, inWord c = false

theorem separate_nil : Separate [] := by
  intro c hc
  cases hc

theorem separate_space (rest : List Char) : Separate (' ' :: rest) := by
  intro c hc
  cases hc
  decide

theorem scan_bar_cons (rest : List Char) :
    scan ('|' :: rest) = bar :: scan rest := by
  rw [scan, if_pos rfl]

theorem scan_blank_cons {c : Char} (hblank : Text.isBlank c = true)
    (rest : List Char) :
    scan (c :: rest) = scan rest := by
  have hbar : c ≠ '|' := by
    intro heq
    rw [heq] at hblank
    exact absurd hblank (by decide)
  rw [scan, if_neg hbar, if_pos hblank]

theorem Separate.takeWhile {rest : List Char} (hseparate : Separate rest) :
    rest.takeWhile inWord = [] := by
  cases rest with
  | nil => rfl
  | cons c _ => simp [hseparate c rfl]

theorem Separate.dropWhile {rest : List Char} (hseparate : Separate rest) :
    rest.dropWhile inWord = rest := by
  cases rest with
  | nil => rfl
  | cons c _ => simp [hseparate c rfl]

theorem scan_word_append {symbol : String} (hword : Text.IsWord symbol)
    (hbar : '|' ∉ symbol.toList) {rest : List Char} (hseparate : Separate rest) :
    scan (symbol.toList ++ rest) = ofText symbol :: scan rest := by
  obtain ⟨c, others, hsymbol⟩ := List.exists_cons_of_ne_nil hword.toList_ne_nil
  have hinWord : ∀ other ∈ symbol.toList, inWord other = true := by
    intro other hmem
    have hne : other ≠ '|' := fun heq => hbar (heq ▸ hmem)
    simp [inWord, hword.2 other hmem, hne]
  rw [hsymbol] at hinWord
  obtain ⟨hfirst, hothers⟩ := List.forall_mem_cons.mp hinWord
  simp only [inWord, Bool.and_eq_true, Bool.not_eq_true', bne_iff_ne] at hfirst
  rw [hsymbol, List.cons_append, scan, if_neg hfirst.2, if_neg (by simp [hfirst.1]),
    List.takeWhile_append_of_pos hothers, List.dropWhile_append_of_pos hothers,
    hseparate.takeWhile, hseparate.dropWhile, List.append_nil, ← hsymbol,
    String.ofList_toList]

theorem Plain.scan_append {symbol : String} (hplain : Plain symbol)
    {rest : List Char} (hseparate : Separate rest) :
    scan (symbol.toList ++ rest) = word symbol :: scan rest := by
  rw [scan_word_append hplain.isWord hplain.no_bar hseparate, ofText,
    if_neg hplain.ne_arrow]

theorem word?_eq_unexpectedArrow {token : Token} {fault : SourceFault}
    (hfault : token.word? = .error fault) : fault = .unexpectedArrow := by
  cases token with
  | arrow =>
      cases hfault
      rfl
  | bar =>
      cases hfault
      rfl
  | word text => cases hfault

end Source.Token

open Source (Token)

namespace Alternative

def tokens (alternative : Alternative) : List Token :=
  alternative.rightSide.map .word

theorem tokens_ne_nil (alternative : Alternative) : alternative.tokens ≠ [] := by
  cases alternative with
  | terminal symbol => simp [tokens, rightSide]
  | pair left right => simp [tokens, rightSide]
  | empty => simp [tokens, rightSide]

theorem bar_not_mem_tokens (alternative : Alternative) :
    .bar ∉ alternative.tokens := by
  simp [tokens]

theorem scan_text_append {alternative : Alternative}
    (hplain : ∀ symbol ∈ alternative.rightSide, Token.Plain symbol)
    {rest : List Char} (hseparate : Token.Separate rest) :
    Token.scan (alternative.text.toList ++ rest) =
      alternative.tokens ++ Token.scan rest := by
  cases alternative with
  | terminal symbol =>
      exact (hplain symbol List.mem_cons_self).scan_append hseparate
  | pair left right =>
      have hleft := hplain left List.mem_cons_self
      have hright := hplain right (List.mem_cons_of_mem _ List.mem_cons_self)
      have htext : (pair left right).text.toList ++ rest =
          left.toList ++ ' ' :: (right.toList ++ rest) := by
        simp [text]
      rw [htext, hleft.scan_append (Token.separate_space _),
        Token.scan_blank_cons (by decide), hright.scan_append hseparate]
      rfl
  | empty => exact Token.plain_emptyMarker.scan_append hseparate

theorem scan_texts {alternatives : List Alternative}
    (hplain : ∀ alternative ∈ alternatives, ∀ symbol ∈ alternative.rightSide,
      Token.Plain symbol) :
    Token.scan (" | ".intercalate (alternatives.map text)).toList =
      [Token.bar].intercalate (alternatives.map tokens) := by
  induction alternatives with
  | nil => simp [Token.scan]
  | cons alternative rest ih =>
      have hhead := hplain alternative List.mem_cons_self
      have hrest :=
        ih fun other hother => hplain other (List.mem_cons_of_mem _ hother)
      cases rest with
      | nil =>
          have hscan := scan_text_append hhead Token.separate_nil
          simpa [Token.scan] using hscan
      | cons next others =>
          have htext : (" | ".intercalate
                ((alternative :: next :: others).map text)).toList =
              alternative.text.toList ++ ' ' :: '|' :: ' ' ::
                (" | ".intercalate ((next :: others).map text)).toList := by
            simp
          rw [htext, scan_text_append hhead (Token.separate_space _),
            Token.scan_blank_cons (by decide), Token.scan_bar_cons,
            Token.scan_blank_cons (by decide), hrest]
          simp [List.intercalate_cons_cons]

end Alternative

namespace Vocabulary

variable {vocabulary : Vocabulary} {symbol : String} {alternative : Alternative}
  {alternatives : List Alternative}

theorem resolve_terminal (hterminal : symbol ∈ vocabulary.terminals) :
    vocabulary.resolve symbol = .ok [symbol] :=
  if_pos (.inr hterminal)

theorem resolve_emptyMarker (vocabulary : Vocabulary) :
    vocabulary.resolve emptyMarker = .ok [emptyMarker] :=
  if_pos (.inl rfl)

theorem Shapes.alternativeOf_tokens
    (hshapes : vocabulary.Shapes alternative.rightSide alternative) :
    vocabulary.alternativeOf alternative.tokens = .ok alternative.rightSide := by
  cases alternative with
  | terminal symbol =>
      cases hshapes with
      | terminal hterminal _ => exact resolve_terminal hterminal
  -- two words are not resolved
  | pair left right => rfl
  | empty => exact resolve_emptyMarker vocabulary

theorem alternativesOf_arrow {tokens : List Token} (hne : tokens ≠ []) :
    vocabulary.alternativesOf (.arrow :: tokens) =
      (tokens.splitOn .bar).mapM vocabulary.alternativeOf := by
  cases tokens with
  | nil => exact absurd rfl hne
  | cons token rest => rfl

theorem toList_productionLine (symbol : String) (alternatives : List Alternative) :
    (Layout.productionLine symbol alternatives).toList =
      symbol.toList ++ ' ' :: (Token.arrowText.toList ++ ' ' ::
        (" | ".intercalate (alternatives.map Alternative.text)).toList) := by
  simp [Layout.productionLine, Token.arrowText]

theorem isArrowForm_productionLine (harrow : Token.arrowText ∉ vocabulary.terminals)
    (hsymbol : Text.IsWord symbol) :
    vocabulary.isArrowForm (Layout.productionLine symbol alternatives).toList =
      true := by
  rw [isArrowForm, toList_productionLine,
    Text.symbols_word_append hsymbol (by decide),
    Text.symbols_word_append (by decide) (by decide)]
  simp [harrow]

theorem scan_productionLine (hsymbol : Token.Plain symbol)
    (hplain : ∀ alternative ∈ alternatives, ∀ member ∈ alternative.rightSide,
      Token.Plain member) :
    Token.scan (Layout.productionLine symbol alternatives).toList =
      .word symbol :: .arrow ::
        [Token.bar].intercalate (alternatives.map Alternative.tokens) := by
  rw [toList_productionLine, hsymbol.scan_append (Token.separate_space _),
    Token.scan_blank_cons (by decide),
    Token.scan_word_append (by decide) (by decide) (Token.separate_space _),
    Token.scan_blank_cons (by decide), Alternative.scan_texts hplain]
  rfl

theorem splitOn_tokens (hne : alternatives ≠ []) :
    ([Token.bar].intercalate (alternatives.map Alternative.tokens)).splitOn .bar =
      alternatives.map Alternative.tokens := by
  apply List.splitOn_intercalate
  · intro tokens hmem
    obtain ⟨alternative, _, rfl⟩ := List.mem_map.mp hmem
    exact alternative.bar_not_mem_tokens
  · simpa using hne

theorem intercalate_tokens_ne_nil (hne : alternatives ≠ []) :
    [Token.bar].intercalate (alternatives.map Alternative.tokens) ≠ [] := by
  intro hnil
  have hsplit := splitOn_tokens hne
  rw [hnil, List.splitOn_nil] at hsplit
  obtain ⟨alternative, _, htokens⟩ := List.map_eq_singleton_iff.mp hsplit.symm
  exact alternative.tokens_ne_nil htokens

theorem lineRule_productionLine (harrow : Token.arrowText ∉ vocabulary.terminals)
    (hsymbol : Token.Plain symbol) (hne : alternatives ≠ [])
    (hplain : ∀ alternative ∈ alternatives, ∀ member ∈ alternative.rightSide,
      Token.Plain member)
    (hshapes : ∀ alternative ∈ alternatives,
      vocabulary.Shapes alternative.rightSide alternative) :
    vocabulary.lineRule (Layout.productionLine symbol alternatives).toList =
      .ok ⟨symbol, alternatives.map Alternative.rightSide⟩ := by
  have hread : vocabulary.alternativesOf
      (.arrow :: [Token.bar].intercalate (alternatives.map Alternative.tokens)) =
        .ok (alternatives.map Alternative.rightSide) := by
    rw [alternativesOf_arrow (intercalate_tokens_ne_nil hne), splitOn_tokens hne,
      List.mapM_map]
    exact mapM_eq_ok fun alternative hmem =>
      (hshapes alternative hmem).alternativeOf_tokens
  rw [lineRule, lineTokens, isArrowForm_productionLine harrow hsymbol.isWord,
    if_pos rfl, scan_productionLine hsymbol hplain, ruleOf, hread]
  rfl

structure CommaPair (word left right : String) : Prop where
  left_part : left ≠ "" ∧ ',' ∉ left.toList
  right_part : right ≠ "" ∧ ',' ∉ right.toList
  joined : left ++ "," ++ right = word

section CommaPair

variable {word left right : String}

theorem CommaPair.toList_eq (hpair : CommaPair word left right) :
    word.toList = left.toList ++ ',' :: right.toList := by
  simp [← hpair.joined]

theorem CommaPair.comma_mem (hpair : CommaPair word left right) :
    ',' ∈ word.toList := by
  simp [hpair.toList_eq]

theorem CommaPair.commaPair_eq (hpair : CommaPair word left right) :
    commaPair word = .ok [left, right] := by
  rw [commaPair, hpair.toList_eq,
    List.splitOn_append_cons_self_of_not_mem hpair.left_part.2,
    List.splitOn_eq_singleton hpair.right_part.2]
  simp [hpair.left_part.1, hpair.right_part.1]

theorem malformedPair_of_commaPair {fault : SourceFault}
    (hread : commaPair word = .error fault) : fault = .malformedPair word := by
  unfold commaPair at hread
  split at hread
  · split at hread
    · cases hread
      rfl
    · cases hread
  · cases hread
    rfl

theorem resolve_comma (hmarker : word ≠ emptyMarker)
    (hterminal : word ∉ vocabulary.terminals)
    (hcomma : ',' ∈ word.toList) : vocabulary.resolve word = commaPair word := by
  rw [resolve, if_neg (not_or.mpr ⟨hmarker, hterminal⟩), if_pos hcomma]

theorem CommaPair.resolve_eq (hpair : CommaPair word left right)
    (hterminal : word ∉ vocabulary.terminals) :
    vocabulary.resolve word = .ok [left, right] := by
  have hmarker : word ≠ emptyMarker := by
    intro heq
    have hcomma := hpair.comma_mem
    rw [heq] at hcomma
    exact absurd hcomma (by decide)
  rw [resolve_comma hmarker hterminal hpair.comma_mem, hpair.commaPair_eq]

end CommaPair

/-- As one word, an alternative over the vocabulary names its symbols. A pair
does so unless its text is a terminal, or has further commas in it. -/
theorem Shapes.resolve_wordText
    (hshapes : vocabulary.Shapes alternative.rightSide alternative)
    (hnonterminals :
      ∀ symbol ∈ vocabulary.nonterminals, symbol ≠ "" ∧ ',' ∉ symbol.toList)
    (hterminal : ∀ left right, alternative = .pair left right →
      left ++ "," ++ right ∉ vocabulary.terminals) :
    vocabulary.resolve alternative.wordText = .ok alternative.rightSide := by
  cases alternative with
  | terminal symbol =>
      cases hshapes with
      | terminal hterminal _ => exact resolve_terminal hterminal
  | pair left right =>
      cases hshapes with
      | pair hleft hright =>
          have hpair : CommaPair (left ++ "," ++ right) left right :=
            ⟨hnonterminals left hleft, hnonterminals right hright, rfl⟩
          exact hpair.resolve_eq (hterminal left right rfl)
  | empty => exact resolve_emptyMarker vocabulary

theorem symbols_literalLine (hsymbol : Text.IsWord symbol)
    (hwords : ∀ alternative ∈ alternatives, Text.IsWord alternative.wordText) :
    Text.symbols (Grammar.literalLine symbol alternatives).toList =
      symbol :: alternatives.map Alternative.wordText := by
  apply Text.symbols_intercalate
  intro text hmem
  rcases List.mem_cons.mp hmem with rfl | htext
  · exact hsymbol
  · obtain ⟨alternative, halternative, rfl⟩ := List.mem_map.mp htext
    exact hwords alternative halternative

/-- Only a terminal is written as an arrow, and it turns off the arrow form. -/
theorem Shapes.wordText_ne_arrow
    (hshapes : vocabulary.Shapes alternative.rightSide alternative)
    (harrow : Token.arrowText ∉ vocabulary.terminals) :
    alternative.wordText ≠ Token.arrowText := by
  intro heq
  cases alternative with
  | terminal symbol =>
      cases hshapes with
      | terminal hterminal _ =>
          have hsymbol : symbol = Token.arrowText := heq
          exact harrow (hsymbol ▸ hterminal)
  | pair left right =>
      have hcomma : ',' ∈ (Alternative.pair left right).wordText.toList := by
        simp [Alternative.wordText]
      rw [heq] at hcomma
      exact absurd hcomma (by decide)
  | empty => exact absurd heq (by decide)

theorem isArrowForm_literalLine (hsymbol : Text.IsWord symbol)
    (hwords : ∀ alternative ∈ alternatives, Text.IsWord alternative.wordText)
    (hshapes : ∀ alternative ∈ alternatives,
      vocabulary.Shapes alternative.rightSide alternative) :
    vocabulary.isArrowForm (Grammar.literalLine symbol alternatives).toList =
      false := by
  rw [isArrowForm, symbols_literalLine hsymbol hwords, Bool.and_eq_false_imp]
  intro hsecond
  by_contra harrow
  have hundeclared : Token.arrowText ∉ vocabulary.terminals := by simpa using harrow
  cases alternatives with
  | nil => simp at hsecond
  | cons alternative rest =>
      have hne :=
        (hshapes alternative List.mem_cons_self).wordText_ne_arrow hundeclared
      simp [hne] at hsecond

theorem alternativesOf_words {texts : List String} (hne : texts ≠ []) :
    vocabulary.alternativesOf (texts.map .word) =
      texts.mapM vocabulary.resolve := by
  cases texts with
  | nil => exact absurd rfl hne
  | cons text rest =>
      change ((text :: rest).map Token.word).mapM
        (fun token => vocabulary.alternativeOf [token]) = _
      rw [List.mapM_map]
      rfl

theorem lineRule_literalLine (hsymbol : Text.IsWord symbol)
    (hne : alternatives ≠ [])
    (hwords : ∀ alternative ∈ alternatives, Text.IsWord alternative.wordText)
    (hshapes : ∀ alternative ∈ alternatives,
      vocabulary.Shapes alternative.rightSide alternative)
    (hresolve : ∀ alternative ∈ alternatives,
      vocabulary.resolve alternative.wordText = .ok alternative.rightSide) :
    vocabulary.lineRule (Grammar.literalLine symbol alternatives).toList =
      .ok ⟨symbol, alternatives.map Alternative.rightSide⟩ := by
  have hread : vocabulary.alternativesOf
      ((alternatives.map Alternative.wordText).map .word) =
        .ok (alternatives.map Alternative.rightSide) := by
    rw [alternativesOf_words (by simpa using hne), List.mapM_map]
    exact mapM_eq_ok hresolve
  have hliteral := isArrowForm_literalLine hsymbol hwords hshapes
  rw [lineRule, lineTokens, hliteral, if_neg Bool.false_ne_true,
    symbols_literalLine hsymbol hwords, List.map_cons, ruleOf, hread]
  rfl

end Vocabulary

end ChomskyChart
