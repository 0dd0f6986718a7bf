import PromptMarkup.Proofs.NestingDepth

/-!
# Words of brackets

Which texts are nested is also said by a grammar, which knows nothing of a stack: a word of brackets
is empty, or a word in a pair of brackets of one type with another word behind it.  The stack of the
scan relates the two: its top is the type of the innermost open bracket of what was read, and behind
that bracket there is a word.  So where a span closes, where it breaks off and that it stays open
can be said by the grammar alone, and the search for a closer, which keeps the closers it expects on
a stack, never finds that stack empty.

Main statements:

- {lit}`nested_iff_bracketWord`: a text is nested if its brackets are a word.
- {lit}`isInnermost_of_nest?`: the top of the stack is the innermost open bracket.
- {lit}`searchCloser_eq`: the search does what {lit}`closing` says and never finds its stack empty.
- {lit}`closing_isExact`: the three outcomes of the search in terms of words.
-/

namespace PromptMarkup

/-! ## The grammar -/

/-- A word of properly nested brackets, of both types together. -/
inductive BracketWord : Text → Prop where
  | nil : BracketWord []
  | span (type : BracketType) {inside rest : Text} : BracketWord inside → BracketWord rest →
    BracketWord (type.opener :: inside ++ type.closer :: rest)

/-- The brackets of a text, in their order. -/
def brackets (text : Text) : Text :=
  text.filter isBracket

/-- The brackets of a text are brackets. -/
theorem isBracket_of_mem_brackets {text : Text} {c : Char} (h : c ∈ brackets text) :
    isBracket c = true :=
  (List.mem_filter.mp h).2

/-- A word of brackets is nested. -/
theorem BracketWord.nested {word : Text} (h : BracketWord word) : Nested word := by
  induction h with
  | nil => rfl
  | span type _ _ hinside hrest =>
    have hspan := (hinside.enclose type).append hrest
    rwa [List.append_assoc] at hspan

/-- A nested text that begins with a bracket begins with a span, behind which it is nested again. -/
theorem Nested.exists_span {c : Char} {rest : Text} (h : Nested (c :: rest))
    (hc : isBracket c = true) :
    ∃ (type : BracketType) (inside after : Text), c = type.opener ∧
      rest = inside ++ type.closer :: after ∧ Nested inside ∧ Nested after := by
  cases hopen : BracketType.ofOpener? c with
  | none =>
    cases hclose : BracketType.ofCloser? c with
    | none => simp [isBracket, hopen, hclose] at hc
    | some type =>
      rw [Nested, PromptMarkup.nest?, nestStep?, hopen, hclose] at h
      cases h
  | some type =>
    have hc := BracketType.eq_opener_of_ofOpener? hopen
    subst hc
    cases hclosing : closing type [] rest with
    | unclosed => exact absurd hclosing (h.closesSpans type rest (List.suffix_refl _))
    | mismatched through after =>
      have hbefore : Nested ([] ++ type.opener :: rest) := h
      exact absurd hclosing (hbefore.closing_ne_mismatched _ _)
    | matched inside after =>
      rcases closing_eq_matched_iff.mp hclosing with ⟨hrest, hinside⟩
      refine ⟨type, inside, after, rfl, hrest, hinside, ?_⟩
      have hspan := hinside.enclose type
      have hwhole : type.opener :: rest = type.opener :: inside ++ [type.closer] ++ after := by
        simp [hrest]
      rwa [Nested, hwhole, nest?_append, hspan] at h

/-- Nested brackets are a word. -/
theorem Nested.bracketWord {word : Text} (h : Nested word)
    (hbrackets : ∀ c ∈ word, isBracket c = true) : BracketWord word := by
  -- The word after the first span is no part of the rest, so the induction is on the length.
  induction hlength : word.length using Nat.strong_induction_on generalizing word with
  | _ length ih =>
    cases word with
    | nil => exact .nil
    | cons c rest =>
      rcases List.forall_mem_cons.mp hbrackets with ⟨hc, hrest⟩
      rcases h.exists_span hc with ⟨type, inside, after, rfl, rfl, hinside, hafter⟩
      simp only [List.length_cons, List.length_append] at hlength
      refine .span type (ih inside.length (by omega) hinside (fun c hmem => ?_) rfl)
        (ih after.length (by omega) hafter (fun c hmem => ?_) rfl)
      · exact hrest c (List.mem_append_left _ hmem)
      · exact hrest c (List.mem_append_right _ (List.mem_cons_of_mem _ hmem))

/-- A text is nested if and only if its brackets are a word. -/
theorem nested_iff_bracketWord {text : Text} : Nested text ↔ BracketWord (brackets text) := by
  have hbrackets : Nested text ↔ Nested (brackets text) := by
    rw [Nested, Nested, brackets, nest?_filter]
  rw [hbrackets]
  exact ⟨fun h => h.bracketWord fun _ => isBracket_of_mem_brackets, BracketWord.nested⟩

/-! ## Starts of words -/

/-- What is open is closed by its closers, the innermost first. -/
theorem nest?_closers (above : List BracketType) :
    nest? above (above.map BracketType.closer) = some [] := by
  induction above with
  | nil => rfl
  | cons top above ih =>
    have hclose : nestStep? (top :: above) top.closer = some above := by simp [nestStep?]
    rw [List.map_cons, nest?, hclose, Option.bind_some, ih]

/-- A closing bracket is a bracket. -/
theorem isBracket_closer (type : BracketType) : isBracket type.closer = true := by
  simp [isBracket]

/-- The brackets of a text are the start of a word if and only if the scan gets through it. -/
theorem exists_bracketWord_append_iff {text : Text} :
    (∃ rest, BracketWord (brackets text ++ rest)) ↔ ∃ above, nest? [] text = some above := by
  constructor
  · rintro ⟨rest, hword⟩
    have hnested := hword.nested
    rw [Nested, nest?_append, brackets, nest?_filter] at hnested
    rcases Option.bind_eq_some_iff.mp hnested with ⟨above, habove, -⟩
    exact ⟨above, habove⟩
  · rintro ⟨above, habove⟩
    refine ⟨above.map BracketType.closer, Nested.bracketWord ?_ fun c hc => ?_⟩
    · rw [Nested, nest?_append, brackets, nest?_filter, habove]
      exact nest?_closers above
    · rcases List.mem_append.mp hc with hc | hc
      · exact isBracket_of_mem_brackets hc
      · rcases List.mem_map.mp hc with ⟨type, -, rfl⟩
        exact isBracket_closer type

/-- The scan gets through the start of what it gets through. -/
theorem exists_nest?_of_prefix {above last : List BracketType} {start text : Text}
    (h : nest? above text = some last) (hstart : start <+: text) :
    ∃ middle, nest? above start = some middle := by
  rcases hstart with ⟨rest, rfl⟩
  rw [nest?_append] at h
  rcases Option.bind_eq_some_iff.mp h with ⟨middle, hmiddle, -⟩
  exact ⟨middle, hmiddle⟩

/-! ## Innermost open brackets -/

/-- The innermost open bracket of a text is of a type: behind it there is a word. -/
def IsInnermost (type : BracketType) (text : Text) : Prop :=
  ∃ outside inside, text = outside ++ type.opener :: inside ∧ BracketWord (brackets inside)

/-- A character opens a bracket, or is none, or closes the innermost open one. -/
theorem nestStep?_cases {above next : List BracketType} {c : Char}
    (h : nestStep? above c = some next) :
    (∃ type : BracketType, c = type.opener ∧ next = type :: above) ∨
      (isBracket c = false ∧ next = above) ∨
      ∃ type : BracketType, c = type.closer ∧ above = type :: next := by
  unfold nestStep? at h
  cases hopen : BracketType.ofOpener? c with
  | some type =>
    simp only [hopen, Option.some.injEq] at h
    exact Or.inl ⟨type, BracketType.eq_opener_of_ofOpener? hopen, h.symm⟩
  | none =>
    cases hclose : BracketType.ofCloser? c with
    | none =>
      simp only [hopen, hclose, Option.some.injEq] at h
      exact Or.inr (Or.inl ⟨by simp [isBracket, hopen, hclose], h.symm⟩)
    | some type =>
      cases above with
      | nil => simp [hopen, hclose] at h
      | cons top above =>
        simp only [hopen, hclose, Option.ite_none_right_eq_some, Option.some.injEq] at h
        rcases h with ⟨rfl, rfl⟩
        exact Or.inr (Or.inr ⟨type, BracketType.eq_closer_of_ofCloser? hclose, rfl⟩)

/-- A character behind which the scan does not go on closes another type than that of the innermost
open bracket, if one is open. -/
theorem nestStep?_eq_none {above : List BracketType} {c : Char} (h : nestStep? above c = none) :
    ∃ closed : BracketType, c = closed.closer ∧
      ∀ top outer, above = top :: outer → closed ≠ top := by
  unfold nestStep? at h
  cases hopen : BracketType.ofOpener? c with
  | some type => simp [hopen] at h
  | none =>
    cases hclose : BracketType.ofCloser? c with
    | none => simp [hopen, hclose] at h
    | some closed =>
      refine ⟨closed, BracketType.eq_closer_of_ofCloser? hclose, ?_⟩
      rintro top outer rfl rfl
      simp [hopen, hclose] at h

/-- The top of the stack of the scan is the innermost open bracket, and the rest of the stack is
what was open before it. -/
theorem exists_innermost {text : Text} {top : BracketType} {outer : List BracketType}
    (h : nest? [] text = some (top :: outer)) :
    ∃ outside inside, text = outside ++ top.opener :: inside ∧ nest? [] outside = some outer ∧
      Nested inside := by
  -- A closer at the end answers a bracket further ahead, so the induction is on the length.
  induction hlength : text.length using Nat.strong_induction_on generalizing text top outer with
  | _ length ih =>
    rcases List.eq_nil_or_concat text with rfl | ⟨before, c, rfl⟩
    · cases h
    · rw [List.concat_eq_append] at hlength h ⊢
      rw [List.length_append, List.length_singleton] at hlength
      rw [nest?_append] at h
      rcases Option.bind_eq_some_iff.mp h with ⟨above, habove, hend⟩
      rcases Option.bind_eq_some_iff.mp hend with ⟨next, hstep, hnext⟩
      cases hnext
      rcases nestStep?_cases hstep with ⟨type, rfl, hopened⟩ | ⟨hplain, rfl⟩ | ⟨type, rfl, rfl⟩
      · cases hopened
        exact ⟨before, [], rfl, habove, rfl⟩
      · rcases ih before.length (by omega) habove rfl with
          ⟨outside, inside, rfl, houtside, hinside⟩
        refine ⟨outside, inside ++ [c], by simp, houtside, hinside.append (nested_of_plain ?_)⟩
        exact List.forall_mem_singleton.mpr hplain
      · rcases ih before.length (by omega) habove rfl with
          ⟨middle, within, rfl, hmiddle, hwithin⟩
        rw [List.length_append, List.length_cons] at hlength
        rcases ih middle.length (by omega) hmiddle rfl with
          ⟨outside, inside, rfl, houtside, hinside⟩
        exact ⟨outside, inside ++ (type.opener :: within ++ [type.closer]), by simp, houtside,
          hinside.append (hwithin.enclose type)⟩

/-- The top of the stack of the scan is the innermost open bracket. -/
theorem isInnermost_of_nest? {text : Text} {top : BracketType} {outer : List BracketType}
    (h : nest? [] text = some (top :: outer)) : IsInnermost top text := by
  rcases exists_innermost h with ⟨outside, inside, htext, -, hinside⟩
  exact ⟨outside, inside, htext, nested_iff_bracketWord.mp hinside⟩

/-- Where the scan gets through a text, the innermost open bracket is on top of its stack. -/
theorem IsInnermost.exists_nest? {type : BracketType} {text : Text} {above : List BracketType}
    (h : IsInnermost type text) (habove : nest? [] text = some above) :
    ∃ outer, above = type :: outer := by
  rcases h with ⟨outside, inside, rfl, hword⟩
  have hopen : ∀ outer, nestStep? outer type.opener = some (type :: outer) := by
    intro outer
    simp [nestStep?]
  rw [nest?_append] at habove
  rcases Option.bind_eq_some_iff.mp habove with ⟨outer, -, hinside⟩
  rw [nest?, hopen, Option.bind_some, (nested_iff_bracketWord.mpr hword).nest?] at hinside
  exact ⟨outer, (Option.some.inj hinside).symm⟩

/-! ## Outcomes -/

/-- The brackets of a text through the character at an offset are a word. -/
def NestedThrough (text : Text) (offset : Nat) : Prop :=
  BracketWord (brackets (text.take (offset + 1)))

/-- The character at an offset closes another type than that of the innermost open bracket. -/
def MismatchAt (text : Text) (offset : Nat) : Prop :=
  ∃ innermost closed : BracketType, IsInnermost innermost (text.take offset) ∧
    text[offset]? = some closed.closer ∧ closed ≠ innermost

/-- A text that begins with a bracket closes it at an offset: the brackets through there are a word,
and no shorter start is one. -/
structure ClosesAt (text : Text) (offset : Nat) : Prop where
  inside : offset < text.length
  nested : NestedThrough text offset
  first : ∀ earlier < offset, ¬NestedThrough text earlier

/-- A text that begins with a bracket breaks off at an offset: the first closer of a wrong type
stands there, and the bracket was not closed before. -/
structure BreaksOffAt (text : Text) (offset : Nat) : Prop where
  mismatch : MismatchAt text offset
  first : ∀ earlier < offset, ¬MismatchAt text earlier
  unclosed : ∀ earlier < offset, ¬NestedThrough text earlier

/-- A text that begins with a bracket leaves it open: each start of its brackets is the start of a
word, and the bracket is closed nowhere. -/
structure StaysOpen (text : Text) : Prop where
  extends_to_word : ∀ start, start <+: brackets text → ∃ rest, BracketWord (start ++ rest)
  unclosed : ∀ offset < text.length, ¬NestedThrough text offset

/-- The scan ends with nothing open behind a character through which the brackets are a word. -/
theorem nestedThrough_iff {text : Text} {offset : Nat} :
    NestedThrough text offset ↔ nest? [] (text.take (offset + 1)) = some [] :=
  nested_iff_bracketWord.symm

/-- The scan does not get through a closer of a wrong type. -/
theorem MismatchAt.nest?_eq_none {text : Text} {offset : Nat} (h : MismatchAt text offset) :
    nest? [] (text.take (offset + 1)) = none := by
  rcases h with ⟨innermost, closed, hinnermost, hcloser, hne⟩
  rw [List.take_add_one, hcloser, Option.toList_some, nest?_append]
  cases habove : nest? [] (text.take offset) with
  | none => rfl
  | some above =>
    rcases hinnermost.exists_nest? habove with ⟨outer, rfl⟩
    have hstuck : nestStep? (innermost :: outer) closed.closer = none := by
      simp [nestStep?, hne]
    rw [Option.bind_some, nest?, hstuck]
    rfl

/-- The scan does not get through a text with a closer of a wrong type. -/
theorem MismatchAt.not_nestedThrough {text : Text} {offset later : Nat} (h : MismatchAt text offset)
    (hlater : offset ≤ later) : ¬NestedThrough text later := by
  intro hnested
  have hstart : text.take (offset + 1) <+: text.take (later + 1) :=
    List.take_prefix_take_left (by omega)
  rcases exists_nest?_of_prefix (nestedThrough_iff.mp hnested) hstart with ⟨middle, hmiddle⟩
  rw [h.nest?_eq_none] at hmiddle
  cases hmiddle

/-- A bracket is closed at one offset only. -/
theorem ClosesAt.unique {text : Text} {offset other : Nat} (h : ClosesAt text offset)
    (hother : ClosesAt text other) : offset = other := by
  rcases Nat.lt_trichotomy offset other with hlt | heq | hlt
  · exact absurd h.nested (hother.first offset hlt)
  · exact heq
  · exact absurd hother.nested (h.first other hlt)

/-- A text breaks off at one offset only. -/
theorem BreaksOffAt.unique {text : Text} {offset other : Nat} (h : BreaksOffAt text offset)
    (hother : BreaksOffAt text other) : offset = other := by
  rcases Nat.lt_trichotomy offset other with hlt | heq | hlt
  · exact absurd h.mismatch (hother.first offset hlt)
  · exact heq
  · exact absurd hother.mismatch (h.first other hlt)

/-- A text that closes its bracket does not break off before. -/
theorem ClosesAt.not_breaksOffAt {text : Text} {offset other : Nat} (h : ClosesAt text offset) :
    ¬BreaksOffAt text other := by
  intro hother
  rcases Nat.lt_or_ge offset other with hlt | hle
  · exact hother.unclosed offset hlt h.nested
  · exact hother.mismatch.not_nestedThrough hle h.nested

/-- A text that closes its bracket does not leave it open. -/
theorem ClosesAt.not_staysOpen {text : Text} {offset : Nat} (h : ClosesAt text offset) :
    ¬StaysOpen text :=
  fun hopen => hopen.unclosed offset h.inside h.nested

/-- A text that breaks off does not leave its bracket open. -/
theorem BreaksOffAt.not_staysOpen {text : Text} {offset : Nat} (h : BreaksOffAt text offset) :
    ¬StaysOpen text := by
  intro hopen
  have hstart : brackets (text.take (offset + 1)) <+: brackets text :=
    (List.take_prefix _ text).filter isBracket
  rcases exists_bracketWord_append_iff.mp (hopen.extends_to_word _ hstart) with ⟨above, habove⟩
  rw [h.mismatch.nest?_eq_none] at habove
  cases habove

/-! ## The search -/

/-- How a span ends: the text before the place where it is decided is one that the scan gets
through. -/
inductive Ends (type : BracketType) : Text → Closing → Prop where
  | matched {inside : Text} (after : Text) : Nested inside →
    Ends type (inside ++ type.closer :: after) (.matched inside after)
  | mismatched {before : Text} {c : Char} {last : List BracketType} (after : Text) :
    nest? [] before = some last → nestStep? last c = none → ¬(last = [] ∧ c = type.closer) →
    Ends type (before ++ c :: after) (.mismatched (before ++ [c]) after)
  | unclosed {text : Text} {last : List BracketType} : nest? [] text = some last →
    Ends type text .unclosed

/-- Every span ends in one of the three ways. -/
theorem ends_closing (type : BracketType) (text : Text) :
    Ends type text (closing type [] text) := by
  cases hclosing : closing type [] text with
  | matched inside after =>
    rcases closing_eq_matched_iff.mp hclosing with ⟨rfl, hinside⟩
    exact .matched after hinside
  | mismatched through after =>
    rcases closing_eq_mismatched_iff.mp hclosing with
      ⟨before, c, rfl, rfl, last, hbefore, hstuck, hend⟩
    rw [List.append_assoc]
    exact .mismatched after hbefore hstuck hend
  | unclosed =>
    rcases Option.isSome_iff_exists.mp (closing_eq_unclosed_iff.mp hclosing) with ⟨last, hlast⟩
    exact .unclosed hlast

/-- As long as the scan gets through what stands behind a bracket, that bracket stays open. -/
theorem exists_nest?_take (type : BracketType) {body : Text} {last : List BracketType}
    (h : nest? [] body = some last) {offset : Nat} (hoffset : offset ≤ body.length) (tail : Text) :
    ∃ above, nest? [] ((type.opener :: (body ++ tail)).take (offset + 1)) =
      some (above ++ [type]) := by
  rcases exists_nest?_of_prefix h (List.take_prefix offset body) with ⟨above, habove⟩
  rw [List.take_succ_cons, List.take_append_of_le_length hoffset]
  exact ⟨above, nest?_opener_cons habove type []⟩

/-- As long as the scan gets through what stands behind a bracket, that bracket is not closed. -/
theorem not_nestedThrough_of_nest? (type : BracketType) {body : Text} {last : List BracketType}
    (h : nest? [] body = some last) {offset : Nat} (hoffset : offset ≤ body.length) (tail : Text) :
    ¬NestedThrough (type.opener :: (body ++ tail)) offset := by
  rcases exists_nest?_take type h hoffset tail with ⟨above, habove⟩
  rw [nestedThrough_iff, habove]
  simp

/-- As long as the scan gets through what stands behind a bracket, no closer is of a wrong type. -/
theorem not_mismatchAt_of_nest? (type : BracketType) {body : Text} {last : List BracketType}
    (h : nest? [] body = some last) {offset : Nat} (hoffset : offset ≤ body.length) (tail : Text) :
    ¬MismatchAt (type.opener :: (body ++ tail)) offset := by
  rcases exists_nest?_take type h hoffset tail with ⟨above, habove⟩
  intro hmismatch
  rw [hmismatch.nest?_eq_none] at habove
  cases habove

/-- A nested text behind a bracket and the closer of its type close the bracket. -/
theorem closesAt_of_nested {type : BracketType} {inside : Text} (h : Nested inside)
    (after : Text) :
    ClosesAt (type.opener :: (inside ++ type.closer :: after)) (inside.length + 1) := by
  refine ⟨by simp, ?_, fun earlier hearlier =>
    not_nestedThrough_of_nest? type h (Nat.le_of_lt_succ hearlier) _⟩
  have hthrough : (type.opener :: (inside ++ type.closer :: after)).take (inside.length + 1 + 1) =
      type.opener :: inside ++ [type.closer] := by
    simp [List.take_append]
  rw [nestedThrough_iff, hthrough]
  exact h.enclose type

/-- A character behind which the scan does not go on, and which is not the closer of the bracket,
breaks the text off. -/
theorem breaksOffAt_of_stuck {type : BracketType} {before : Text} {c : Char}
    {last : List BracketType} (h : nest? [] before = some last) (hstuck : nestStep? last c = none)
    (hend : ¬(last = [] ∧ c = type.closer)) (after : Text) :
    BreaksOffAt (type.opener :: (before ++ c :: after)) (before.length + 1) := by
  refine ⟨?_, fun earlier hearlier => not_mismatchAt_of_nest? type h (Nat.le_of_lt_succ hearlier) _,
    fun earlier hearlier => not_nestedThrough_of_nest? type h (Nat.le_of_lt_succ hearlier) _⟩
  have hopen : nest? [] (type.opener :: before) = some (last ++ [type]) :=
    nest?_opener_cons h type []
  have hbefore : (type.opener :: (before ++ c :: after)).take (before.length + 1) =
      type.opener :: before := by
    simp
  have hthere : (type.opener :: (before ++ c :: after))[before.length + 1]? = some c := by
    simp
  have hnone : nestStep? (last ++ [type]) c = none := nestStep?_append_eq_none hstuck hend
  rcases nestStep?_eq_none hnone with ⟨closed, rfl, hwrong⟩
  obtain ⟨innermost, outer, hstack⟩ : ∃ innermost outer, last ++ [type] = innermost :: outer := by
    cases last with
    | nil => exact ⟨type, [], rfl⟩
    | cons top last => exact ⟨top, last ++ [type], rfl⟩
  refine ⟨innermost, closed, ?_, hthere, hwrong innermost outer hstack⟩
  rw [hbefore]
  exact isInnermost_of_nest? (hopen.trans (congrArg some hstack))

/-- A text behind a bracket that the scan gets through leaves the bracket open. -/
theorem staysOpen_of_nest? {type : BracketType} {body : Text} {last : List BracketType}
    (h : nest? [] body = some last) : StaysOpen (type.opener :: body) := by
  constructor
  · rintro start ⟨more, hmore⟩
    rcases exists_bracketWord_append_iff.mpr ⟨_, nest?_opener_cons h type []⟩ with ⟨rest, hword⟩
    rw [← hmore, List.append_assoc] at hword
    exact ⟨more ++ rest, hword⟩
  · intro offset hoffset
    have hbody := not_nestedThrough_of_nest? type h (Nat.le_of_lt_succ hoffset) []
    rwa [List.append_nil] at hbody

/-- A character before what a search comes to moves the place where it ends. -/
theorem Closing.position_cons (start : Nat) (c : Char) (result : Closing) :
    (result.cons c).position start = result.position (start + 1) := by
  cases result <;> simp only [Closing.cons, Closing.position, List.length_cons, Prod.mk.injEq] <;>
    grind

/-- With a bracket open the search ends where the span does, and never finds its stack empty. -/
theorem searchCloser_eq (innermost : BracketType) (outer : List BracketType) (start : Nat)
    (text : Text) :
    searchCloser (innermost :: outer) (start + 1) text =
      some ((closing innermost outer text).position start) := by
  induction text generalizing innermost outer start with
  | nil => rfl
  | cons c rest ih =>
    cases hopen : BracketType.ofOpener? c with
    | some opened => simp only [searchCloser, closing, hopen, ih, Closing.position_cons]
    | none =>
      cases hclose : BracketType.ofCloser? c with
      | none => simp only [searchCloser, closing, hopen, hclose, ih, Closing.position_cons]
      | some closed =>
        by_cases hmatch : closed = innermost
        · cases outer with
          | nil => simp [searchCloser, closing, hopen, hclose, hmatch, Closing.position]
          | cons next outer =>
            simp [searchCloser, closing, hopen, hclose, hmatch, ih, Closing.position_cons]
        · simp [searchCloser, closing, hopen, hclose, hmatch, Closing.position]

/-- A span ends where its bracket is closed or the text breaks off, and without a position if the
bracket stays open. -/
theorem Ends.position_cases {type : BracketType} {rest : Text} {result : Closing}
    (h : Ends type rest result) (start : Nat) :
    (∃ offset, result.position start = (((start + offset : Nat) : Int), true) ∧
        ClosesAt (type.opener :: rest) offset) ∨
      (∃ offset, result.position start = (((start + offset : Nat) : Int), false) ∧
        BreaksOffAt (type.opener :: rest) offset) ∨
      (result.position start = (-1, false) ∧ StaysOpen (type.opener :: rest)) := by
  cases h with
  | @matched inside after hinside =>
    exact Or.inl ⟨inside.length + 1, rfl, closesAt_of_nested hinside after⟩
  | @mismatched before c last after hbefore hstuck hend =>
    refine Or.inr (Or.inl ⟨before.length + 1, ?_, breaksOffAt_of_stuck hbefore hstuck hend after⟩)
    simp [Closing.position]
  | unclosed hlast => exact Or.inr (Or.inr ⟨rfl, staysOpen_of_nest? hlast⟩)

/-- The position of the one offset at which something holds. -/
theorem position_eq_iff {holds : Nat → Prop} {offset : Nat} (h : holds offset)
    (hunique : ∀ {other}, holds other → offset = other) (start i : Nat) (found : Bool) :
    (((start + offset : Nat) : Int), found) = ((i : Int), found) ↔
      start ≤ i ∧ holds (i - start) := by
  rw [Prod.mk.injEq, Int.natCast_inj, eq_self, and_true]
  constructor
  · rintro rfl
    rw [Nat.add_sub_cancel_left]
    exact ⟨Nat.le_add_right start offset, h⟩
  · rintro ⟨hle, hthere⟩
    have := hunique hthere
    omega

/-- The search for the closer of a bracket never finds its stack empty.  It ends at the position at
which the bracket is closed, or at the one at which the text breaks off from the bracket on, and
without a position if and only if the bracket stays open. -/
theorem closing_isExact {text : Text} {start : Nat} {type : BracketType}
    (h : text[start]? = some type.opener) :
    let found := (closing type [] (text.drop (start + 1))).position start
    searchCloser [] start (text.drop start) = some found ∧
      (∀ i : Nat, found = ((i : Int), true) ↔
        start ≤ i ∧ ClosesAt (text.drop start) (i - start)) ∧
      (∀ i : Nat, found = ((i : Int), false) ↔
        start ≤ i ∧ BreaksOffAt (text.drop start) (i - start)) ∧
      (found = (-1, false) ↔ StaysOpen (text.drop start)) := by
  intro found
  have hsplit : text.drop start = type.opener :: text.drop (start + 1) := by
    rcases List.getElem?_eq_some_iff.mp h with ⟨hlt, hopener⟩
    rw [List.drop_eq_getElem_cons hlt, hopener]
  have hsearch : searchCloser [] start (text.drop start) = some found := by
    rw [hsplit, searchCloser, BracketType.ofOpener?_opener]
    exact searchCloser_eq type [] start _
  have hposition : ∀ (offset : Nat) (b : Bool),
      (((start + offset : Nat) : Int), b) ≠ (-1, false) := by
    intro offset b heq
    have := congrArg Prod.fst heq
    omega
  have hcases := (ends_closing type (text.drop (start + 1))).position_cases start
  rw [← hsplit] at hcases
  change (∃ offset, found = _ ∧ _) ∨ (∃ offset, found = _ ∧ _) ∨ found = _ ∧ _ at hcases
  refine ⟨hsearch, ?_⟩
  rcases hcases with ⟨offset, hfound, hcloses⟩ | ⟨offset, hfound, hbreaks⟩ | ⟨hfound, hopen⟩
  · rw [hfound]
    exact ⟨fun i => position_eq_iff hcloses hcloses.unique start i true,
      fun i => iff_of_false nofun fun hat => hcloses.not_breaksOffAt hat.2,
      iff_of_false (hposition offset true) hcloses.not_staysOpen⟩
  · rw [hfound]
    exact ⟨fun i => iff_of_false nofun fun hat => hat.2.not_breaksOffAt hbreaks,
      fun i => position_eq_iff hbreaks hbreaks.unique start i false,
      iff_of_false (hposition offset false) hbreaks.not_staysOpen⟩
  · rw [hfound]
    exact ⟨fun i => iff_of_false nofun fun hat => hat.2.not_staysOpen hopen,
      fun i => iff_of_false (fun heq => nomatch congrArg Prod.fst heq) fun hat =>
        hat.2.not_staysOpen hopen,
      iff_of_true rfl hopen⟩

/-- A text with a bracket that is closed, one that meets a closer of the wrong type, and one that
stays open. -/
def threeBrackets : Text :=
  "\x7ba[b]c\x7d [d\x7d \x7be".toList

/-- The three outcomes in one text. -/
theorem closing_isExact_threeBrackets :
    (threeBrackets[0]? = some BracketType.increase.opener ∧ ClosesAt (threeBrackets.drop 0) 6) ∧
      (threeBrackets[8]? = some BracketType.decrease.opener ∧
        BreaksOffAt (threeBrackets.drop 8) 2) ∧
      threeBrackets[12]? = some BracketType.increase.opener ∧
      StaysOpen (threeBrackets.drop 12) := by
  have hcloses : threeBrackets[0]? = some BracketType.increase.opener := rfl
  have hbreaks : threeBrackets[8]? = some BracketType.decrease.opener := rfl
  have hopen : threeBrackets[12]? = some BracketType.increase.opener := rfl
  exact ⟨⟨hcloses, (((closing_isExact hcloses).2.1 6).mp rfl).2⟩,
    ⟨hbreaks, (((closing_isExact hbreaks).2.2.1 10).mp rfl).2⟩,
    hopen, (closing_isExact hopen).2.2.2.mp rfl⟩

end PromptMarkup
