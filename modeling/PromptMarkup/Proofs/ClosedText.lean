import Mathlib.Data.List.Infix
import PromptMarkup.Proofs.PieceRules

/-!
# Texts that leave nothing open

A text is read by itself, whatever follows it, if it closes the spans and the groups that it
opens and a character comes next that ends its last name or value.  What is open at the end of
a text may go on behind that character, and then the text is read in another way.

Main statements:

- {lit}`Nested.closesSpans` and {lit}`Balanced.closesGroups`: nested texts leave no span open,
  and balanced ones no group.
- {lit}`Reads.append_stop`: a text that leaves nothing open begins with the same piece.
- {lit}`pieces_append_stop`: the pieces of such a text come first, then those of the rest.
-/

namespace PromptMarkup

/-! ## Spans -/

/-- A text that leaves no span open: each of its opening brackets is closed in it, or meets a
closer of the wrong type there. -/
def ClosesSpans (text : Text) : Prop :=
  ∀ (type : BracketType) (rest : Text), type.opener :: rest <:+ text →
    closing type [] rest ≠ .unclosed

/-- Whether the bracket that a text begins with, if it does with one, is not left open. -/
def closesFirst : Text → Prop
  | [] => True
  | c :: rest => ∀ type ∈ BracketType.ofOpener? c, closing type [] rest ≠ .unclosed

instance (text : Text) : Decidable (closesFirst text) :=
  match text with
  | [] => isTrue trivial
  | c :: rest =>
    inferInstanceAs
      (Decidable (∀ type ∈ BracketType.ofOpener? c, closing type [] rest ≠ .unclosed))

/-- The brackets of a text are those that its tails begin with. -/
theorem closesSpans_iff (text : Text) :
    ClosesSpans text ↔ ∀ tail ∈ text.tails, closesFirst tail := by
  constructor
  · intro h tail htail
    cases tail with
    | nil => trivial
    | cons c rest =>
      intro type htype
      have hsuffix := (List.mem_tails _ _).mp htail
      rw [BracketType.eq_opener_of_ofOpener? htype] at hsuffix
      exact h type rest hsuffix
  · intro h type rest hsuffix
    exact h _ ((List.mem_tails _ _).mpr hsuffix) type (BracketType.ofOpener?_opener type)

instance (text : Text) : Decidable (ClosesSpans text) :=
  decidable_of_iff _ (closesSpans_iff text).symm

/-- What leaves no span open does so at its end. -/
theorem ClosesSpans.of_suffix {text rest : Text} (h : ClosesSpans text) (hrest : rest <:+ text) :
    ClosesSpans rest :=
  fun type inside hinside => h type inside (hinside.trans hrest)

/-- A nested text leaves no span open. -/
theorem Nested.closesSpans {text : Text} (h : Nested text) : ClosesSpans text := by
  rintro type rest ⟨start, rfl⟩ hopen
  rw [Nested, nest?_append] at h
  rcases Option.bind_eq_some_iff.mp h with ⟨above, -, hrest⟩
  -- A bracket that stays open would still be open at the end of the text.
  rcases Option.isSome_iff_exists.mp (closing_eq_unclosed_iff.mp hopen) with ⟨last, hlast⟩
  rw [nest?_opener_cons hlast] at hrest
  simp at hrest

/-! ## Groups -/

/-- A text that leaves no group open. -/
def ClosesGroups (text : Text) : Prop :=
  ∀ rest, '(' :: rest <:+ text → groupClose? 0 rest ≠ none

/-- The parentheses of a text are those that its tails begin with. -/
theorem closesGroups_iff (text : Text) :
    ClosesGroups text ↔
      ∀ tail ∈ text.tails, tail.head? = some '(' → groupClose? 0 tail.tail ≠ none := by
  constructor
  · intro h tail htail hhead
    cases tail with
    | nil => cases hhead
    | cons c rest =>
      cases hhead
      exact h rest ((List.mem_tails _ _).mp htail)
  · intro h rest hsuffix
    exact h _ ((List.mem_tails _ _).mpr hsuffix) rfl

instance (text : Text) : Decidable (ClosesGroups text) :=
  decidable_of_iff _ (closesGroups_iff text).symm

/-- What leaves no group open does so at its end. -/
theorem ClosesGroups.of_suffix {text rest : Text} (h : ClosesGroups text) (hrest : rest <:+ text) :
    ClosesGroups rest :=
  fun inside hinside => h inside (hinside.trans hrest)

/-- Where the depth falls to what it was before, a group has been closed. -/
theorem groupClose?_ne_none {depth extra last : Nat} {text : Text}
    (h : groupDepth? true (depth + (extra + 1)) text = some last) (hlast : last ≤ extra) :
    groupClose? depth text ≠ none := by
  induction text generalizing depth with
  | nil =>
    cases h
    omega
  | cons c rest ih =>
    rw [groupClose?_cons]
    split
    · exact nofun
    · rename_i hopen
      have hrest := (groupDepth?_cons.mp h).2
      rw [depthAfter_add (extra + 1) hopen] at hrest
      simpa using ih hrest

/-- A balanced text leaves no group open. -/
theorem Balanced.closesGroups {text : Text} (h : Balanced text) : ClosesGroups text := by
  rintro rest ⟨start, rfl⟩
  rw [Balanced, groupDepth?_append] at h
  rcases Option.bind_eq_some_iff.mp h with ⟨depth, -, hopen⟩
  have hrest : groupDepth? true (0 + (depth + 1)) rest = some 0 := by
    rw [Nat.zero_add]
    exact (groupDepth?_cons.mp hopen).2
  exact groupClose?_ne_none hrest (Nat.zero_le _)

/-! ## Stops -/

/-- A character with which no piece begins but a literal, and which belongs to no name and no
value. -/
structure IsStop (c : Char) : Prop where
  opener : BracketType.ofOpener? c = none
  mark : c ∉ ['(', '!', ':']
  name : isNameChar c = false
  value : isValueChar c = false

/-- Closing parentheses, commas and blanks are such characters. -/
theorem isStop_of_mem {c : Char} (h : c ∈ [')', ',', ' ']) : IsStop c := by
  simp only [List.mem_cons, List.not_mem_nil, or_false] at h
  rcases h with rfl | rfl | rfl <;>
    exact ⟨by decide, by decide, by decide, by decide⟩

section Stop

variable {stop : Char} {rest : Text}

/-- A stop is read as a literal. -/
theorem IsStop.reads (h : IsStop stop) (spans boundary : Bool) (rest : Text) :
    Reads spans boundary (stop :: rest) (.literal [stop]) rest := by
  refine .char stop rest h.opener ?_ fun _ => ⟨h.name, ?_⟩
  · rintro rfl
    exact h.mark (by decide)
  · rintro rfl
    exact absurd (by decide) h.mark

/-- A boundary comes after a stop. -/
theorem IsStop.endsInName (h : IsStop stop) : (Piece.literal [stop]).endsInName = false := by
  simp [Piece.endsInName, h.name]

/-- A character that is of no sort does not go on with it. -/
theorem StartsOutside.append_cons {sort : Char → Bool} {text : Text}
    (h : StartsOutside sort text) (hstop : sort stop = false) (rest : Text) :
    StartsOutside sort (text ++ stop :: rest) := by
  cases text with
  | nil => exact startsOutside_cons.mpr hstop
  | cons c text => exact startsOutside_cons.mpr (startsOutside_cons.mp h)

/-- What is no group, with its end there, is none whatever follows. -/
theorem readGroup?_append {text : Text} (hclosed : groupClose? 0 text ≠ none)
    (hnone : readGroup? text = none) (more : Text) : readGroup? (text ++ more) = none := by
  rcases Option.ne_none_iff_exists'.mp hclosed with ⟨⟨inside, behind⟩, hclose⟩
  rw [readGroup?, hclose] at hnone
  rw [readGroup?, groupClose?_append_right hclose]
  simpa using hnone

/-- Where no value is read, none is read with a stop at the end. -/
theorem readValue?_append_stop {text : Text} (hnone : readValue? text = none) (h : IsStop stop)
    (rest : Text) : readValue? (text ++ stop :: rest) = none := by
  apply readValue?_eq_none_iff.mpr
  intro behind hsplit
  cases text with
  | nil =>
    cases hsplit
    exact absurd (by decide) h.mark
  | cons c text =>
    cases hsplit
    exact (readValue?_eq_none_iff.mp hnone text rfl).append_cons h.value rest

/-- A text that leaves nothing open begins with the same piece before a stop. -/
theorem Reads.append_stop {spans boundary : Bool} {text after : Text} {piece : Piece}
    (h : Reads spans boundary text piece after) (hspans : ClosesSpans text)
    (hgroups : ClosesGroups text) (hstop : IsStop stop) (rest : Text) :
    Reads spans boundary (text ++ stop :: rest) piece (after ++ stop :: rest) := by
  cases h with
  | span type inside after hset hnested =>
    have hspan : Reads spans boundary _ _ _ := .span type inside (after ++ stop :: rest) hset hnested
    simpa using hspan
  | mismatch type through after hset hclosing =>
    have hstuck : closing type [] (through ++ (after ++ stop :: rest)) =
        .mismatched through (after ++ stop :: rest) := by
      rcases closing_eq_mismatched_iff.mp hclosing with ⟨before, c, hthrough, -, hstuck⟩
      exact closing_eq_mismatched_iff.mpr ⟨before, c, hthrough, rfl, hstuck⟩
    have hmismatch : Reads spans boundary _ _ _ := .mismatch type through _ hset hstuck
    simpa using hmismatch
  | bracket type after hclosing =>
    refine .bracket type (after ++ stop :: rest) fun hset => ?_
    exact absurd (hclosing hset) (hspans type after (List.suffix_refl _))
  | group inside after hbalanced hparts hoptions =>
    have hgroup : Reads spans boundary _ _ _ :=
      .group inside (after ++ stop :: rest) hbalanced hparts hoptions
    simpa using hgroup
  | paren after hnone =>
    have hclosed : groupClose? 0 after ≠ none := hgroups after (List.suffix_refl _)
    exact .paren (after ++ stop :: rest) (readGroup?_append hclosed hnone _)
  | random name after hboundary hname hafter =>
    have hrandom : Reads spans boundary _ _ _ :=
      .random name (after ++ stop :: rest) hboundary hname (hafter.append_cons hstop.name rest)
    simpa using hrandom
  | fixed name value after hboundary hname hvalue hafter =>
    have hfixed : Reads spans boundary _ _ _ :=
      .fixed name value (after ++ stop :: rest) hboundary hname hvalue
        (hafter.append_cons hstop.value rest)
    simpa using hfixed
  | word name after hboundary hname hafter hnone =>
    have hword : Reads spans boundary _ _ _ :=
      .word name (after ++ stop :: rest) hboundary hname (hafter.append_cons hstop.name rest)
        (readValue?_append_stop hnone hstop rest)
    simpa using hword
  | char c after hopen hparen hplain =>
    refine .char c (after ++ stop :: rest) hopen hparen fun hboundary => ?_
    rcases hplain hboundary with ⟨hname, hmark⟩
    exact ⟨hname, fun heq => (hmark heq).append_cons hstop.name rest⟩

end Stop

/-- What follows the first piece stands at the end of the text. -/
theorem Reads.suffix {spans boundary : Bool} {text after : Text} {piece : Piece}
    (h : Reads spans boundary text piece after) : after <:+ text := by
  cases h with
  | span type inside => exact ⟨type.opener :: inside ++ [type.closer], by simp⟩
  | mismatch type through => exact ⟨type.opener :: through, rfl⟩
  | bracket type => exact ⟨[type.opener], rfl⟩
  | group inside => exact ⟨'(' :: inside ++ [')'], by simp⟩
  | paren => exact ⟨['('], rfl⟩
  | random name => exact ⟨'!' :: name, rfl⟩
  | fixed name value => exact ⟨name ++ ':' :: value, rfl⟩
  | word name => exact ⟨name, rfl⟩
  | char c => exact ⟨[c], rfl⟩

/-- The pieces of a text that leaves nothing open come first, then the stop, and then the
pieces of what follows it. -/
theorem pieces_append_stop {spans : Bool} {stop : Char} (hstop : IsStop stop) (boundary : Bool)
    (text rest : Text) (hspans : ClosesSpans text) (hgroups : ClosesGroups text) :
    pieces spans boundary (text ++ stop :: rest) =
      pieces spans boundary text ++ .literal [stop] :: pieces spans true rest := by
  induction boundary, text using Reads.induction spans with
  | nil boundary =>
    rw [List.nil_append, pieces_of_reads (hstop.reads spans boundary rest), hstop.endsInName]
    simp [pieces]
  | reads boundary text piece after hreads ih =>
    have hafter := ih (hspans.of_suffix hreads.suffix) (hgroups.of_suffix hreads.suffix)
    rw [pieces_of_reads (hreads.append_stop hspans hgroups hstop rest), pieces_of_reads hreads,
      hafter, List.cons_append]

end PromptMarkup
