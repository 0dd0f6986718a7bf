import PromptMarkup.Bracket
import PromptMarkup.Markup.Group
import PromptMarkup.Markup.Tag

/-!
# Pieces of a prompt

A prompt is read from left to right as a list of pieces: a weighted span with the
text inside its brackets, a group of options, a tag, or literal text.  Whatever
does not form one of the former is literal: an opening bracket whose span never
closes, a span up to a closer of the wrong kind, a parenthesis without a choice,
an exclamation mark without a name.  A tag starts only where no name character
stands before it, and a word that is no tag is one piece.

Main statement:

- {lit}`length_nextPiece`: every piece takes at least one character.
-/

namespace PromptMarkup

/-- A piece of a prompt. -/
inductive Piece where
  | literal (text : Text)
  | weighted (type : BracketType) (inside : Text)
  | group (options : List Text)
  | random (name : Text)
  | fixed (name value : Text)
deriving DecidableEq, Repr

/-- Whether the last character of a piece is a name character. -/
def Piece.endsInName : Piece → Bool
  | .literal text => text.getLast?.any isNameChar
  | .weighted .. => false
  | .group _ => false
  | .random _ => true
  | .fixed _ value => value.getLast?.any isNameChar

/-- Read a tag or a word that starts with the given character. -/
def nextWord (c : Char) (rest : Text) : Piece × Text :=
  if c = '!' then
    match readName? rest with
    | some (name, after) => (.random name, after)
    | none => (.literal [c], rest)
  else
    match readName? (c :: rest) with
    | some (word, after) =>
      match readValue? after with
      | some (value, after) => (.fixed word value, after)
      | none => (.literal word, after)
    | none => (.literal [c], rest)

/-- Read the piece that starts with the given character, and what follows it.
Brackets make spans only where {lit}`spans` is set, and tags start only at a
boundary. -/
def nextPiece (spans boundary : Bool) (c : Char) (rest : Text) : Piece × Text :=
  match BracketType.ofOpener? c with
  | some type =>
    if spans then
      match closing type [] rest with
      | .matched inside after => (.weighted type inside, after)
      | .mismatched through after => (.literal (c :: through), after)
      | .unclosed => (.literal [c], rest)
    else (.literal [c], rest)
  | none =>
    if c = '(' then
      match readGroup? rest with
      | some (options, after) => (.group options, after)
      | none => (.literal [c], rest)
    else if boundary then nextWord c rest
    else (.literal [c], rest)

/-! ## Every piece takes a character -/

/-- What follows a span is shorter than the text after its opening bracket. -/
theorem length_closing (innermost : BracketType) (outer : List BracketType) (text : Text) :
    (∀ inside rest, closing innermost outer text = .matched inside rest →
      rest.length < text.length) ∧
    (∀ through rest, closing innermost outer text = .mismatched through rest →
      rest.length < text.length) := by
  induction text generalizing innermost outer with
  | nil => simp [closing]
  | cons c tail ih =>
    have hcons : ∀ result : Closing,
        ((∀ inside rest, result = .matched inside rest → rest.length < tail.length) ∧
          (∀ through rest, result = .mismatched through rest → rest.length < tail.length)) →
        (∀ inside rest, result.cons c = .matched inside rest →
          rest.length < (c :: tail).length) ∧
        (∀ through rest, result.cons c = .mismatched through rest →
          rest.length < (c :: tail).length) := by
      intro result h
      cases result with
      | matched inside rest =>
        simp only [Closing.cons, Closing.matched.injEq, List.length_cons]
        refine ⟨?_, nofun⟩
        rintro _ _ ⟨-, rfl⟩
        have := h.1 _ _ rfl
        omega
      | mismatched through rest =>
        simp only [Closing.cons, Closing.mismatched.injEq, List.length_cons]
        refine ⟨nofun, ?_⟩
        rintro _ _ ⟨-, rfl⟩
        have := h.2 _ _ rfl
        omega
      | unclosed => exact ⟨nofun, nofun⟩
    unfold closing
    split
    · exact hcons _ (ih ..)
    · split
      · split
        · split
          · simp
          · exact hcons _ (ih ..)
        · simp
      · exact hcons _ (ih ..)

/-- What follows a word is no longer than what follows its first character. -/
theorem length_nextWord (c : Char) (rest : Text) :
    (nextWord c rest).2.length ≤ rest.length := by
  unfold nextWord
  split
  · split
    · exact length_of_readName? ‹_›
    · exact Nat.le_refl _
  · split
    · rename_i word after hword
      have hafter : after.length ≤ rest.length := by
        unfold readName? at hword
        by_cases hc : isNameChar c
        · simp only [List.takeWhile_cons, hc, ↓reduceIte, List.dropWhile_cons,
            Option.some.injEq, Prod.mk.injEq] at hword
          rw [← hword.2]
          exact (List.dropWhile_sublist _).length_le
        · simp [hc] at hword
      split
      · exact Nat.le_trans (length_of_readValue? ‹_›) hafter
      · exact hafter
    · exact Nat.le_refl _

/-- What follows a piece is no longer than what follows its first character. -/
theorem length_nextPiece (spans boundary : Bool) (c : Char) (rest : Text) :
    (nextPiece spans boundary c rest).2.length ≤ rest.length := by
  unfold nextPiece
  split
  · rename_i type _
    have hclosing := length_closing type [] rest
    split
    · split
      · exact Nat.le_of_lt (hclosing.1 _ _ ‹_›)
      · exact Nat.le_of_lt (hclosing.2 _ _ ‹_›)
      · exact Nat.le_refl _
    · exact Nat.le_refl _
  · split
    · split
      · exact Nat.le_of_lt (length_of_readGroup? ‹_›)
      · exact Nat.le_refl _
    · split
      · exact length_nextWord c rest
      · exact Nat.le_refl _

/-! ## All pieces -/

/-- The pieces of a text, from a boundary or not. -/
def pieces (spans boundary : Bool) : Text → List Piece
  | [] => []
  | c :: rest =>
    (nextPiece spans boundary c rest).1 ::
      pieces spans (!(nextPiece spans boundary c rest).1.endsInName)
        (nextPiece spans boundary c rest).2
termination_by text => text.length
decreasing_by
  have := length_nextPiece spans boundary c rest
  simp only [List.length_cons]
  omega

end PromptMarkup
