import PromptMarkup.Markup.Checked
import PromptMarkup.Proofs.WellMadeTree

/-!
# Reading with checks

A prompt is read without checks: its segments are made by builders, and its tree is not
brought to normal form.  Both could be done with no other result.  The checked constructors
accept whatever the grammar hands to them, and in the tree of a prompt there is nothing to
join and nothing to drop.

Main statements:

- {lit}`addChecked_eq`: the checked constructors accept every sound piece.
- {lit}`checkedPrompt_eq`: reading with checks gives the tree of the prompt.
-/

namespace PromptMarkup

/-! ## Checked constructors -/

/-- Literal text is built from its parts. -/
theorem prependLiteral_eq (literal : Text) (segments : List (Segment Unit)) :
    prependLiteral literal segments =
      .text () (literalParts literal segments).1 :: (literalParts literal segments).2 := by
  unfold literalParts
  split
  · rfl
  · rename_i hnone
    unfold prependLiteral
    split
    · exact absurd rfl (hnone _ _ _)
    · rfl

/-- A span is made if its level is in range. -/
theorem weighted?_eq {type : BracketType} {level : Nat} (h : level ≤ maxLevel)
    (children : List (Segment Unit)) :
    Segment.weighted? () children type.toValue (.int level) =
      .ok (.weighted () type level children) := by
  have htype : Segment.checkBracketType type.toValue = .ok type := by cases type <;> rfl
  have hfrom : ¬(level : Int) < 0 := by omega
  have hto : ¬(maxLevel : Int) < level := by omega
  calc Segment.weighted? () children type.toValue (.int level)
    _ = if (level : Int) < 0 then .error .levelNegative
        else if (maxLevel : Int) < level then .error (.levelTooHigh maxLevel)
        else .ok (.weighted () type level children) := by
      rw [Segment.weighted?, htype]
      rfl
    _ = .ok (.weighted () type level children) := by rw [if_neg hfrom, if_neg hto]

/-- A preset is made if it has a name. -/
theorem preset?_eq {name : Text} (h : IsName name) (mode : PresetMode) (selected : Option Text) :
    Segment.preset? () (some name) mode.toValue selected [] =
      .ok (.preset () name mode selected []) := by
  have hmode : Segment.checkPresetMode mode.toValue = .ok mode := by cases mode <;> rfl
  cases name with
  | nil => exact absurd rfl h.1
  | cons c name =>
    rw [Segment.preset?, hmode]
    · rfl
    · nofun

/-- An inline wildcard is made if it has an option and its options are tidy. -/
theorem inlineWildcard?_eq {options : List Text} (hne : options ≠ [])
    (htidy : ∀ option ∈ options, TidyOption option) :
    Segment.inlineWildcard? () (.list (options.map .str)) =
      .ok (.inlineWildcard () (options.map .str)) := by
  cases options with
  | nil => exact absurd rfl hne
  | cons option rest =>
    have hoption := htidy option List.mem_cons_self
    have hshown : Segment.isBlankOption (.str option) = false := by
      have htrim : trim ((Value.str option).text false) = option := hoption.trimmed
      simp [Segment.isBlankOption, htrim, hoption.nonempty]
    have hall : ((option :: rest).map Value.str).all Segment.isBlankOption = false := by
      rw [List.map_cons, List.all_cons, hshown, Bool.false_and]
    calc Segment.inlineWildcard? () (.list ((option :: rest).map .str))
      _ = if ((option :: rest).map Value.str).all Segment.isBlankOption then
            .error .optionsAllBlank
          else .ok (.inlineWildcard () ((option :: rest).map .str)) := rfl
      _ = .ok (.inlineWildcard () ((option :: rest).map .str)) := by rw [hall]; rfl

/-- The checked constructors accept a sound piece before well-made segments. -/
theorem addChecked_eq {nested : Text → List (Segment Unit)}
    {checked : Text → Except Invalid (List (Segment Unit))} {piece : Piece}
    (rest : List (Segment Unit)) (hpiece : piece.Sound)
    (hchecked : ∀ inside, checked inside = .ok (nested inside))
    (hnested : ∀ inside, WellMadeAll (nested inside)) :
    addChecked checked piece rest = .ok (addPiece nested piece rest) := by
  cases piece with
  | literal text =>
    rw [addPiece, prependLiteral_eq]
    rfl
  | weighted type inside =>
    have hlevel : (spanParts type (nested inside)).1 ≤ maxLevel := (hnested inside).spanParts.2.1
    calc addChecked checked (.weighted type inside) rest
      _ = Segment.weighted? () (spanParts type (nested inside)).2 type.toValue
            (.int (spanParts type (nested inside)).1) >>= fun span => .ok (span :: rest) := by
        rw [addChecked, hchecked]
        rfl
      _ = .ok (.weighted () type _ _ :: rest) := by
        rw [weighted?_eq hlevel]
        rfl
      _ = .ok (addPiece nested (.weighted type inside) rest) := by
        rw [addPiece, wrapSpan_eq]
  | group options =>
    rw [addChecked, inlineWildcard?_eq hpiece.1 hpiece.2]
    rfl
  | random name =>
    rw [addChecked, preset?_eq hpiece]
    rfl
  | fixed name value =>
    rw [addChecked, preset?_eq hpiece.1]
    rfl

/-- The segments inside a span at a depth that is left, each made by a checked
constructor. -/
def checkedInside : Nat → Text → Except Invalid (List (Segment Unit))
  | 0, _ => .ok []
  | depth + 1, text => checkedFrom depth true text

/-- The segment of the first piece of a text comes first. -/
theorem checkedFrom_of_reads {depth : Nat} {boundary : Bool} {text after : Text} {piece : Piece}
    (h : Reads (spansAt depth) boundary text piece after) :
    checkedFrom depth boundary text =
      checkedFrom depth (!piece.endsInName) after >>=
        addChecked (checkedInside depth) piece := by
  have hpieces := pieces_of_reads h
  cases depth with
  | zero =>
    simp only [spansAt] at hpieces
    simp only [checkedFrom, hpieces, checkedPieces]
    rfl
  | succ depth =>
    simp only [spansAt] at hpieces
    simp only [checkedFrom, hpieces, checkedPieces]
    rfl

/-- The checked constructors accept all that is read from a text. -/
theorem checkedFrom_eq (depth : Nat) (boundary : Bool) (text : Text) :
    checkedFrom depth boundary text = .ok (readFrom depth boundary text) := by
  induction depth, boundary, text using readInduction with
  | nil depth boundary =>
    rw [readFrom_nil]
    cases depth <;> simp [checkedFrom, pieces, checkedPieces]
  | reads depth boundary text piece after hreads hinside ih =>
    rw [checkedFrom_of_reads hreads, readFrom_of_reads hreads, ih]
    cases depth with
    | zero =>
      exact addChecked_eq _ hreads.sound (fun _ => rfl) fun _ => wellMadeAll_nil
    | succ below =>
      exact addChecked_eq _ hreads.sound (fun inside => hinside below inside rfl)
        fun inside => wellMade_readFrom below true inside

/-- Every text is read without an objection: no constructor refuses what it is given, and the
tree that they make is the tree of the prompt.  It is well made, and bringing it to normal
form changes nothing. -/
theorem checkedPrompt_eq (text : Text) :
    checkedPrompt text = .ok (readPrompt text) ∧ WellMadePrompt (readPrompt text) ∧
      (readPrompt text).checkedNormalize = .ok (readPrompt text) := by
  rcases (wellMade_readPrompt text).normal with ⟨hnormal, hopen⟩
  have hchecked : (readPrompt text).checkedNormalize = .ok (readPrompt text) := by
    rw [Segment.checkedNormalize, hopen, hnormal.normalize_eq]
  refine ⟨?_, wellMade_readPrompt text, hchecked⟩
  rw [checkedPrompt, checkedFrom_eq, ← readSegments_eq]
  exact hchecked

end PromptMarkup
