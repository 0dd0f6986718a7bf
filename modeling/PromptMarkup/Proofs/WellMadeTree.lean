import PromptMarkup.Proofs.CanonicalTree
import PromptMarkup.Proofs.NormalForm

/-!
# Well-made trees

The tree of a prompt has more order than a tree needs: its texts are not empty and are joined,
its spans are collapsed as far as levels last, its presets have names, and its options are
tidy.  Such a tree is in normal form.

Main statements:

- {lit}`Reads.sound`: what the rules say of a piece.
- {lit}`WellMadeAll.spanParts`: the span around well-made segments has a level in range.
- {lit}`wellMade_readPrompt`: the tree of a prompt is well made.
- {lit}`WellMadePrompt.normal`: a well-made tree is in normal form, and the way there is open.
-/

namespace PromptMarkup

/-! ## Well-made trees -/

/-- Two segments that are not both texts. -/
def Segment.Apart {ι : Type} (first second : Segment ι) : Prop :=
  ¬(first.isText ∧ second.isText)

/-- A segment of the tree of a prompt, with all that stands below it. -/
inductive WellMade : Segment Unit → Prop where
  /-- A text is not empty. -/
  | text (content : Text) : content ≠ [] → WellMade (.text () content)
  /-- A span has a level from 1 to the greatest one.  It holds a single span of its own type
  only if there is no level left for that, and no two texts that are neighbours. -/
  | weighted (type : BracketType) (level : Nat) (children : List (Segment Unit)) :
    1 ≤ level → level ≤ maxLevel →
      (∀ inner inside, children = [.weighted () type inner inside] → inner = maxLevel) →
      (∀ child ∈ children, WellMade child) → children.IsChain Segment.Apart →
      WellMade (.weighted () type level children)
  /-- A random preset has a name. -/
  | random (name : Text) : IsName name → WellMade (.preset () name .random none [])
  /-- A fixed preset has a name and a value. -/
  | fixed (name value : Text) :
    IsName name → IsTagValue value → WellMade (.preset () name .fixed (some value) [])
  /-- An inline wildcard has an option, and all of them are tidy. -/
  | inlineWildcard (options : List Text) :
    options ≠ [] → (∀ option ∈ options, TidyOption option) →
      WellMade (.inlineWildcard () (options.map .str))

/-- Neighbouring segments of the tree of a prompt. -/
structure WellMadeAll (children : List (Segment Unit)) : Prop where
  each : ∀ child ∈ children, WellMade child
  apart : children.IsChain Segment.Apart

/-- A tree of a prompt: an empty text with well-made children. -/
def WellMadePrompt (root : Segment Unit) : Prop :=
  ∃ children, root = promptRoot children ∧ WellMadeAll children

/-- No segments are well made. -/
theorem wellMadeAll_nil : WellMadeAll [] :=
  ⟨List.forall_mem_nil _, .nil⟩

/-- A segment that is no text may stand before any. -/
theorem WellMadeAll.cons {segment : Segment Unit} {rest : List (Segment Unit)}
    (h : WellMadeAll rest) (hsegment : WellMade segment) (htext : ¬segment.isText) :
    WellMadeAll (segment :: rest) :=
  ⟨List.forall_mem_cons.mpr ⟨hsegment, h.each⟩,
    List.isChain_cons.mpr ⟨fun _ _ hboth => htext hboth.1, h.apart⟩⟩

/-! ## Pieces -/

/-- A span takes a single span of its own type in, as long as levels last, and else it has
level 1. -/
theorem spanParts_cases (type : BracketType) (children : List (Segment Unit)) :
    (∃ level metadata inside,
      children = [.branch ⟨(), .weighted (.valid type) (.valid level), metadata⟩ inside] ∧
        level < maxLevel ∧ spanParts type children = (level.toNat + 1, inside)) ∨
      (spanParts type children = (1, children) ∧ ∀ level metadata inside,
        children = [.branch ⟨(), .weighted (.valid type) (.valid level), metadata⟩ inside] →
          ¬level < maxLevel) := by
  unfold spanParts
  split
  · rename_i inner level metadata inside
    by_cases hinner : inner = type ∧ level < maxLevel
    · rw [if_pos hinner, hinner.1]
      exact Or.inl ⟨level, metadata, inside, rfl, hinner.2, rfl⟩
    · rw [if_neg hinner]
      refine Or.inr ⟨rfl, fun level' metadata' inside' heq hlt => hinner ?_⟩
      cases heq
      exact ⟨rfl, hlt⟩
  · rename_i hnone
    exact Or.inr ⟨rfl, fun level metadata inside heq _ => hnone () type level metadata inside heq⟩

/-- The span around some segments is built from its parts. -/
theorem wrapSpan_eq (type : BracketType) (children : List (Segment Unit)) :
    wrapSpan type children =
      .weighted () type (spanParts type children).1 (spanParts type children).2 := by
  rcases spanParts_cases type children with
    ⟨level, metadata, inside, rfl, hlt, hparts⟩ | ⟨hparts, hnone⟩
  · rw [hparts, wrapSpan, if_pos ⟨rfl, hlt⟩]
  · rw [hparts]
    rcases wrapSpan_cases type children with
      hwrap | ⟨level, metadata, inside, hchildren, hlt, -⟩
    · exact hwrap
    · exact absurd hlt (hnone level metadata inside hchildren)

/-- A well-made span has a natural level up to the greatest one, and holds what it can hold. -/
theorem WellMade.span {type : BracketType} {level : Int} {metadata : Option Object}
    {inside : List (Segment Unit)}
    (h : WellMade (.branch ⟨(), .weighted (.valid type) (.valid level), metadata⟩ inside)) :
    ∃ count : Nat, level = count ∧ count ≤ maxLevel ∧
      Segment.branch ⟨(), .weighted (.valid type) (.valid level), metadata⟩ inside =
        .weighted () type count inside ∧
      (∀ inner within, inside = [.weighted () type inner within] → inner = maxLevel) ∧
      WellMadeAll inside := by
  generalize hsegment : Segment.branch _ _ = segment at h
  cases h with
  | weighted type' count inside' hpos hmax hsingle heach hapart =>
    cases hsegment
    exact ⟨count, rfl, hmax, rfl, hsingle, heach, hapart⟩
  | _ => cases hsegment

/-- The parts of a span around well-made segments: its level is in range, and it can hold what
is in it. -/
theorem WellMadeAll.spanParts {type : BracketType} {children : List (Segment Unit)}
    (h : WellMadeAll children) :
    1 ≤ (spanParts type children).1 ∧ (spanParts type children).1 ≤ maxLevel ∧
      (∀ inner inside, (spanParts type children).2 = [.weighted () type inner inside] →
        inner = maxLevel) ∧
      WellMadeAll (spanParts type children).2 := by
  rcases spanParts_cases type children with
    ⟨level, metadata, inside, rfl, hlt, hparts⟩ | ⟨hparts, hnone⟩
  · rcases (h.each _ List.mem_cons_self).span with ⟨count, rfl, -, -, hsingle, hinside⟩
    rw [hparts]
    exact ⟨Nat.succ_pos _, by omega, hsingle, hinside⟩
  · rw [hparts]
    refine ⟨Nat.le_refl 1, Nat.succ_pos _, fun inner inside heq => ?_, h⟩
    have hchildren : children = [.weighted () type inner inside] := heq
    rcases (h.each _ (hchildren ▸ List.mem_cons_self)).span with ⟨count, hcount, hmost, -⟩
    have hleast := hnone _ _ _ hchildren
    omega

/-- The span around well-made segments is well made. -/
theorem wellMade_wrapSpan (type : BracketType) {children : List (Segment Unit)}
    (h : WellMadeAll children) : WellMade (wrapSpan type children) := by
  rw [wrapSpan_eq]
  rcases h.spanParts with ⟨hpos, hmax, hsingle, hparts⟩
  exact .weighted type _ _ hpos hmax hsingle hparts.each hparts.apart

/-- What the rules say of a piece. -/
def Piece.Sound : Piece → Prop
  | .literal text => text ≠ []
  | .weighted .. => True
  | .group options => options ≠ [] ∧ ∀ option ∈ options, TidyOption option
  | .random name => IsName name
  | .fixed name value => IsName name ∧ IsTagValue value

/-- Every piece that is read is sound. -/
theorem Reads.sound {spans boundary : Bool} {text after : Text} {piece : Piece}
    (h : Reads spans boundary text piece after) : piece.Sound := by
  cases h with
  | span => exact trivial
  | mismatch => exact List.cons_ne_nil _ _
  | bracket => exact List.cons_ne_nil _ _
  | group inside _ hbalanced _ hoptions =>
    exact ⟨hoptions, fun _ hoption => tidyOption_of_mem_groupOptions hbalanced hoption⟩
  | paren => exact List.cons_ne_nil _ _
  | random _ _ _ hname => exact hname
  | fixed _ _ _ _ hname hvalue => exact ⟨hname, hvalue⟩
  | word _ _ _ hname => exact hname.1
  | char => exact List.cons_ne_nil _ _

/-- A well-made text is built as one. -/
theorem WellMade.eq_text {segment : Segment Unit} (h : WellMade segment) (htext : segment.isText) :
    ∃ content, segment = .text () content := by
  rcases htext with ⟨content, hkind⟩
  cases h with
  | text content' => exact ⟨content', rfl⟩
  | _ => cases hkind

/-- Literal text before well-made segments leaves them well made. -/
theorem WellMadeAll.prependLiteral {literal : Text} {rest : List (Segment Unit)}
    (h : WellMadeAll rest) (hliteral : literal ≠ []) :
    WellMadeAll (prependLiteral literal rest) := by
  unfold PromptMarkup.prependLiteral
  split
  · rename_i content others
    rcases List.isChain_cons.mp h.apart with ⟨hfirst, hothers⟩
    refine ⟨List.forall_mem_cons.mpr ⟨.text _ (by simp [hliteral]), ?_⟩,
      List.isChain_cons.mpr ⟨fun other hother hboth => ?_, hothers⟩⟩
    · exact (List.forall_mem_cons.mp h.each).2
    · exact hfirst other hother ⟨⟨some content, rfl⟩, hboth.2⟩
  · rename_i hnone
    refine ⟨List.forall_mem_cons.mpr ⟨.text _ hliteral, h.each⟩,
      List.isChain_cons.mpr ⟨fun other hother hboth => ?_, h.apart⟩⟩
    cases rest with
    | nil => cases hother
    | cons first others =>
      cases hother
      rcases (h.each _ List.mem_cons_self).eq_text hboth.2 with ⟨content, rfl⟩
      exact hnone () content others rfl

/-- The segment of a sound piece before well-made segments leaves them well made. -/
theorem wellMade_addPiece {nested : Text → List (Segment Unit)} {piece : Piece}
    {rest : List (Segment Unit)} (hnested : ∀ inside, WellMadeAll (nested inside))
    (hpiece : piece.Sound) (hrest : WellMadeAll rest) :
    WellMadeAll (addPiece nested piece rest) := by
  have hkind : ∀ kind metadata, kind.type? ≠ some .text →
      ¬(Segment.leaf (⟨(), kind, metadata⟩ : Head Unit)).isText := by
    rintro kind metadata htype ⟨content, htext⟩
    exact htype (congrArg Kind.type? (Option.some.inj htext))
  cases piece with
  | literal text => exact hrest.prependLiteral hpiece
  | weighted type inside =>
    refine hrest.cons (wellMade_wrapSpan type (hnested inside)) ?_
    rintro ⟨content, htext⟩
    rw [wrapSpan_eq] at htext
    cases htext
  | group options => exact hrest.cons (.inlineWildcard options hpiece.1 hpiece.2) (hkind _ _ nofun)
  | random name => exact hrest.cons (.random name hpiece) (hkind _ _ nofun)
  | fixed name value => exact hrest.cons (.fixed name value hpiece.1 hpiece.2) (hkind _ _ nofun)

/-- The segments of a text are well made. -/
theorem wellMade_readFrom (depth : Nat) (boundary : Bool) (text : Text) :
    WellMadeAll (readFrom depth boundary text) := by
  induction depth, boundary, text using readInduction with
  | nil depth boundary =>
    rw [readFrom_nil]
    exact wellMadeAll_nil
  | reads depth boundary text piece after hreads hinside ih =>
    rw [readFrom_of_reads hreads]
    refine wellMade_addPiece (fun inside => ?_) hreads.sound ih
    cases depth with
    | zero => exact wellMadeAll_nil
    | succ below => exact hinside below inside rfl

/-- The tree of a prompt is well made. -/
theorem wellMade_readPrompt (text : Text) : WellMadePrompt (readPrompt text) := by
  refine ⟨readFrom maxNesting true text, ?_, wellMade_readFrom maxNesting true text⟩
  rw [readPrompt, readSegments_eq]

/-! ## Normal form -/

namespace Segment

variable {ι : Type}

/-- What has plain text is a text. -/
theorem isText_of_plainText? {segment : Segment ι} (h : segment.plainText? ≠ none) :
    segment.isText := by
  unfold plainText? at h
  split at h
  · exact ⟨_, rfl⟩
  · exact ⟨_, rfl⟩
  · exact absurd rfl h

/-- Plain text is a text, with content or without. -/
theorem isText_of_isPlain {segment : Segment ι} (h : segment.isPlain = true) : segment.isText := by
  unfold isPlain at h
  split at h
  · exact ⟨_, rfl⟩
  · exact ⟨_, rfl⟩
  · cases h

/-- Where texts are apart, no two of them fail to be joined. -/
theorem hasBrokenPair_of_apart {children : List (Segment ι)} (h : children.IsChain Apart) :
    hasBrokenPair children = false := by
  induction children with
  | nil => rfl
  | cons first rest ih =>
    cases rest with
    | nil => rfl
    | cons second rest =>
      rcases List.isChain_cons_cons.mp h with ⟨hfirst, hrest⟩
      have hpair : first.isBrokenPair second = false := by
        by_contra hbroken
        simp only [isBrokenPair, Bool.not_eq_false, Bool.and_eq_true] at hbroken
        exact hfirst ⟨isText_of_isPlain hbroken.1.1, isText_of_isPlain hbroken.1.2⟩
      rw [hasBrokenPair, hpair, ih hrest, Bool.false_or]

/-- The way to the normal form of a tree is open if nothing breaks it off below, the tree has
that form already, and the texts among its children are apart. -/
theorem normalizeError?_branch {head : Head ι} {children : List (Segment ι)}
    (hnormal : (branch head children).IsNormal)
    (hbelow : ∀ child ∈ children, child.normalizeError? = none)
    (hapart : children.IsChain Apart) : (branch head children).normalizeError? = none := by
  rcases isNormal_branch.mp hnormal with ⟨hchildren, hnodes⟩
  rw [normalizeError?, normalizeErrorIn?_eq_none hbelow,
    normalizeList_eq_self fun child hchild => (hnodes child hchild).normalize_eq,
    hchildren.filter_eq_self, hasBrokenPair_of_apart hapart]
  rfl

end Segment

/-- Well-made children are in normal form. -/
theorem WellMadeAll.normalChildren {children : List (Segment Unit)} (h : WellMadeAll children) :
    Segment.NormalChildren children := by
  constructor
  · intro child hchild
    cases h.each child hchild with
    | text content hne => simp [Segment.isEmptyText, Segment.text, Segment.plainText?, hne]
    | _ => rfl
  · refine h.apart.imp fun first second hapart => ?_
    by_contra hboth
    rw [not_or] at hboth
    exact hapart ⟨Segment.isText_of_plainText? hboth.1, Segment.isText_of_plainText? hboth.2⟩

/-- A well-made segment is in normal form, and nothing breaks off the way there. -/
theorem WellMade.normal {segment : Segment Unit} (h : WellMade segment) :
    segment.IsNormal ∧ segment.normalizeError? = none := by
  induction h with
  | weighted type level children _ _ _ heach hapart ih =>
    have hnormal : (Segment.weighted () type level children).IsNormal :=
      Segment.isNormal_branch.mpr ⟨WellMadeAll.normalChildren ⟨heach, hapart⟩,
        fun child hchild => (ih child hchild).1⟩
    exact ⟨hnormal,
      Segment.normalizeError?_branch hnormal (fun child hchild => (ih child hchild).2) hapart⟩
  | _ => exact ⟨Segment.isNormal_leaf _, rfl⟩

/-- A well-made tree is in normal form, and nothing breaks off the way there. -/
theorem WellMadePrompt.normal {root : Segment Unit} (h : WellMadePrompt root) :
    root.IsNormal ∧ root.normalizeError? = none := by
  rcases h with ⟨children, rfl, hchildren⟩
  have hnormal : (promptRoot children).IsNormal :=
    Segment.isNormal_branch.mpr ⟨hchildren.normalChildren,
      fun child hchild => (hchildren.each child hchild).normal.1⟩
  exact ⟨hnormal, Segment.normalizeError?_branch hnormal
    (fun child hchild => (hchildren.each child hchild).normal.2) hchildren.apart⟩

/-- The tree of a prompt is its own normal form. -/
theorem normalize_readPrompt (text : Text) : (readPrompt text).normalize = readPrompt text :=
  (wellMade_readPrompt text).normal.1.normalize_eq

end PromptMarkup
