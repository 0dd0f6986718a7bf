import PromptMarkup.Markup.Single
import PromptMarkup.Proofs.WellMadeTree
import PromptMarkup.Segment.Weight

/-!
# Texts of a single segment

Each reader of single segments accepts the texts of one form, and so does the reader of prompts
where a prompt has one segment only.  The forms are the same, but that a group of a single option
is a choice only to the former.

Main statements:

- {lit}`readWeighted_eq_ok_iff`, {lit}`readPreset_eq_ok_iff` and
  {lit}`readInlineWildcard_eq_ok_iff`: the texts that the readers of single segments accept.
- {lit}`readPrompt_children_eq_singleton_iff`: the prompts of one segment that is no text.
- {lit}`readSingle_iff`: the readers of single segments agree with the reader of prompts.
-/

namespace PromptMarkup

/-- The type of a segment that is there, if it is known. -/
def Segment.type? {ι : Type} (segment : Segment ι) : Option SegmentType :=
  segment.head?.bind (·.kind.type?)

/-! ## Readers of single segments -/

/-- From the start of a text there is depth enough for a span. -/
theorem readSpan?_maxNesting (type : BracketType) (inside : Text) :
    readSpan? maxNesting type inside = some (wrapSpan type (readInside maxNesting inside)) := by
  have hinside : readSegments 127 inside = readInside maxNesting inside :=
    readSegments_eq 127 inside
  rw [← hinside]
  rfl

/-- The spans are the nested texts between brackets of one type. -/
theorem readWeighted_eq_ok_iff {text : Text} {span : Segment Unit} :
    readWeighted text = .ok span ↔ ∃ type inside, Nested inside ∧
      text = type.opener :: inside ++ [type.closer] ∧
      span = fillSpan (wrapSpan type (readInside maxNesting inside)) := by
  have hnormal : ∀ type inside, (wrapSpan type (readInside maxNesting inside)).normalize =
      wrapSpan type (readInside maxNesting inside) := by
    intro type inside
    exact (wellMade_wrapSpan type (wellMade_readFrom 127 true inside)).normal.1.normalize_eq
  constructor
  · intro h
    unfold readWeighted at h
    split at h
    · cases h
    · split at h
      · cases h
      · rename_i c rest _ type hopen
        rw [BracketType.eq_opener_of_ofOpener? hopen]
        split at h
        · rename_i inside hclosing
          rcases closing_eq_matched_iff.mp hclosing with ⟨rfl, hnested⟩
          rw [readSpan?_maxNesting] at h
          simp only [hnormal, Except.ok.injEq] at h
          exact ⟨type, inside, hnested, rfl, h.symm⟩
        · cases h
  · rintro ⟨type, inside, hnested, rfl, rfl⟩
    have hclosing : closing type [] (inside ++ [type.closer]) = .matched inside [] :=
      closing_eq_matched_iff.mpr ⟨rfl, hnested⟩
    simp only [readWeighted, List.cons_append, BracketType.ofOpener?_opener, hclosing,
      readSpan?_maxNesting, hnormal]

/-- Spans are never refused for their depth. -/
theorem readWeighted_ne_nestsTooDeeply (text : Text) :
    readWeighted text ≠ .error .nestsTooDeeply := by
  intro h
  unfold readWeighted at h
  split at h
  · cases h
  · split at h
    · cases h
    · split at h
      · rw [readSpan?_maxNesting] at h
        cases h
      · cases h

/-- The presets are a mark with a name, and a name with a value. -/
theorem readPreset_eq_ok_iff {text : Text} {preset : Segment Unit} :
    readPreset text = .ok preset ↔
      (∃ name, IsName name ∧ text = '!' :: name ∧ preset = .preset () name .random none []) ∨
      ∃ name value, IsName name ∧ IsTagValue value ∧ text = name ++ ':' :: value ∧
        preset = .preset () name .fixed (some value) [] := by
  constructor
  · intro h
    unfold readPreset at h
    split at h
    · cases h
    · split at h
      · rename_i name hread
        rcases readName?_eq_some_iff.mp hread with ⟨hsplit, hname, -⟩
        cases h
        exact Or.inl ⟨name, hname, by rw [hsplit, List.append_nil], rfl⟩
      · cases h
    · split at h
      · rename_i name rest hread
        split at h
        · rename_i value hvalue
          rcases readName?_eq_some_iff.mp hread with ⟨rfl, hname, -⟩
          rcases readValue?_eq_some_iff.mp hvalue with ⟨rfl, hvalue, -⟩
          cases h
          exact Or.inr ⟨name, value, hname, hvalue, by rw [List.append_nil], rfl⟩
        · cases h
      · cases h
  · rintro (⟨name, hname, rfl, rfl⟩ | ⟨name, value, hname, hvalue, rfl, rfl⟩)
    · have hread : readName? name = some (name, []) :=
        readName?_eq_some_iff.mpr ⟨(List.append_nil name).symm, hname, startsOutside_nil _⟩
      simp only [readPreset, hread]
    · have hread : readName? (name ++ ':' :: value) = some (name, ':' :: value) :=
        readName?_eq_some_iff.mpr ⟨rfl, hname, startsOutside_cons.mpr (by decide)⟩
      have hrest : readValue? (':' :: value) = some (value, []) :=
        readValue?_eq_some_iff.mpr ⟨by simp, hvalue, startsOutside_nil _⟩
      rcases name with _ | ⟨c, name⟩
      · exact absurd rfl hname.1
      · have hmark : c ≠ '!' := by
          rintro rfl
          exact absurd (hname.2 '!' List.mem_cons_self) (by decide)
        unfold readPreset
        split
        · rename_i hnil
          cases hnil
        · rename_i rest hsplit
          exact absurd (List.cons.inj hsplit).1 hmark
        · simp only [hread, hrest]

/-- The inline wildcards are the balanced texts with an option, in parentheses. -/
theorem readInlineWildcard_eq_ok_iff {text : Text} {choice : Segment Unit} :
    readInlineWildcard text = .ok choice ↔ ∃ inside, Balanced inside ∧
      groupOptions inside ≠ [] ∧ text = '(' :: inside ++ [')'] ∧
      choice = .inlineWildcard () ((groupOptions inside).map .str) := by
  constructor
  · intro h
    unfold readInlineWildcard at h
    split at h
    · split at h
      · rename_i inside hclose
        rcases groupClose?_eq_some_iff.mp hclose with ⟨rfl, hbalanced⟩
        split at h
        · cases h
        · split at h
          · cases h
          · rename_i hoptions
            cases h
            exact ⟨inside, hbalanced, hoptions, rfl, rfl⟩
      · cases h
    · cases h
  · rintro ⟨inside, hbalanced, hoptions, rfl, rfl⟩
    -- What has an option is not blank.
    have hshown : (trim inside).isEmpty = false := by
      rw [List.isEmpty_eq_false_iff]
      intro hblank
      rcases exists_trim_append inside with ⟨before, after, hsplit, hbefore, hafter⟩
      rw [hblank, List.append_nil] at hsplit
      refine hoptions (groupOptions_eq_nil_of_blank fun c hc => ?_)
      rw [hsplit] at hc
      exact (List.mem_append.mp hc).elim (hbefore c) (hafter c)
    have hclose := hbalanced.groupClose? []
    simp only [readInlineWildcard, List.cons_append, hclose, hshown, hoptions, if_false,
      Bool.false_eq_true]

/-! ## Prompts of one segment -/

/-- The segment of a piece is there. -/
theorem addPiece_ne_nil (nested : Text → List (Segment Unit)) (piece : Piece)
    (rest : List (Segment Unit)) : addPiece nested piece rest ≠ [] := by
  cases piece with
  | literal text =>
    rw [addPiece]
    unfold prependLiteral
    split <;> exact List.cons_ne_nil _ _
  | _ => exact List.cons_ne_nil _ _

/-- Only the empty text has no segments. -/
theorem readFrom_eq_nil_iff {depth : Nat} {boundary : Bool} {text : Text} :
    readFrom depth boundary text = [] ↔ text = [] := by
  constructor
  · intro h
    induction boundary, text using Reads.induction (spansAt depth) with
    | nil => rfl
    | reads boundary text piece after hreads _ =>
      rw [readFrom_of_reads hreads] at h
      exact absurd h (addPiece_ne_nil _ _ _)
  · rintro rfl
    exact readFrom_nil depth boundary

/-- A text is read as one segment that is no text if it is one piece that is not literal. -/
theorem readFrom_eq_singleton_iff {depth : Nat} {boundary : Bool} {text : Text}
    {segment : Segment Unit} (htext : segment.type? ≠ some .text) :
    readFrom depth boundary text = [segment] ↔ ∃ piece,
      Reads (spansAt depth) boundary text piece [] ∧
        addPiece (readInside depth) piece [] = [segment] := by
  constructor
  · intro h
    induction boundary, text using Reads.induction (spansAt depth) with
    | nil boundary =>
      rw [readFrom_nil] at h
      cases h
    | reads boundary text piece after hreads _ =>
      rw [readFrom_of_reads hreads] at h
      have hafter : after = [] := by
        refine readFrom_eq_nil_iff.mp (?_ : readFrom depth (!piece.endsInName) after = [])
        cases piece with
        | literal literal =>
          rw [addPiece] at h
          unfold prependLiteral at h
          split at h
          · exact absurd ((List.cons.inj h).1 ▸ rfl) htext
          · exact absurd ((List.cons.inj h).1 ▸ rfl) htext
        | _ => exact (List.cons.inj h).2
      subst hafter
      rw [readFrom_nil] at h
      exact ⟨piece, hreads, h⟩
  · rintro ⟨piece, hreads, hsegment⟩
    rw [readFrom_of_reads hreads, readFrom_nil, hsegment]

/-- The prompts of one segment that is no text: a span, a choice or a preset that goes through
to the end. -/
theorem readPrompt_children_eq_singleton_iff {text : Text} {segment : Segment Unit}
    {type : SegmentType} (htype : segment.type? = some type) (htext : type ≠ .text) :
    (readPrompt text).children = [segment] ↔ ∃ piece,
      Reads true true text piece [] ∧ addPiece (readInside maxNesting) piece [] = [segment] := by
  rw [children_readPrompt]
  refine readFrom_eq_singleton_iff ?_
  rw [htype]
  exact fun heq => htext (Option.some.inj heq)

/-- A prompt is one span exactly if it is a nested text between brackets of one type. -/
theorem readPrompt_eq_span_iff {text : Text} {child : Segment Unit} :
    (readPrompt text).children = [child] ∧ child.type? = some .weighted ↔
      ∃ type inside, Nested inside ∧ text = type.opener :: inside ++ [type.closer] ∧
        child = wrapSpan type (readInside maxNesting inside) := by
  constructor
  · rintro ⟨hchild, htype⟩
    rcases (readPrompt_children_eq_singleton_iff htype (by decide)).mp hchild with
      ⟨piece, hreads, hsegment⟩
    cases hreads with
    | span type inside after hspans hnested =>
      exact ⟨type, inside, hnested, rfl, (List.singleton_inj.mp hsegment).symm⟩
    | _ =>
      cases hsegment
      cases htype
  · rintro ⟨type, inside, hnested, rfl, rfl⟩
    have htype : (wrapSpan type (readInside maxNesting inside)).type? = some .weighted := by
      rw [wrapSpan_eq]
      rfl
    exact ⟨(readPrompt_children_eq_singleton_iff htype (by decide)).mpr
      ⟨.weighted type inside, .span type inside [] rfl hnested, rfl⟩, htype⟩

/-- A prompt is one preset exactly if it is a mark with a name, or a name with a value. -/
theorem readPrompt_eq_preset_iff {text : Text} {child : Segment Unit} :
    (readPrompt text).children = [child] ∧ child.type? = some .preset ↔
      (∃ name, IsName name ∧ text = '!' :: name ∧ child = .preset () name .random none []) ∨
      ∃ name value, IsName name ∧ IsTagValue value ∧ text = name ++ ':' :: value ∧
        child = .preset () name .fixed (some value) [] := by
  constructor
  · rintro ⟨hchild, htype⟩
    rcases (readPrompt_children_eq_singleton_iff htype (by decide)).mp hchild with
      ⟨piece, hreads, hsegment⟩
    cases hreads with
    | random name after hboundary hname =>
      exact Or.inl ⟨name, hname, List.append_nil _, (List.singleton_inj.mp hsegment).symm⟩
    | fixed name value after hboundary hname hvalue =>
      exact Or.inr ⟨name, value, hname, hvalue, List.append_nil _,
        (List.singleton_inj.mp hsegment).symm⟩
    | span type inside =>
      rw [addPiece, wrapSpan_eq] at hsegment
      cases hsegment
      cases htype
    | _ =>
      cases hsegment
      cases htype
  · rintro (⟨name, hname, rfl, rfl⟩ | ⟨name, value, hname, hvalue, rfl, rfl⟩)
    · refine ⟨(readPrompt_children_eq_singleton_iff rfl (by decide)).mpr
        ⟨.random name, ?_, rfl⟩, rfl⟩
      have hreads : Reads true true _ _ _ := .random name [] rfl hname (startsOutside_nil _)
      rwa [List.append_nil] at hreads
    · refine ⟨(readPrompt_children_eq_singleton_iff rfl (by decide)).mpr
        ⟨.fixed name value, ?_, rfl⟩, rfl⟩
      have hreads : Reads true true _ _ _ :=
        .fixed name value [] rfl hname hvalue (startsOutside_nil _)
      rwa [List.append_nil] at hreads

/-- A prompt is one inline wildcard exactly if it is a balanced text with two parts and an option,
in parentheses. -/
theorem readPrompt_eq_inlineWildcard_iff {text : Text} {child : Segment Unit} :
    (readPrompt text).children = [child] ∧ child.type? = some .inlineWildcard ↔
      ∃ inside, Balanced inside ∧ 2 ≤ (splitOptions inside).length ∧ groupOptions inside ≠ [] ∧
        text = '(' :: inside ++ [')'] ∧
        child = .inlineWildcard () ((groupOptions inside).map .str) := by
  constructor
  · rintro ⟨hchild, htype⟩
    rcases (readPrompt_children_eq_singleton_iff htype (by decide)).mp hchild with
      ⟨piece, hreads, hsegment⟩
    cases hreads with
    | group inside after hbalanced hparts hoptions =>
      exact ⟨inside, hbalanced, hparts, hoptions, rfl, (List.singleton_inj.mp hsegment).symm⟩
    | span type inside =>
      rw [addPiece, wrapSpan_eq] at hsegment
      cases hsegment
      cases htype
    | _ =>
      cases hsegment
      cases htype
  · rintro ⟨inside, hbalanced, hparts, hoptions, rfl, rfl⟩
    exact ⟨(readPrompt_children_eq_singleton_iff rfl (by decide)).mpr
      ⟨.group (groupOptions inside), .group inside [] hbalanced hparts hoptions, rfl⟩, rfl⟩

/-- The readers of single segments agree with the reader of prompts.  A text is read as one span
exactly if its prompt has a single segment and that is a span; the spans are the same, but that
a span without children is given an empty text.  It is never refused for its depth.  A text is
read as one preset exactly if its prompt has a single segment and that is a preset, the same one.
A prompt has a single segment that is an inline wildcard exactly if its text is read as one, the
same one, and has two parts at least between its parentheses. -/
theorem readSingle_iff (text : Text) :
    (∀ span, readWeighted text = .ok span ↔ ∃ child,
      ((readPrompt text).children = [child] ∧ child.type? = some .weighted) ∧
        span = if child.children = [] then child.withChildren [.text () []] else child) ∧
      readWeighted text ≠ .error .nestsTooDeeply ∧
      (∀ preset, readPreset text = .ok preset ↔
        (readPrompt text).children = [preset] ∧ preset.type? = some .preset) ∧
      ∀ choice, (readPrompt text).children = [choice] ∧ choice.type? = some .inlineWildcard ↔
        readInlineWildcard text = .ok choice ∧
          ∃ inside, text = '(' :: inside ++ [')'] ∧ 2 ≤ (splitOptions inside).length := by
  have hfill : ∀ child : Segment Unit, fillSpan child =
      if child.children = [] then child.withChildren [.text () []] else child := by
    intro child
    simp [fillSpan]
  refine ⟨fun span => ?_, readWeighted_ne_nestsTooDeeply text, fun preset => ?_, fun choice => ?_⟩
  · rw [readWeighted_eq_ok_iff]
    constructor
    · rintro ⟨type, inside, hnested, htext, rfl⟩
      exact ⟨_, readPrompt_eq_span_iff.mpr ⟨type, inside, hnested, htext, rfl⟩, hfill _⟩
    · rintro ⟨child, hchild, rfl⟩
      rcases readPrompt_eq_span_iff.mp hchild with ⟨type, inside, hnested, htext, rfl⟩
      exact ⟨type, inside, hnested, htext, (hfill _).symm⟩
  · rw [readPreset_eq_ok_iff, readPrompt_eq_preset_iff]
  · rw [readPrompt_eq_inlineWildcard_iff, readInlineWildcard_eq_ok_iff]
    constructor
    · rintro ⟨inside, hbalanced, hparts, hoptions, htext, rfl⟩
      exact ⟨⟨inside, hbalanced, hoptions, htext, rfl⟩, inside, htext, hparts⟩
    · rintro ⟨⟨inside, hbalanced, hoptions, rfl, rfl⟩, other, hother, hparts⟩
      have hsame : inside = other := by simpa using hother
      exact ⟨inside, hbalanced, hsame ▸ hparts, hoptions, rfl, rfl⟩

end PromptMarkup
