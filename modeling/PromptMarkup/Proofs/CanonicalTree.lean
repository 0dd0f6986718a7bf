import Mathlib.Data.List.Chain
import PromptMarkup.Proofs.CanonicalText

/-!
# Canonical trees

A tree is canonical if it says in the shortest way what it says: its texts are joined and
hold nothing that could be read as something else, its spans are collapsed as far as
levels last, and wherever two segments meet their texts stay apart.

Main statements:

- {lit}`WrittenAs.head_cases`: what the text of a canonical segment begins with.
- {lit}`CanonicalBelow.exists_render`: a canonical segment has a text, in which brackets are
  nested.
-/

namespace PromptMarkup

/-- A character with a meaning outside of options. -/
def isSpecial (c : Char) : Bool :=
  isBracket c || c = '(' || c = ')' || c = '!' || c = ':'

/-- An option of a canonical tree. -/
structure CanonicalOption (option : Text) : Prop extends TidyOption option where
  plain : ∀ c ∈ option, isBracket c = false

/-- The number of brackets that a kind of segment puts around its children. -/
def Kind.levels : Kind → Nat
  | .weighted _ (.valid level) => level.toNat
  | _ => 0

namespace Segment

variable {ι : Type}

/-! ## Definitions -/

/-- Whether a segment is a text. -/
def isText (segment : Segment ι) : Prop :=
  ∃ content, segment.kind? = some (.text content)

/-- The mode of a segment that is a preset. -/
def mode? (segment : Segment ι) : Option PresetMode :=
  match segment.kind? with
  | some (.preset _ (.valid mode) _) => some mode
  | _ => none

/-- What a segment of a canonical tree may say by itself, given its children. -/
inductive CanonicalKind : Kind → List (Segment ι) → Prop where
  /-- A text is not empty and has no special characters. -/
  | text (content : Text) :
    content ≠ [] → (∀ c ∈ content, isSpecial c = false) →
      CanonicalKind (.text (some content)) []
  /-- A span has a level of its own, and holds no single span that it could take in. -/
  | weighted (type : BracketType) (level : Nat) (children : List (Segment ι)) :
    1 ≤ level → level ≤ maxLevel →
      (∀ child inner, children = [child] →
        child.kind? = some (.weighted (.valid type) (.valid inner)) → inner = maxLevel) →
      CanonicalKind (.weighted (.valid type) (.valid level)) children
  /-- A random preset has a name and no value. -/
  | random (name : Text) :
    IsName name → CanonicalKind (.preset name (.valid .random) none) []
  /-- A fixed preset has a name and a value. -/
  | fixed (name value : Text) :
    IsName name → IsTagValue value →
      CanonicalKind (.preset name (.valid .fixed) (some value)) []
  /-- An inline wildcard has two options at least. -/
  | inlineWildcard (options : List Text) :
    2 ≤ options.length → (∀ option ∈ options, CanonicalOption option) →
      CanonicalKind (.inlineWildcard (options.map .str)) []

/-- One segment may stand before another: texts are joined, a preset does not follow a
name character, and what follows a preset does not go on with it. -/
structure MayPrecede (first second : Segment ι) : Prop where
  texts : ¬(first.isText ∧ second.isText)
  boundary : ∀ mode, second.mode? = some mode → ∀ text, first.render = .ok text →
    text.getLast?.any isNameChar = false
  random : first.mode? = some .random → ∀ text, second.render = .ok text →
    StartsOutside isNameChar text
  fixed : first.mode? = some .fixed → ∀ text, second.render = .ok text →
    StartsOutside isValueChar text

mutual

/-- The greatest sum of levels on a way from a segment down. -/
def bracketDepth : Segment ι → Nat
  | .missing => 0
  | .leaf head => head.kind.levels
  | .branch head children => head.kind.levels + bracketDepthIn children

/-- The greatest sum of levels on a way down from one of some segments. -/
def bracketDepthIn : List (Segment ι) → Nat
  | [] => 0
  | child :: rest => max child.bracketDepth (bracketDepthIn rest)

end

/-- A segment that may stand below the root of a canonical tree. -/
def CanonicalBelow (segment : Segment ι) : Prop :=
  ∀ node ∈ segment.nodes, (∃ kind, node.kind? = some kind ∧ CanonicalKind kind node.children) ∧
    node.children.IsChain MayPrecede

/-- A canonical tree: an empty text at the root, canonical segments below it, and no more
brackets on any way down than may be nested. -/
structure Canonical (root : Segment ι) : Prop where
  top : root.kind? = some (.text (some []))
  below : ∀ child ∈ root.children, child.CanonicalBelow
  siblings : root.children.IsChain MayPrecede
  depth : root.bracketDepth ≤ maxNesting

/-! ## Texts of canonical segments -/

/-- The segments below a canonical one are canonical. -/
theorem CanonicalBelow.child {segment child : Segment ι} (h : segment.CanonicalBelow)
    (hchild : child ∈ segment.children) : child.CanonicalBelow := by
  intro node hnode
  exact h node (mem_nodes_trans (mem_nodes_of_mem_children (mem_nodes_self segment) hchild) hnode)

/-- A text without special characters is nested. -/
theorem nested_of_not_special {content : Text} (h : ∀ c ∈ content, isSpecial c = false) :
    Nested content := by
  apply nested_of_plain
  intro c hc
  have hspecial := h c hc
  simp only [isSpecial, Bool.or_eq_false_iff] at hspecial
  exact hspecial.1.1.1.1

/-- How a canonical segment is written, by its kind. -/
inductive WrittenAs (segment : Segment ι) : Text → Prop where
  | text (content : Text) :
    segment.kind? = some (.text (some content)) → content ≠ [] →
      (∀ c ∈ content, isSpecial c = false) → WrittenAs segment content
  | weighted (type : BracketType) (level : Nat) (inner : Text) :
    segment.kind? = some (.weighted (.valid type) (.valid level)) →
      renderList segment.children = .ok inner → 1 ≤ level → level ≤ maxLevel →
      (∀ child inner, segment.children = [child] →
        child.kind? = some (.weighted (.valid type) (.valid inner)) → inner = maxLevel) →
      WrittenAs segment (enclose type level inner)
  | random (name : Text) :
    segment.kind? = some (.preset name (.valid .random) none) → IsName name →
      WrittenAs segment ('!' :: name)
  | fixed (name value : Text) :
    segment.kind? = some (.preset name (.valid .fixed) (some value)) → IsName name →
      IsTagValue value → WrittenAs segment (name ++ ':' :: value)
  | inlineWildcard (options : List Text) :
    segment.kind? = some (.inlineWildcard (options.map .str)) → 2 ≤ options.length →
      (∀ option ∈ options, CanonicalOption option) →
      WrittenAs segment ('(' :: joinWith ['|'] options ++ [')'])

/-- A canonical segment is written by its kind. -/
theorem exists_writtenAs {segment : Segment ι} {kind : Kind} {inner : Text}
    (hkind : segment.kind? = some kind) (h : CanonicalKind kind segment.children)
    (hinner : renderList segment.children = .ok inner) :
    ∃ text, segment.render = .ok text ∧ segment.WrittenAs text := by
  rw [render_of_kind? hkind hinner]
  generalize hchildren : segment.children = children at h hinner
  cases h with
  | text content hne hplain =>
    cases hinner
    exact ⟨content, by simp [Kind.render], .text content hkind hne hplain⟩
  | weighted type level _ hpos hmax hsingle =>
    subst hchildren
    refine ⟨enclose type level inner, ?_, .weighted type level inner hkind hinner hpos hmax hsingle⟩
    simp only [Kind.render, wrapWeighted, Stored.bracketType?, Stored.brackets,
      clampLevel_natCast hmax]
    rfl
  | random name hname => exact ⟨'!' :: name, rfl, .random name hkind hname⟩
  | fixed name value hname hvalue =>
    exact ⟨name ++ ':' :: value, rfl, .fixed name value hkind hname hvalue⟩
  | inlineWildcard options hlength hoptions =>
    refine ⟨'(' :: joinWith ['|'] options ++ [')'], ?_,
      .inlineWildcard options hkind hlength hoptions⟩
    simp only [Kind.render, optionTexts_map_str]
    rfl

/-- Nested texts in any number of brackets are nested. -/
theorem nested_enclose {inner : Text} (h : Nested inner) (type : BracketType) (level : Nat) :
    Nested (enclose type level inner) := by
  induction level with
  | zero => simpa [enclose, repeated] using h
  | succ level ih =>
    rw [enclose_succ]
    exact ih.enclose type

/-- Brackets are nested in what a canonical segment is written as, if they are in the text
of its children. -/
theorem WrittenAs.nested {segment : Segment ι} {text : Text} (h : segment.WrittenAs text)
    (hinner : ∀ inner, renderList segment.children = .ok inner → Nested inner) :
    Nested text := by
  cases h with
  | text content _ _ hplain => exact nested_of_not_special hplain
  | weighted type level inner _ hchildren =>
    exact nested_enclose (hinner inner hchildren) type level
  | random name _ hname =>
    apply nested_of_plain
    intro c hc
    rcases List.mem_cons.mp hc with rfl | hc
    · decide
    · exact isBracket_of_isNameChar (hname.2 c hc)
  | fixed name value _ hname hvalue =>
    apply nested_of_plain
    intro c hc
    rcases List.mem_append.mp hc with hc | hc
    · exact isBracket_of_isNameChar (hname.2 c hc)
    · rcases List.mem_cons.mp hc with rfl | hc
      · decide
      · exact isBracket_of_isValueChar (hvalue.2 c hc)
  | inlineWildcard options _ _ hoptions =>
    apply nested_of_plain
    intro c hc
    rcases List.mem_append.mp hc with hc | hc
    · rcases List.mem_cons.mp hc with rfl | hc
      · decide
      · rcases mem_joinWith hc with rfl | ⟨option, hoption, hmem⟩
        · decide
        · exact (hoptions option hoption).plain c hmem
    · rw [List.mem_singleton.mp hc]
      decide

/-- A canonical segment is not written as nothing. -/
theorem WrittenAs.ne_nil {segment : Segment ι} {text : Text} (h : segment.WrittenAs text) :
    text ≠ [] := by
  cases h with
  | text content _ hne => exact hne
  | weighted type level inner _ _ hpos =>
    cases level with
    | zero => cases hpos
    | succ level => simp [enclose_succ]
  | random name => simp
  | fixed name value => simp
  | inlineWildcard options => simp

/-- What is no text begins with a mark, or with the name of a fixed preset. -/
theorem WrittenAs.head_cases {segment : Segment ι} {text : Text} (h : segment.WrittenAs text)
    (htext : ¬segment.isText) :
    ∃ c rest, text = c :: rest ∧ c ≠ ':' ∧
      (isNameChar c = true → segment.mode? = some .fixed) := by
  cases h with
  | text content hkind => exact absurd ⟨some text, hkind⟩ htext
  | weighted type level inner _ _ hpos =>
    cases level with
    | zero => cases hpos
    | succ level =>
      refine ⟨type.opener, enclose type level inner ++ [type.closer], ?_, ?_, ?_⟩
      · rw [enclose_succ]
        rfl
      · cases type <;> decide
      · intro hname
        rw [isNameChar_opener] at hname
        cases hname
  | random name => exact ⟨'!', name, rfl, by decide, fun hname => absurd hname (by decide)⟩
  | fixed name value hkind hname =>
    cases name with
    | nil => exact absurd rfl hname.1
    | cons c name =>
      refine ⟨c, name ++ ':' :: value, rfl, ?_, fun _ => by rw [mode?, hkind]⟩
      rintro rfl
      exact absurd (hname.2 ':' List.mem_cons_self) (by decide)
  | inlineWildcard options =>
    exact ⟨'(', _, rfl, by decide, fun hname => absurd hname (by decide)⟩

/-- Canonical segments have texts in which brackets are nested. -/
theorem exists_renderList_nested {children : List (Segment ι)}
    (h : ∀ child ∈ children, ∃ text, child.render = .ok text ∧ child.WrittenAs text ∧ Nested text) :
    ∃ inner, renderList children = .ok inner ∧ Nested inner := by
  induction children with
  | nil => exact ⟨[], rfl, rfl⟩
  | cons child rest ih =>
    rcases h child List.mem_cons_self with ⟨text, htext, -, hnested⟩
    rcases ih fun other hother => h other (List.mem_cons_of_mem _ hother) with
      ⟨texts, htexts, hnestedRest⟩
    exact ⟨text ++ texts, renderList_cons htext htexts, hnested.append hnestedRest⟩

/-- A canonical segment has a text, in which brackets are nested. -/
theorem CanonicalBelow.exists_render {segment : Segment ι} (h : segment.CanonicalBelow) :
    ∃ text, segment.render = .ok text ∧ segment.WrittenAs text ∧ Nested text := by
  have hstep : ∀ segment : Segment ι, segment.CanonicalBelow →
      (∀ child ∈ segment.children,
        ∃ text, child.render = .ok text ∧ child.WrittenAs text ∧ Nested text) →
      ∃ text, segment.render = .ok text ∧ segment.WrittenAs text ∧ Nested text := by
    intro segment h hchildren
    rcases exists_renderList_nested hchildren with ⟨inner, hinner, hnested⟩
    rcases (h segment (mem_nodes_self segment)).1 with ⟨kind, hkind, hcanonical⟩
    rcases exists_writtenAs hkind hcanonical hinner with ⟨text, htext, hwritten⟩
    refine ⟨text, htext, hwritten, hwritten.nested ?_⟩
    intro other hother
    rw [hinner] at hother
    cases hother
    exact hnested
  induction segment with
  | missing => exact hstep _ h (List.forall_mem_nil _)
  | leaf head => exact hstep _ h (List.forall_mem_nil _)
  | branch head children ih => exact hstep _ h fun child hchild => ih child hchild (h.child hchild)

end Segment

end PromptMarkup
