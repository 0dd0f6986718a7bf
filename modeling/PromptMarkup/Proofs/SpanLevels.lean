import Mathlib.Algebra.GroupWithZero.Nat
import PromptMarkup.Proofs.CondensedTree
import PromptMarkup.Proofs.NestingDepth
import PromptMarkup.Proofs.WellMadeTree

/-!
# The levels of spans

A span stands for as many pairs of brackets as it has levels.  Brackets around a text that is a
single span of their type are another level of that span as long as levels last, and otherwise
a span around it; whatever is inside is one level deeper either way.  So where brackets are
nested in all, and no deeper than the reader goes, none is lost: the levels of the spans of a
type are as many as its opening brackets.

A span may have nothing in it.  The place in it then stands for a leaf, for the levels of the
span to be seen somewhere.

Main statements:

- {lit}`leafLevels_wrapSpan`: a span adds one level to the leaves in it.
- {lit}`readPrompt_enclosed`: one more pair of brackets is one more level.
- {lit}`accounts_readFrom`: what a nested text is read as accounts for its brackets.
- {lit}`readPrompt_nested`: no bracket of a nested text is literal or lost.
-/

namespace PromptMarkup

/-! ## Levels -/

/-- The levels of a span of some type; there are none in another kind of segment. -/
def Kind.levelsOf (type : BracketType) : Kind → Nat
  | .weighted (.valid found) (.valid level) => if found = type then level.toNat else 0
  | _ => 0

namespace Segment

variable {ι : Type}

/-! ## Levels around the leaves -/

mutual

/-- The leaves of a tree in document order, each with the sum of the levels of the spans of a
type around it, on top of some levels further out.  Where a segment has no children in its list,
the empty place stands for a leaf. -/
def leafLevels (type : BracketType) (outer : Nat) : Segment ι → List (Option (Head ι) × Nat)
  | .missing => []
  | .leaf head => [(some head, outer)]
  | .branch head children =>
    if children = [] then [(none, outer + head.kind.levelsOf type)]
    else leafLevelsList type (outer + head.kind.levelsOf type) children

/-- The leaves of a list of trees with the levels around them, one tree after the other. -/
def leafLevelsList (type : BracketType) (outer : Nat) :
    List (Segment ι) → List (Option (Head ι) × Nat)
  | [] => []
  | child :: rest => leafLevels type outer child ++ leafLevelsList type outer rest

end

/-- The leaves of a list of trees are those of its trees. -/
theorem leafLevelsList_eq_flatMap (type : BracketType) (outer : Nat) (trees : List (Segment ι)) :
    leafLevelsList type outer trees = trees.flatMap (leafLevels type outer) := by
  induction trees with
  | nil => rfl
  | cons tree rest ih => rw [leafLevelsList, ih, List.flatMap_cons]

/-- One level more outside is one level more around each leaf. -/
theorem leafLevels_succ (type : BracketType) (outer : Nat) (root : Segment ι) :
    leafLevels type (outer + 1) root = (leafLevels type outer root).map (Prod.map id (· + 1)) := by
  induction root generalizing outer with
  | missing => rfl
  | leaf head => rfl
  | branch head children ih =>
    rw [leafLevels, leafLevels, Nat.add_right_comm]
    split
    · rfl
    · rw [leafLevelsList_eq_flatMap, leafLevelsList_eq_flatMap, List.map_flatMap]
      exact List.flatMap_congr fun child hchild => ih child hchild _

/-- A segment with one level more than another has one level more around its leaves, if its
children are the same. -/
theorem leafLevels_branch_succ {type : BracketType} {head other : Head ι}
    (h : head.kind.levelsOf type = other.kind.levelsOf type + 1) (outer : Nat)
    (children : List (Segment ι)) :
    leafLevels type outer (.branch head children) =
      (leafLevels type outer (.branch other children)).map (Prod.map id (· + 1)) := by
  rw [← leafLevels_succ, leafLevels, leafLevels, h, Nat.add_right_comm, Nat.add_assoc]

end Segment

/-- Around the leaves of a single segment of a prompt there are the levels of that segment. -/
theorem leafLevels_promptRoot_singleton (type : BracketType) (child : Segment Unit) :
    (promptRoot [child]).leafLevels type 0 = child.leafLevels type 0 := by
  simp [promptRoot, Segment.leafLevels, Segment.leafLevelsList, Kind.levelsOf]

/-- A span adds one level of its type to the leaves in it. -/
theorem leafLevels_wrapSpan (type : BracketType) (children : List (Segment Unit)) :
    (promptRoot [wrapSpan type children]).leafLevels type 0 =
      ((promptRoot children).leafLevels type 0).map (Prod.map id (· + 1)) := by
  rw [leafLevels_promptRoot_singleton, wrapSpan_eq]
  rcases spanParts_cases type children with
    ⟨level, metadata, inside, rfl, -, hparts⟩ | ⟨hparts, -⟩
  · rw [hparts, leafLevels_promptRoot_singleton]
    refine Segment.leafLevels_branch_succ ?_ 0 inside
    simp only [Kind.levelsOf, ↓reduceIte, Int.toNat_natCast]
  · rw [hparts]
    refine Segment.leafLevels_branch_succ ?_ 0 children
    simp only [Kind.levelsOf, ↓reduceIte, Int.toNat_natCast]

/-! ## One more pair of brackets -/

/-- The parts of a span around well-made segments, by whether they are a single span of its type
with a level to spare. -/
theorem WellMadeAll.spanParts_eq {children : List (Segment Unit)} (h : WellMadeAll children)
    (type : BracketType) :
    (∀ level inside, children = [.weighted () type level inside] → level < maxLevel →
      PromptMarkup.spanParts type children = (level + 1, inside)) ∧
      ((∀ level inside, children = [.weighted () type level inside] → ¬level < maxLevel) →
        PromptMarkup.spanParts type children = (1, children)) := by
  constructor
  · rintro level inside rfl hlt
    simp [PromptMarkup.spanParts, Segment.weighted, hlt]
  · intro hnone
    rcases spanParts_cases type children with
      ⟨level, metadata, inside, rfl, hlt, -⟩ | ⟨hparts, -⟩
    · rcases (h.each _ List.mem_cons_self).span with ⟨count, rfl, -, hspan, -⟩
      exact absurd (Int.ofNat_lt.mp hlt) (hnone count inside (by rw [hspan]))
    · exact hparts

/-- Brackets around a nested text make a span around what the text is read as, if one depth is
left for them. -/
theorem readPrompt_span {text : Text} (h : NestedUpTo (maxNesting - 1) text) (type : BracketType) :
    readPrompt (type.opener :: text ++ [type.closer]) =
      promptRoot [wrapSpan type (readPrompt text).children] := by
  have hreads : Reads (spansAt maxNesting) true (type.opener :: text ++ [type.closer])
      (.weighted type text) [] := .span type text [] rfl h.nested
  have hinside : readInside maxNesting text = readFrom maxNesting true text :=
    readFrom_depth maxNesting true text h.opensSpans (by decide) (Nat.le_refl 127)
  rw [readPrompt, readSegments_eq, readFrom_of_reads hreads, readFrom_nil, children_readPrompt,
    ← hinside]
  rfl

/-- One more pair of brackets is one more level.  A text is put between brackets of a type, and
brackets are nested in it, in such a depth that one more is left.  Then it is read as one span of
that type.  If the text was such a span alone, and had a level to spare, its level is one higher
and its children are the same; otherwise the span has level 1 and holds what the text was read
as.  The leaves are those of the text, and around each of them there is one level more. -/
theorem readPrompt_enclosed {text : Text} (h : NestedUpTo (maxNesting - 1) text)
    (type : BracketType) :
    ∃ level inside, (readPrompt (type.opener :: text ++ [type.closer])).children =
        [.weighted () type level inside] ∧
      (∀ count within, (readPrompt text).children = [.weighted () type count within] →
        count < maxLevel → level = count + 1 ∧ inside = within) ∧
      ((∀ count within, (readPrompt text).children = [.weighted () type count within] →
        ¬count < maxLevel) → level = 1 ∧ inside = (readPrompt text).children) ∧
      (readPrompt (type.opener :: text ++ [type.closer])).leafLevels type 0 =
        ((readPrompt text).leafLevels type 0).map (Prod.map id (· + 1)) := by
  have hwellMade : WellMadeAll (readPrompt text).children := by
    rw [children_readPrompt]
    exact wellMade_readFrom maxNesting true text
  rcases hwellMade.spanParts_eq type with ⟨hdeeper, hfirst⟩
  refine ⟨(spanParts type (readPrompt text).children).1,
    (spanParts type (readPrompt text).children).2, ?_, ?_, ?_, ?_⟩
  · rw [readPrompt_span h, wrapSpan_eq]
    rfl
  · intro count within hchildren hlt
    rw [hdeeper count within hchildren hlt]
    exact ⟨rfl, rfl⟩
  · intro hnone
    rw [hfirst hnone]
    exact ⟨rfl, rfl⟩
  · rw [readPrompt_span h, leafLevels_wrapSpan]
    rfl

/-- As many brackets of one type around a character as a span has levels. -/
def cappedText : Text :=
  List.replicate maxLevel '{' ++ 'a' :: List.replicate maxLevel '}'

/-- One more bracket of that type goes around the span, which has no level left. -/
theorem readPrompt_enclosed_cappedText :
    NestedUpTo (maxNesting - 1) cappedText ∧
      ∃ level inside, (readPrompt (BracketType.increase.opener :: cappedText ++
          [BracketType.increase.closer])).children = [.weighted () .increase level inside] ∧
        (∀ count within, (readPrompt cappedText).children =
          [.weighted () .increase count within] →
            count < maxLevel → level = count + 1 ∧ inside = within) ∧
        ((∀ count within, (readPrompt cappedText).children =
          [.weighted () .increase count within] → ¬count < maxLevel) →
            level = 1 ∧ inside = (readPrompt cappedText).children) ∧
        (readPrompt (BracketType.increase.opener :: cappedText ++
            [BracketType.increase.closer])).leafLevels .increase 0 =
          ((readPrompt cappedText).leafLevels .increase 0).map (Prod.map id (· + 1)) := by
  have hnested : NestedUpTo (maxNesting - 1) cappedText := by decide +kernel
  exact ⟨hnested, readPrompt_enclosed hnested .increase⟩

/-! ## No bracket lost -/

namespace Segment

variable {ι : Type}

/-- The kinds of the segments of a tree, each before those of its children. -/
def kinds (root : Segment ι) : List Kind :=
  root.nodes.filterMap kind?

/-- The kinds of a segment with children are its own and those below it. -/
theorem kinds_branch (head : Head ι) (children : List (Segment ι)) :
    (branch head children).kinds = head.kind :: children.flatMap kinds := by
  have hkinds : (branch head children).kinds =
      head.kind :: (nodesList children).filterMap kind? := rfl
  rw [hkinds, nodesList_eq_flatMap, List.filterMap_flatMap]
  rfl

/-- The sum of the levels of the spans of a type in a tree. -/
def levelSum (type : BracketType) (root : Segment ι) : Nat :=
  (root.kinds.map (Kind.levelsOf type)).sum

end Segment

/-- The texts in a kind of segment that are read from a prompt as they stand: the content of a
text, the name of a preset and its value. -/
def Kind.words : Kind → List Text
  | .text content => content.toList
  | .preset name _ selected => name :: selected.toList
  | _ => []

/-- A kind of segment without brackets in its words. -/
def Kind.BracketFree (kind : Kind) : Prop :=
  ∀ word ∈ kind.words, ∀ c ∈ word, isBracket c = false

/-- Some kinds account for the brackets of a text: there are none in their words, and each pair
is a level. -/
structure Accounts (kinds : List Kind) (text : Text) : Prop where
  bracketFree : ∀ kind ∈ kinds, kind.BracketFree
  count_eq : ∀ type : BracketType, text.count type.opener = (kinds.map (Kind.levelsOf type)).sum

/-- The empty text is accounted for by nothing. -/
theorem accounts_nil : Accounts [] [] :=
  ⟨List.forall_mem_nil _, fun _ => rfl⟩

/-- A text without brackets opens no span. -/
theorem count_opener_of_plain {text : Text} (h : ∀ c ∈ text, isBracket c = false)
    (type : BracketType) : text.count type.opener = 0 := by
  refine List.count_eq_zero.mpr fun hmem => ?_
  have hopen := h _ hmem
  simp [isBracket] at hopen

/-- A text without brackets is accounted for by a kind without levels that has no brackets. -/
theorem Accounts.cons_plain {kind : Kind} {kinds : List Kind} {start after : Text}
    (h : Accounts kinds after) (hstart : ∀ c ∈ start, isBracket c = false)
    (hfree : kind.BracketFree) (hlevels : ∀ type, kind.levelsOf type = 0) :
    Accounts (kind :: kinds) (start ++ after) := by
  refine ⟨List.forall_mem_cons.mpr ⟨hfree, h.bracketFree⟩, fun type => ?_⟩
  rw [List.count_append, count_opener_of_plain hstart, h.count_eq, List.map_cons, List.sum_cons,
    hlevels]

/-- Literal text without brackets is accounted for with what it is put before. -/
theorem Accounts.prependLiteral {literal after : Text} {segments : List (Segment Unit)}
    (h : Accounts (segments.flatMap Segment.kinds) after)
    (hliteral : ∀ c ∈ literal, isBracket c = false) :
    Accounts ((PromptMarkup.prependLiteral literal segments).flatMap Segment.kinds)
      (literal ++ after) := by
  unfold PromptMarkup.prependLiteral
  split
  · rename_i content rest
    -- The text is joined to the one that is there, so no kind is added.
    have hrest : ∀ content : Text, (Segment.text () content :: rest).flatMap Segment.kinds =
        .text (some content) :: rest.flatMap Segment.kinds := fun _ => rfl
    have hjoined : Accounts (.text (some content) :: rest.flatMap Segment.kinds) after := h
    rcases List.forall_mem_cons.mp hjoined.bracketFree with ⟨hcontent, hbelow⟩
    rw [hrest]
    refine ⟨List.forall_mem_cons.mpr ⟨?_, hbelow⟩, fun type => ?_⟩
    · refine List.forall_mem_singleton.mpr fun c hc => ?_
      rcases List.mem_append.mp hc with hc | hc
      · exact hliteral c hc
      · exact hcontent content List.mem_cons_self c hc
    · rw [List.count_append, count_opener_of_plain hliteral, hjoined.count_eq, Nat.zero_add]
      rfl
  · exact h.cons_plain hliteral (List.forall_mem_singleton.mpr hliteral) fun _ => rfl

/-- A pair of brackets is one opening bracket of its type. -/
theorem count_opener_enclosed (type other : BracketType) (inside after : Text) :
    (type.opener :: inside ++ type.closer :: after).count other.opener =
      (if type = other then 1 else 0) + inside.count other.opener + after.count other.opener := by
  have hcloser : ¬type.closer = other.opener := by cases type <;> cases other <;> decide
  have hopener : type.opener = other.opener ↔ type = other := by
    cases type <;> cases other <;> decide
  simp only [List.cons_append, List.count_cons, List.count_append, beq_iff_eq, hcloser, hopener,
    if_false]
  omega

/-- The kinds in a span are those of the segments that it is put around, but for its own, which
may be in place of that of a single segment. -/
theorem kinds_wrapSpan (type : BracketType) (children : List (Segment Unit)) :
    ∃ level : Int, ∃ below, (wrapSpan type children).kinds =
        .weighted (.valid type) (.valid (level.toNat + 1 : Nat)) :: below ∧
      (children.flatMap Segment.kinds = .weighted (.valid type) (.valid level) :: below ∨
        children.flatMap Segment.kinds = below ∧ level = 0) := by
  rw [wrapSpan_eq]
  rcases spanParts_cases type children with
    ⟨level, metadata, inside, rfl, -, hparts⟩ | ⟨hparts, -⟩
  · refine ⟨level, inside.flatMap Segment.kinds, ?_, Or.inl ?_⟩
    · rw [hparts]
      exact Segment.kinds_branch _ _
    · rw [List.flatMap_singleton, Segment.kinds_branch]
  · refine ⟨0, children.flatMap Segment.kinds, ?_, Or.inr ⟨rfl, rfl⟩⟩
    rw [hparts]
    exact Segment.kinds_branch _ _

/-- A text in brackets is accounted for by the span around what accounts for the text. -/
theorem Accounts.wrapSpan {type : BracketType} {inside after : Text}
    {children : List (Segment Unit)} {kinds : List Kind}
    (hinside : Accounts (children.flatMap Segment.kinds) inside) (hafter : Accounts kinds after) :
    Accounts ((PromptMarkup.wrapSpan type children).kinds ++ kinds)
      (type.opener :: inside ++ type.closer :: after) := by
  have hspan : ∀ level, (Kind.weighted (.valid type) level).BracketFree :=
    fun _ => List.forall_mem_nil _
  rcases kinds_wrapSpan type children with ⟨level, below, hkinds, hchildren⟩
  rw [hkinds]
  constructor
  · have hbelow : ∀ kind ∈ below, kind.BracketFree := by
      intro kind hkind
      refine hinside.bracketFree kind ?_
      rcases hchildren with hchildren | ⟨hchildren, -⟩
      · exact hchildren ▸ List.mem_cons_of_mem _ hkind
      · exact hchildren ▸ hkind
    exact List.forall_mem_append.mpr
      ⟨List.forall_mem_cons.mpr ⟨hspan _, hbelow⟩, hafter.bracketFree⟩
  · intro other
    have hlevels : ((children.flatMap Segment.kinds).map (Kind.levelsOf other)).sum =
        (if type = other then level.toNat else 0) + (below.map (Kind.levelsOf other)).sum := by
      rcases hchildren with hchildren | ⟨hchildren, rfl⟩
      · rw [hchildren]
        rfl
      · simp [hchildren]
    rw [count_opener_enclosed, hinside.count_eq, hafter.count_eq, hlevels, List.map_append,
      List.sum_append, List.map_cons, List.sum_cons]
    simp only [Kind.levelsOf, Int.toNat_natCast]
    split <;> omega

/-- In a nested text a character that does not open a span is no bracket. -/
theorem Nested.isBracket_eq_false {c : Char} {rest : Text} (h : Nested (c :: rest))
    (hopen : BracketType.ofOpener? c = none) : isBracket c = false := by
  cases hclose : BracketType.ofCloser? c with
  | none => simp [isBracket, hopen, hclose]
  | some type =>
    rw [Nested, PromptMarkup.nest?, nestStep?, hopen, hclose] at h
    cases h

/-- A nested text without parentheses is accounted for by what it is read as, at all depths that
are enough for its spans. -/
theorem accounts_readFrom (depth : Nat) (boundary : Bool) (text : Text) {limit : Nat}
    (h : NestedUpTo limit text) (hdepth : limit ≤ depth) (hparen : '(' ∉ text) :
    Accounts ((readFrom depth boundary text).flatMap Segment.kinds) text := by
  induction depth, boundary, text using readInduction generalizing limit with
  | nil depth boundary =>
    rw [readFrom_nil]
    exact accounts_nil
  | reads depth boundary text piece after hreads hwithin ih =>
    rw [readFrom_of_reads hreads]
    have hafter : ∀ start, text = start ++ after → Nested start →
        Accounts ((readFrom depth (!piece.endsInName) after).flatMap Segment.kinds) after := by
      rintro start rfl hstart
      exact ih (h.of_append hstart) hdepth fun hmem => hparen (List.mem_append_right _ hmem)
    cases hreads with
    | span type inside after hspans hnested =>
      rcases h.opensSpans.inside hnested with ⟨below, rfl, hinside⟩
      cases depth with
      | zero => omega
      | succ depth =>
        have hrest := hafter (type.opener :: inside ++ [type.closer]) (by simp)
          (hnested.enclose type)
        refine Accounts.wrapSpan (hwithin depth inside rfl hinside (by omega) ?_) hrest
        exact fun hmem => hparen (List.mem_append_left _ (List.mem_cons_of_mem _ hmem))
    | mismatch type through after hspans hclosing =>
      rcases h.opensSpans type (through ++ after) (List.suffix_refl _) with
        ⟨below, inside, behind, -, hmatched, -⟩
      rw [hclosing] at hmatched
      cases hmatched
    | bracket type after hclosing =>
      rcases h.opensSpans type after (List.suffix_refl _) with
        ⟨below, inside, behind, rfl, hmatched, -⟩
      rw [hclosing (spansAt_of_pos (by omega))] at hmatched
      cases hmatched
    | group inside after => exact absurd List.mem_cons_self hparen
    | paren after => exact absurd List.mem_cons_self hparen
    | random name after hboundary hname =>
      have hfree : ∀ c ∈ name, isBracket c = false :=
        fun c hc => isBracket_of_isNameChar (hname.2 c hc)
      have hstart : ∀ c ∈ '!' :: name, isBracket c = false :=
        List.forall_mem_cons.mpr ⟨by decide, hfree⟩
      exact (hafter _ rfl (nested_of_plain hstart)).cons_plain hstart
        (List.forall_mem_singleton.mpr hfree) fun _ => rfl
    | fixed name value after hboundary hname hvalue =>
      have hname : ∀ c ∈ name, isBracket c = false :=
        fun c hc => isBracket_of_isNameChar (hname.2 c hc)
      have hvalue : ∀ c ∈ value, isBracket c = false :=
        fun c hc => isBracket_of_isValueChar (hvalue.2 c hc)
      have hstart : ∀ c ∈ name ++ ':' :: value, isBracket c = false :=
        List.forall_mem_append.mpr ⟨hname, List.forall_mem_cons.mpr ⟨by decide, hvalue⟩⟩
      exact (hafter _ rfl (nested_of_plain hstart)).cons_plain hstart
        (List.forall_mem_cons.mpr ⟨hname, List.forall_mem_singleton.mpr hvalue⟩) fun _ => rfl
    | word name after hboundary hname =>
      have hfree : ∀ c ∈ name, isBracket c = false :=
        fun c hc => isBracket_of_isNameChar (hname.2 c hc)
      exact (hafter name rfl (nested_of_plain hfree)).prependLiteral hfree
    | char c after hopen =>
      have hfree : ∀ d ∈ [c], isBracket d = false :=
        List.forall_mem_singleton.mpr (h.nested.isBracket_eq_false hopen)
      exact (hafter [c] rfl (nested_of_plain hfree)).prependLiteral hfree

/-- No bracket of a nested text is lost.  The text has no opening parentheses, and brackets of
both types together are nested in it no deeper than the reader goes.  Then no text, name or value
in its tree has a bracket, and the levels of the spans of a type are as many as the opening
brackets of that type. -/
theorem readPrompt_nested {text : Text} (hparen : '(' ∉ text) (h : NestedUpTo maxNesting text) :
    (∀ node ∈ (readPrompt text).nodes, ∀ kind, node.kind? = some kind →
      ∀ word ∈ kind.words, ∀ c ∈ word, isBracket c = false) ∧
      ∀ type : BracketType, text.count type.opener = (readPrompt text).levelSum type := by
  have hkinds : (readPrompt text).kinds =
      .text (some []) :: (readFrom maxNesting true text).flatMap Segment.kinds := by
    rw [readPrompt, readSegments_eq]
    exact Segment.kinds_branch _ _
  have haccounts : Accounts (readPrompt text).kinds text := by
    rw [hkinds]
    have hread := accounts_readFrom maxNesting true text h (Nat.le_refl _) hparen
    exact hread.cons_plain (List.forall_mem_nil _)
      (List.forall_mem_singleton.mpr (List.forall_mem_nil _)) fun _ => rfl
  constructor
  · intro node hnode kind hkind
    exact haccounts.bracketFree kind (List.mem_filterMap.mpr ⟨node, hnode, hkind⟩)
  · exact haccounts.count_eq

/-- More brackets than a span has levels, with a tag, a mark and words among them. -/
def crowdedText : Text :=
  List.replicate 80 '{' ++ "a:b) [!c [d!]]".toList ++ List.replicate 80 '}' ++ "[!:]{}".toList

/-- None of them is lost. -/
theorem readPrompt_nested_crowdedText :
    '(' ∉ crowdedText ∧ NestedUpTo maxNesting crowdedText ∧
      (∀ node ∈ (readPrompt crowdedText).nodes, ∀ kind, node.kind? = some kind →
        ∀ word ∈ kind.words, ∀ c ∈ word, isBracket c = false) ∧
        ∀ type : BracketType,
          crowdedText.count type.opener = (readPrompt crowdedText).levelSum type := by
  have hparen : '(' ∉ crowdedText := by decide +kernel
  have hnested : NestedUpTo maxNesting crowdedText := by decide +kernel
  exact ⟨hparen, hnested, readPrompt_nested hparen hnested⟩

end PromptMarkup
