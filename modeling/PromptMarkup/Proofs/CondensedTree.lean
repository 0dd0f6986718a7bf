import PromptMarkup.Proofs.NormalForm
import PromptMarkup.Render.Compile
import PromptMarkup.Segment.Create
import PromptMarkup.Segment.Normal

/-!
# What joining texts leaves as it is

To bring a tree to normal form is to drop empty plain texts and to join neighbouring ones,
anywhere in the tree, one after the other.  Each of these steps keeps the text of the tree,
what it is resolved to and the draws that are made for it, and all segments that are no texts.
So does the way to the normal form, and so does joining the children of one segment.

Main statements:

- {lit}`condenses_mergeRuns` and {lit}`condenses_normalize`: joining runs and bringing a tree
  to normal form are made of such steps.
- {lit}`Condenses.renderList`, {lit}`Condenses.resolveList` and {lit}`Condenses.otherHeads`:
  what the steps keep.
- {lit}`condensed_keepsMeaning`: a tree without missing parts is brought to a normal form that
  means the same.
-/

namespace PromptMarkup

namespace Segment

variable {ι : Type}

/-! ## Steps -/

/-- A list of trees becomes another one as empty plain texts are dropped and neighbouring
plain texts are joined, at whatever level. -/
inductive Condenses : List (Segment ι) → List (Segment ι) → Prop where
  | refl (trees : List (Segment ι)) : Condenses trees trees
  | trans {first second third : List (Segment ι)} :
    Condenses first second → Condenses second third → Condenses first third
  | cons (tree : Segment ι) {trees others : List (Segment ι)} :
    Condenses trees others → Condenses (tree :: trees) (tree :: others)
  | inside (head : Head ι) {children others : List (Segment ι)} (rest : List (Segment ι)) :
    Condenses children others →
      Condenses (.branch head children :: rest) (.branch head others :: rest)
  | drop {empty : Segment ι} (rest : List (Segment ι)) :
    empty.plainText? = some [] → Condenses (empty :: rest) rest
  | join {first second : Segment ι} {before content : Text} (rest : List (Segment ι)) :
    first.plainText? = some before → second.plainText? = some content →
      Condenses (first :: second :: rest) (first.withContent (before ++ content) :: rest)

/-- Joining runs after a segment is made of such steps. -/
theorem condenses_mergeAfter (previous : Segment ι) (rest : List (Segment ι)) :
    Condenses (previous :: rest) (mergeAfter previous rest) := by
  induction rest generalizing previous with
  | nil => exact .refl _
  | cons segment rest ih =>
    rw [mergeAfter]
    split
    · rename_i before content hbefore hcontent
      exact .trans (.join rest hbefore hcontent) (ih _)
    · exact .cons previous (ih segment)

/-- Joining runs is made of such steps. -/
theorem condenses_mergeRuns (trees : List (Segment ι)) : Condenses trees (mergeRuns trees) := by
  cases trees with
  | nil => exact .refl []
  | cons segment rest => exact condenses_mergeAfter segment rest

/-- Dropping the empty texts of a list is made of such steps. -/
theorem condenses_filter (trees : List (Segment ι)) :
    Condenses trees (trees.filter fun child => !child.isEmptyText) := by
  induction trees with
  | nil => exact .refl []
  | cons tree rest ih =>
    cases hempty : tree.isEmptyText with
    | true =>
      rw [List.filter_cons_of_neg (by simp [hempty])]
      exact .trans (.drop rest (by simpa [isEmptyText] using hempty)) ih
    | false =>
      rw [List.filter_cons_of_pos (by simp [hempty])]
      exact .cons tree ih

/-- Bringing a tree to normal form is made of such steps. -/
theorem condenses_normalize (root : Segment ι) (rest : List (Segment ι)) :
    Condenses (root :: rest) (root.normalize :: rest) := by
  induction root generalizing rest with
  | missing => exact .refl _
  | leaf head => exact .refl _
  | branch head children ih =>
    have hchildren : Condenses children (normalizeList children) := by
      induction children with
      | nil => exact .refl []
      | cons child others ihchildren =>
        have hothers := ihchildren fun other hother =>
          ih other (List.mem_cons_of_mem _ hother)
        exact .trans (ih child List.mem_cons_self others) (.cons _ hothers)
    exact .inside head rest
      (.trans hchildren (.trans (condenses_filter _) (condenses_mergeRuns _)))

/-- Joining the texts among the children of a segment is made of such steps. -/
theorem condenses_mergeChildren (parent : Segment ι) (rest : List (Segment ι)) :
    Condenses (parent :: rest) (parent.mergeChildren.1 :: rest) := by
  cases parent with
  | missing => exact .refl _
  | leaf head => exact .refl _
  | branch head children =>
    rw [mergeChildren]
    split
    · exact .inside head rest (condenses_mergeRuns children)
    · exact .refl _

/-! ## Texts -/

/-- Plain text is a text segment without children. -/
theorem plainText?_eq_some_iff {segment : Segment ι} {content : Text} :
    segment.plainText? = some content ↔
      ∃ id metadata, segment = .leaf ⟨id, .text (some content), metadata⟩ ∨
        segment = .branch ⟨id, .text (some content), metadata⟩ [] := by
  constructor
  · intro h
    unfold plainText? at h
    split at h
    · cases h
      exact ⟨_, _, Or.inl rfl⟩
    · cases h
      exact ⟨_, _, Or.inr rfl⟩
    · cases h
  · rintro ⟨id, metadata, rfl | rfl⟩
    · rfl
    · rfl

/-- Plain text with another content is plain text. -/
theorem plainText?_withContent {segment : Segment ι} {old : Text}
    (h : segment.plainText? = some old) (content : Text) :
    (segment.withContent content).plainText? = some content := by
  rcases plainText?_eq_some_iff.mp h with ⟨id, metadata, rfl | rfl⟩
  · rfl
  · rfl

/-- Plain text is written as its content. -/
theorem render_of_plainText? {segment : Segment ι} {content : Text}
    (h : segment.plainText? = some content) : segment.render = .ok content := by
  rcases plainText?_eq_some_iff.mp h with ⟨id, metadata, rfl | rfl⟩
  · simp [render, Kind.render]
  · simp [render, renderList, Kind.showsChildren, Kind.render]

/-- The steps keep the text of a list of trees. -/
theorem Condenses.renderList {trees others : List (Segment ι)} (h : Condenses trees others) :
    renderList others = Segment.renderList trees := by
  induction h with
  | refl trees => rfl
  | trans _ _ ih ih' => rw [ih', ih]
  | cons tree _ ih => rw [Segment.renderList, Segment.renderList, ih]
  | inside head rest _ ih => rw [Segment.renderList, Segment.renderList, render, render, ih]
  | drop rest hempty =>
    rw [Segment.renderList, render_of_plainText? hempty]
    cases Segment.renderList rest <;> rfl
  | join rest hbefore hcontent =>
    rw [Segment.renderList, Segment.renderList, Segment.renderList,
      render_of_plainText? (plainText?_withContent hbefore _), render_of_plainText? hbefore,
      render_of_plainText? hcontent]
    cases Segment.renderList rest <;> simp [Except.map]

/-! ## Resolved texts -/

section Resolve

variable {σ : Type} {source : DrawSource σ} {limit : Int}

/-- Plain text is resolved to its content, without a draw. -/
theorem resolve_of_plainText? {segment : Segment ι} {content : Text}
    (h : segment.plainText? = some content) (state : σ) :
    segment.resolve source limit state = .ok (content, state) := by
  rcases plainText?_eq_some_iff.mp h with ⟨id, metadata, rfl | rfl⟩
  · simp [resolve, Head.resolve, Kind.render, Except.map]
  · simp [resolve, resolveList, Kind.showsChildren, Head.resolve, Kind.render, Except.map]

/-- The steps keep what a list of trees is resolved to, and the draws that are made for it. -/
theorem Condenses.resolveList {trees others : List (Segment ι)} (h : Condenses trees others)
    (state : σ) :
    resolveList source limit others state = Segment.resolveList source limit trees state := by
  induction h generalizing state with
  | refl trees => rfl
  | trans _ _ ih ih' => rw [ih', ih]
  | cons tree _ ih => simp only [Segment.resolveList, ih]
  | inside head rest _ ih => rw [Segment.resolveList, Segment.resolveList, resolve, resolve, ih]
  | drop rest hempty =>
    rw [Segment.resolveList, resolve_of_plainText? hempty]
    cases hrest : Segment.resolveList source limit rest state <;> simp [hrest, Except.map]
  | join rest hbefore hcontent =>
    rw [Segment.resolveList, Segment.resolveList,
      resolve_of_plainText? (plainText?_withContent hbefore _), resolve_of_plainText? hbefore]
    dsimp only
    rw [Segment.resolveList, resolve_of_plainText? hcontent]
    cases hrest : Segment.resolveList source limit rest state <;> simp [hrest, Except.map]

end Resolve

/-! ## Other segments -/

/-- The heads of the segments of a tree that are no texts, each before those of its
children. -/
def otherHeads (root : Segment ι) : List (Head ι) :=
  (root.nodes.filterMap head?).filter fun head => head.kind.type? ≠ some .text

/-- The nodes of a list of trees are those of its trees, one after the other. -/
theorem nodesList_eq_flatMap (trees : List (Segment ι)) : nodesList trees = trees.flatMap nodes := by
  induction trees with
  | nil => rfl
  | cons tree rest ih => rw [nodesList, ih, List.flatMap_cons]

/-- The other segments of a tree are the root, if it is no text, and those below it. -/
theorem otherHeads_branch (head : Head ι) (children : List (Segment ι)) :
    (branch head children).otherHeads =
      (leaf head).otherHeads ++ children.flatMap otherHeads := by
  have hheads : (branch head children).nodes.filterMap head? =
      (leaf head).nodes.filterMap head? ++ (nodesList children).filterMap head? := rfl
  rw [otherHeads, hheads, List.filter_append, nodesList_eq_flatMap, List.filterMap_flatMap,
    List.filter_flatMap]
  rfl

/-- Plain text is none of the other segments. -/
theorem otherHeads_of_plainText? {segment : Segment ι} {content : Text}
    (h : segment.plainText? = some content) : segment.otherHeads = [] := by
  rcases plainText?_eq_some_iff.mp h with ⟨id, metadata, rfl | rfl⟩
  · rfl
  · rfl

/-- The steps keep all segments that are no texts. -/
theorem Condenses.otherHeads {trees others : List (Segment ι)} (h : Condenses trees others) :
    others.flatMap otherHeads = trees.flatMap Segment.otherHeads := by
  induction h with
  | refl trees => rfl
  | trans _ _ ih ih' => rw [ih', ih]
  | cons tree _ ih => rw [List.flatMap_cons, List.flatMap_cons, ih]
  | inside head rest _ ih =>
    rw [List.flatMap_cons, List.flatMap_cons, otherHeads_branch, otherHeads_branch, ih]
  | drop rest hempty => rw [List.flatMap_cons, otherHeads_of_plainText? hempty, List.nil_append]
  | join rest hbefore hcontent =>
    rw [List.flatMap_cons, List.flatMap_cons, List.flatMap_cons,
      otherHeads_of_plainText? (plainText?_withContent hbefore _),
      otherHeads_of_plainText? hbefore, otherHeads_of_plainText? hcontent, List.nil_append,
      List.nil_append]

/-! ## Trees without missing parts -/

/-- The texts of a tree have contents. -/
def HasContents (root : Segment ι) : Prop :=
  ∀ head ∈ root.nodes.filterMap head?, head.kind ≠ .text none

instance (root : Segment ι) : Decidable root.HasContents :=
  inferInstanceAs (Decidable (∀ head ∈ _, _))

/-- A tree below another one has contents as well. -/
theorem HasContents.child {head : Head ι} {children : List (Segment ι)} {child : Segment ι}
    (h : (branch head children).HasContents) (hchild : child ∈ children) : child.HasContents := by
  intro other hother
  rcases List.mem_filterMap.mp hother with ⟨node, hnode, hhead⟩
  exact h other (List.mem_filterMap.mpr
    ⟨node, mem_nodes_branch.mpr (Or.inr ⟨child, hchild, hnode⟩), hhead⟩)

/-- Plain text fails to be joined only if its content is missing. -/
theorem isSome_plainText?_of_isPlain {segment : Segment ι} (hplain : segment.isPlain = true)
    (hcontent : ∀ head, segment.head? = some head → head.kind ≠ .text none) :
    segment.plainText?.isSome = true := by
  have hsome : ∀ (id : ι) (content : Option Text) (metadata : Option Object),
      segment.head? = some ⟨id, .text content, metadata⟩ → content.isSome = true := by
    intro id content metadata hhead
    cases content with
    | none => exact absurd rfl (hcontent _ hhead)
    | some content => rfl
  unfold isPlain at hplain
  split at hplain
  · exact hsome _ _ _ rfl
  · exact hsome _ _ _ rfl
  · cases hplain

/-- Where no content is missing, all neighbours can be joined. -/
theorem hasBrokenPair_eq_false {trees : List (Segment ι)}
    (h : ∀ tree ∈ trees, ∀ head, tree.head? = some head → head.kind ≠ .text none) :
    hasBrokenPair trees = false := by
  induction trees with
  | nil => rfl
  | cons first rest ih =>
    cases rest with
    | nil => rfl
    | cons second rest =>
      rcases List.forall_mem_cons.mp h with ⟨hfirst, hrest⟩
      have hpair : first.isBrokenPair second = false := by
        refine Bool.eq_false_iff.mpr fun hbroken => ?_
        simp only [isBrokenPair, Bool.and_eq_true, Bool.or_eq_true,
          Option.isNone_iff_eq_none] at hbroken
        have hsome := isSome_plainText?_of_isPlain hbroken.1.1 hfirst
        have hsome' := isSome_plainText?_of_isPlain hbroken.1.2 (hrest second List.mem_cons_self)
        rcases hbroken.2 with hnone | hnone
        · rw [hnone] at hsome
          cases hsome
        · rw [hnone] at hsome'
          cases hsome'
      rw [hasBrokenPair, hpair, ih hrest, Bool.false_or]

/-- The normal form of a tree has the same root. -/
@[simp] theorem head?_normalize (root : Segment ι) : root.normalize.head? = root.head? := by
  cases root <;> rfl

/-- The normal form of a tree is there if the tree is. -/
theorem isPresent_normalize (root : Segment ι) : root.normalize.isPresent = root.isPresent := by
  cases root <;> rfl

/-- A list of trees is brought to normal form one by one. -/
theorem normalizeList_eq_map (trees : List (Segment ι)) :
    normalizeList trees = trees.map normalize := by
  induction trees with
  | nil => rfl
  | cons tree rest ih => rw [normalizeList, ih, List.map_cons]

/-- Nothing breaks off the way to the normal form of a tree without missing parts. -/
theorem normalizeError?_eq_none {root : Segment ι} (hwhole : root.isWhole = true)
    (hcontents : root.HasContents) : root.normalizeError? = none := by
  induction root with
  | missing => cases hwhole
  | leaf head => rfl
  | branch head children ih =>
    have hbelow : normalizeErrorIn? children = none := by
      refine normalizeErrorIn?_eq_none fun child hchild => ih child hchild ?_ (hcontents.child hchild)
      exact isWhole_of_mem_nodes hwhole (mem_nodes_of_mem_children (mem_nodes_self _) hchild)
    have hjoined : hasBrokenPair
        ((normalizeList children).filter fun child => !child.isEmptyText) = false := by
      refine hasBrokenPair_eq_false fun tree htree other hother => ?_
      rw [normalizeList_eq_map] at htree
      rcases List.mem_map.mp (List.mem_filter.mp htree).1 with ⟨child, hchild, rfl⟩
      rw [head?_normalize] at hother
      exact hcontents.child hchild other (List.mem_filterMap.mpr ⟨child, mem_nodes_self child, hother⟩)
    rw [normalizeError?, hbelow, hjoined]
    rfl

/-! ## Meaning -/

/-- One tree means what another one does: it is compiled to the same text or fails in the same
way, it is resolved to the same text with the same draws, whatever the source and the depth
are, and it has the same segments that are no texts, in the same order. -/
structure KeepsMeaning (before after : Segment ι) : Prop where
  compiled : ∀ (surroundings : Surroundings) (options : Option CompileOptions),
    compile surroundings options after = compile surroundings options before
  resolved : ∀ {σ : Type} (source : DrawSource σ) (limit : Int) (state : σ),
    after.resolve source limit state = before.resolve source limit state
  others : after.otherHeads = before.otherHeads

/-- A tree by itself has the text of the list of it. -/
theorem renderList_singleton (root : Segment ι) : renderList [root] = root.render := by
  rw [renderList]
  cases root.render <;> simp [renderList, Except.map]

/-- A tree by itself is resolved to what the list of it is. -/
theorem resolveList_singleton {σ : Type} (source : DrawSource σ) (limit : Int) (root : Segment ι)
    (state : σ) : resolveList source limit [root] state = root.resolve source limit state := by
  rw [resolveList]
  cases root.resolve source limit state <;> simp [resolveList, Except.map]

/-- What becomes of a tree by dropping and joining texts means what the tree does. -/
theorem Condenses.keepsMeaning {before after : Segment ι} (h : Condenses [before] [after])
    (hbefore : before.isPresent = true) (hafter : after.isPresent = true) :
    before.KeepsMeaning after := by
  have hrender : after.render = before.render := by
    rw [← renderList_singleton, h.renderList, renderList_singleton]
  have hresolve : ∀ {σ : Type} (source : DrawSource σ) (limit : Int) (state : σ),
      after.resolve source limit state = before.resolve source limit state := by
    intro σ source limit state
    rw [← resolveList_singleton, h.resolveList, resolveList_singleton]
  refine ⟨fun surroundings options => ?_, hresolve, ?_⟩
  · rw [compile_of_isPresent hbefore, compile_of_isPresent hafter]
    simp only [compileWith, hrender, hresolve]
  · simpa using h.otherHeads

/-- A tree without missing parts is brought to its normal form, and the texts among its
children are joined, and both results mean what the tree does. -/
theorem condensed_keepsMeaning {root : Segment ι} (hwhole : root.isWhole = true)
    (hcontents : root.HasContents) :
    (∃ normal, root.checkedNormalize = .ok normal ∧ root.KeepsMeaning normal) ∧
      ∃ merged joined, root.checkedMerge = .ok (merged, joined) ∧ root.KeepsMeaning merged := by
  have hpresent : root.isPresent = true := isPresent_of_mem_nodes hwhole (mem_nodes_self root)
  constructor
  · refine ⟨root.normalize, ?_, ?_⟩
    · rw [checkedNormalize, normalizeError?_eq_none hwhole hcontents]
    · exact (condenses_normalize root []).keepsMeaning hpresent
        ((isPresent_normalize root).trans hpresent)
  · have hjoined : hasBrokenPair root.children = false := by
      refine hasBrokenPair_eq_false fun child hchild head hhead => ?_
      exact hcontents head (List.mem_filterMap.mpr
        ⟨child, mem_nodes_of_mem_children (mem_nodes_self root) hchild, hhead⟩)
    have hmerged : root.mergeChildren.1.isPresent = true := by
      cases root with
      | missing => cases hpresent
      | leaf head => rfl
      | branch head children =>
        rw [mergeChildren]
        split <;> rfl
    refine ⟨root.mergeChildren.1, root.mergeChildren.2, ?_,
      (condenses_mergeChildren root []).keepsMeaning hpresent hmerged⟩
    simp [checkedMerge, hpresent, hjoined]

/-- A tree in which a text is left without children on the way, next to a span without a
bracket type, a preset with children and a segment of unknown kind. -/
def hollowTree : Segment NodeId :=
  .branch ⟨.named "root", .text (some []), none⟩
    [.text (.named "first") ['a'],
      .branch ⟨.named "hollow", .text (some ['b']), none⟩ [.text (.named "empty") []],
      .branch ⟨.named "span", .weighted (.damaged .null) (.valid 2), none⟩
        [.text (.named "inside") ['c']],
      .branch ⟨.named "odd", .unknown, none⟩
        [.branch ⟨.named "tag", .preset ['k'] (.valid .random) none, none⟩
          [.text (.named "unseen") ['d']]]]

/-- The hollow text is joined with the one before it once its child is dropped. -/
theorem condensed_keepsMeaning_hollowTree :
    hollowTree.isWhole = true ∧ hollowTree.HasContents ∧
      (∃ normal, hollowTree.checkedNormalize = .ok normal ∧ hollowTree.KeepsMeaning normal) ∧
      ∃ merged joined,
        hollowTree.checkedMerge = .ok (merged, joined) ∧ hollowTree.KeepsMeaning merged :=
  ⟨by decide, by decide, condensed_keepsMeaning (by decide) (by decide)⟩

end Segment

end PromptMarkup
