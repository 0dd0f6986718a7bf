import PromptMarkup.Proofs.CondensedTree

/-!
# Reaching the normal form

To drop an empty text may make two other texts neighbours, and a text that loses its last child
becomes plain text, which may be dropped or joined in turn.  One pass is enough all the same: it
goes from the leaves up, so the children of a segment are in normal form before they are looked
at, and empty ones are dropped before runs are joined.  A pass that notes whether it dropped or
joined anything notes something exactly where the tree was not in normal form.

Main statements:

- {lit}`isNormal_normalize`: the normal form of a tree is in normal form.
- {lit}`isCondensed_iff_isNormal`: where contents are there, this says that no text is empty and
  no two texts are neighbours.
- {lit}`normalizeNoting_eq`: what a pass gives back, and when it notes a change.
- {lit}`checkedNormalize_reaches`: a tree without missing parts is brought to a normal form that
  is its own, and to another tree only if it was not in normal form.
-/

namespace PromptMarkup

namespace Segment

variable {ι : Type}

/-! ## Joined runs -/

/-- What is true of each segment and stays true as two plain texts are joined is true of each
segment after runs are joined. -/
theorem forall_mem_mergeAfter {motive : Segment ι → Prop}
    (join : ∀ first second before content, first.plainText? = some before →
      second.plainText? = some content → motive first → motive second →
        motive (first.withContent (before ++ content)))
    {previous : Segment ι} {rest : List (Segment ι)} (hprevious : motive previous)
    (hrest : ∀ segment ∈ rest, motive segment) :
    ∀ segment ∈ mergeAfter previous rest, motive segment := by
  induction rest generalizing previous with
  | nil => exact List.forall_mem_singleton.mpr hprevious
  | cons segment rest ih =>
    rcases List.forall_mem_cons.mp hrest with ⟨hsegment, hrest⟩
    rw [mergeAfter]
    split
    · rename_i before content hbefore hcontent
      exact ih (join _ _ _ _ hbefore hcontent hprevious hsegment) hrest
    · exact List.forall_mem_cons.mpr ⟨hprevious, ih hsegment hrest⟩

/-- What is true of each segment and stays true as two plain texts are joined is true of each
segment after runs are joined. -/
theorem forall_mem_mergeRuns {motive : Segment ι → Prop}
    (join : ∀ first second before content, first.plainText? = some before →
      second.plainText? = some content → motive first → motive second →
        motive (first.withContent (before ++ content)))
    {trees : List (Segment ι)} (h : ∀ tree ∈ trees, motive tree) :
    ∀ tree ∈ mergeRuns trees, motive tree := by
  cases trees with
  | nil => exact List.forall_mem_nil _
  | cons first rest =>
    rcases List.forall_mem_cons.mp h with ⟨hfirst, hrest⟩
    exact forall_mem_mergeAfter join hfirst hrest

/-- Of two segments that cannot be joined one is no plain text. -/
theorem plainText?_eq_none_or {s t : Segment ι}
    (h : ∀ before content, s.plainText? = some before → ¬t.plainText? = some content) :
    s.plainText? = none ∨ t.plainText? = none := by
  cases hs : s.plainText? with
  | none => exact Or.inl rfl
  | some before =>
    cases ht : t.plainText? with
    | none => exact Or.inr rfl
    | some content => exact absurd ht (h before content hs)

/-- What runs are joined to begins with plain text if the runs do. -/
theorem plainText?_head?_mergeAfter (previous : Segment ι) (rest : List (Segment ι)) :
    ∀ first ∈ (mergeAfter previous rest).head?,
      (first.plainText? = none ↔ previous.plainText? = none) := by
  induction rest generalizing previous with
  | nil =>
    intro first hfirst
    cases hfirst
    exact Iff.rfl
  | cons segment rest ih =>
    rw [mergeAfter]
    split
    · rename_i before content hbefore hcontent
      intro first hfirst
      rw [ih _ first hfirst, plainText?_withContent hbefore, hbefore]
      exact iff_of_false (Option.some_ne_none _) (Option.some_ne_none _)
    · intro first hfirst
      cases hfirst
      exact Iff.rfl

/-- After runs are joined no two plain texts are neighbours. -/
theorem isChain_mergeAfter (previous : Segment ι) (rest : List (Segment ι)) :
    (mergeAfter previous rest).IsChain fun s t => s.plainText? = none ∨ t.plainText? = none := by
  induction rest generalizing previous with
  | nil => exact .singleton _
  | cons segment rest ih =>
    rw [mergeAfter]
    split
    · exact ih _
    · rename_i hnone
      refine List.isChain_cons.mpr ⟨fun first hfirst => ?_, ih segment⟩
      rw [plainText?_head?_mergeAfter segment rest first hfirst]
      exact plainText?_eq_none_or hnone

/-- Joining runs leaves no more segments than there were. -/
theorem length_mergeAfter_le (previous : Segment ι) (rest : List (Segment ι)) :
    (mergeAfter previous rest).length ≤ rest.length + 1 := by
  induction rest generalizing previous with
  | nil => exact Nat.le_refl 1
  | cons segment rest ih =>
    rw [mergeAfter]
    split
    · exact Nat.le_succ_of_le (ih _)
    · exact Nat.succ_le_succ (ih segment)

/-- Joining runs leaves as many segments as there were only if there was nothing to join. -/
theorem isChain_of_length_mergeAfter {previous : Segment ι} {rest : List (Segment ι)}
    (h : ¬(mergeAfter previous rest).length < rest.length + 1) :
    (previous :: rest).IsChain fun s t => s.plainText? = none ∨ t.plainText? = none := by
  induction rest generalizing previous with
  | nil => exact .singleton _
  | cons segment rest ih =>
    rw [mergeAfter] at h
    split at h
    · rename_i before content hbefore hcontent
      have hle := length_mergeAfter_le (previous.withContent (before ++ content)) rest
      exact absurd (Nat.lt_succ_of_le hle) h
    · rename_i hnone
      exact List.isChain_cons_cons.mpr
        ⟨plainText?_eq_none_or hnone, ih fun hlt => h (Nat.succ_lt_succ hlt)⟩

/-- There is something to join exactly where joining leaves fewer segments. -/
theorem length_mergeRuns_lt_iff {trees : List (Segment ι)} :
    (mergeRuns trees).length < trees.length ↔
      ¬trees.IsChain fun s t => s.plainText? = none ∨ t.plainText? = none := by
  constructor
  · intro hlt hchain
    rw [mergeRuns_eq_self hchain] at hlt
    exact Nat.lt_irrefl _ hlt
  · intro hchain
    by_contra hlt
    cases trees with
    | nil => exact hchain .nil
    | cons first rest => exact hchain (isChain_of_length_mergeAfter hlt)

/-! ## Normal forms -/

/-- Plain text has no segments below it. -/
theorem nodes_of_plainText? {segment : Segment ι} {content : Text}
    (h : segment.plainText? = some content) : segment.nodes = [segment] := by
  rcases plainText?_eq_some_iff.mp h with ⟨id, metadata, rfl | rfl⟩
  · rfl
  · rfl

/-- Plain text is in normal form. -/
theorem isNormal_of_plainText? {segment : Segment ι} {content : Text}
    (h : segment.plainText? = some content) : segment.IsNormal := by
  intro node hnode
  rw [nodes_of_plainText? h, List.mem_singleton] at hnode
  subst hnode
  rcases plainText?_eq_some_iff.mp h with ⟨id, metadata, rfl | rfl⟩
  · exact normalChildren_nil
  · exact normalChildren_nil

/-- Once the empty texts are dropped, joining runs leaves children in normal form. -/
theorem normalChildren_mergeRuns {trees : List (Segment ι)}
    (h : ∀ tree ∈ trees, tree.isEmptyText = false) : NormalChildren (mergeRuns trees) := by
  constructor
  · refine forall_mem_mergeRuns (fun first second before content hbefore _ hfirst _ => ?_) h
    -- What is joined to a text that is not empty is not empty.
    have hne : before ≠ [] := by
      rintro rfl
      simp [isEmptyText, hbefore] at hfirst
    simp [isEmptyText, plainText?_withContent hbefore, hne]
  · cases trees with
    | nil => exact .nil
    | cons first rest => exact isChain_mergeAfter first rest

/-- The normal form of a tree is in normal form. -/
theorem isNormal_normalize (root : Segment ι) : root.normalize.IsNormal := by
  induction root with
  | missing =>
    intro node hnode
    rw [normalize, nodes, List.mem_singleton] at hnode
    subst hnode
    exact normalChildren_nil
  | leaf head => exact isNormal_leaf head
  | branch head children ih =>
    rw [normalize, normalizeList_eq_map]
    refine isNormal_branch.mpr ⟨normalChildren_mergeRuns fun tree htree => ?_,
      forall_mem_mergeRuns (fun first second before content hbefore _ _ _ => ?_)
        fun tree htree => ?_⟩
    · simpa using (List.mem_filter.mp htree).2
    · exact isNormal_of_plainText? (plainText?_withContent hbefore _)
    · rcases List.mem_map.mp (List.mem_filter.mp htree).1 with ⟨child, hchild, rfl⟩
      exact ih child hchild

/-- A tree is its own normal form exactly if it is in normal form. -/
theorem normalize_eq_self_iff {root : Segment ι} : root.normalize = root ↔ root.IsNormal :=
  ⟨fun h => h ▸ isNormal_normalize root, IsNormal.normalize_eq⟩

/-- Each segment of a normal form is plain text, or has the head of a segment of the tree. -/
theorem mem_nodes_normalize {root : Segment ι} :
    ∀ node ∈ root.normalize.nodes,
      node.plainText? ≠ none ∨ ∃ old ∈ root.nodes, old.head? = node.head? := by
  induction root with
  | missing => exact fun node hnode => Or.inr ⟨node, hnode, rfl⟩
  | leaf head => exact fun node hnode => Or.inr ⟨node, hnode, rfl⟩
  | branch head children ih =>
    have hbelow : ∀ tree ∈ mergeRuns
        ((children.map normalize).filter fun child => !child.isEmptyText), ∀ node ∈ tree.nodes,
          node.plainText? ≠ none ∨
            ∃ old ∈ (branch head children).nodes, old.head? = node.head? := by
      refine forall_mem_mergeRuns (fun first second before content hbefore _ _ _ => ?_)
        fun tree htree => ?_
      · have hjoined := plainText?_withContent hbefore (before ++ content)
        rw [nodes_of_plainText? hjoined]
        refine List.forall_mem_singleton.mpr (Or.inl ?_)
        rw [hjoined]
        nofun
      · rcases List.mem_map.mp (List.mem_filter.mp htree).1 with ⟨child, hchild, rfl⟩
        intro node hnode
        rcases ih child hchild node hnode with hplain | ⟨old, hold, hhead⟩
        · exact Or.inl hplain
        · exact Or.inr ⟨old, mem_nodes_branch.mpr (Or.inr ⟨child, hchild, hold⟩), hhead⟩
    intro node hnode
    rw [normalize, normalizeList_eq_map] at hnode
    rcases mem_nodes_branch.mp hnode with rfl | ⟨tree, htree, hnode⟩
    · exact Or.inr ⟨branch head children, mem_nodes_self _, rfl⟩
    · exact hbelow tree htree node hnode

/-- In the normal form of a tree nothing is missing if nothing is in the tree. -/
theorem isWhole_normalize {root : Segment ι} (h : root.isWhole = true) :
    root.normalize.isWhole = true := by
  refine List.all_eq_true.mpr fun node hnode => ?_
  cases node with
  | missing =>
    rcases mem_nodes_normalize _ hnode with hplain | ⟨old, hold, hhead⟩
    · exact absurd rfl hplain
    · rcases exists_head?_of_isPresent (isPresent_of_mem_nodes h hold) with ⟨head, hthere⟩
      rw [hthere] at hhead
      cases hhead
  | leaf head => rfl
  | branch head children => rfl

/-- The texts of a normal form have contents if those of the tree have. -/
theorem hasContents_normalize {root : Segment ι} (h : root.HasContents) :
    root.normalize.HasContents := by
  intro head hhead
  rcases List.mem_filterMap.mp hhead with ⟨node, hnode, hhead⟩
  rcases mem_nodes_normalize node hnode with hplain | ⟨old, hold, heq⟩
  · rcases Option.ne_none_iff_exists'.mp hplain with ⟨content, hcontent⟩
    rcases plainText?_eq_some_iff.mp hcontent with ⟨id, metadata, rfl | rfl⟩
    · cases hhead
      nofun
    · cases hhead
      nofun
  · exact h head (List.mem_filterMap.mpr ⟨old, hold, heq.trans hhead⟩)

/-- At no segment of a tree is a text without children and content, or are two texts without
children neighbours. -/
def IsCondensed (root : Segment ι) : Prop :=
  ∀ node ∈ root.nodes, (∀ child ∈ node.children, child.isEmptyText = false) ∧
    node.children.IsChain fun s t => ¬(s.isPlain = true ∧ t.isPlain = true)

/-- Where contents are there, the texts without children are the plain texts. -/
theorem HasContents.isPlain_iff {root node child : Segment ι} (h : root.HasContents)
    (hnode : node ∈ root.nodes) (hchild : child ∈ node.children) :
    child.isPlain = true ↔ child.plainText? ≠ none := by
  constructor
  · intro hplain
    have hcontent := isSome_plainText?_of_isPlain hplain fun head hhead =>
      h head (List.mem_filterMap.mpr ⟨child, mem_nodes_of_mem_children hnode hchild, hhead⟩)
    exact Option.isSome_iff_ne_none.mp hcontent
  · intro hplain
    rcases Option.ne_none_iff_exists'.mp hplain with ⟨content, hcontent⟩
    rcases plainText?_eq_some_iff.mp hcontent with ⟨id, metadata, rfl | rfl⟩
    · rfl
    · rfl

/-- Where contents are there, such a tree is one in normal form. -/
theorem isCondensed_iff_isNormal {root : Segment ι} (h : root.HasContents) :
    root.IsCondensed ↔ root.IsNormal := by
  have hpair : ∀ node ∈ root.nodes, ∀ s ∈ node.children, ∀ t ∈ node.children,
      (¬(s.isPlain = true ∧ t.isPlain = true) ↔ s.plainText? = none ∨ t.plainText? = none) := by
    intro node hnode s hs t ht
    rw [h.isPlain_iff hnode hs, h.isPlain_iff hnode ht, ← not_or, not_not]
  constructor
  · intro hcondensed node hnode
    rcases hcondensed node hnode with ⟨hnonempty, hapart⟩
    exact ⟨hnonempty, hapart.imp_of_mem_imp fun s t hs ht => (hpair node hnode s hs t ht).mp⟩
  · intro hnormal node hnode
    rcases hnormal node hnode with ⟨hnonempty, hapart⟩
    exact ⟨hnonempty, hapart.imp_of_mem_imp fun s t hs ht => (hpair node hnode s hs t ht).mpr⟩

/-! ## Noted changes -/

/-- A pass over the children gives the normal form of each and notes a change if it does for one
of them. -/
theorem normalizeNotingList_eq {children : List (Segment ι)}
    (h : ∀ child ∈ children, child.normalizeNoting.1 = child.normalize ∧
      (child.normalizeNoting.2 = false ↔ child.IsNormal)) :
    (normalizeNotingList children).1 = normalizeList children ∧
      ((normalizeNotingList children).2 = false ↔ ∀ child ∈ children, child.IsNormal) := by
  induction children with
  | nil => simp [normalizeNotingList, normalizeList]
  | cons child rest ih =>
    rcases List.forall_mem_cons.mp h with ⟨⟨htree, hchanged⟩, hrest⟩
    rcases ih hrest with ⟨htrees, hothers⟩
    rw [normalizeNotingList]
    constructor
    · rw [normalizeList, ← htree, ← htrees]
    · rw [List.forall_mem_cons, ← hchanged, ← hothers, ← Bool.or_eq_false_iff]

/-- A pass gives the normal form of a tree, and notes a change exactly where the tree is not in
normal form. -/
theorem normalizeNoting_eq (root : Segment ι) :
    root.normalizeNoting.1 = root.normalize ∧
      (root.normalizeNoting.2 = false ↔ root.IsNormal) := by
  induction root with
  | missing => exact ⟨rfl, iff_of_true rfl (isNormal_normalize .missing)⟩
  | leaf head => exact ⟨rfl, iff_of_true rfl (isNormal_leaf head)⟩
  | branch head children ih =>
    rcases normalizeNotingList_eq ih with ⟨htrees, hchanged⟩
    rw [normalizeNoting]
    dsimp only
    rw [htrees]
    split
    · rename_i hnoted
      refine ⟨rfl, iff_of_false nofun fun hnormal => ?_⟩
      rcases isNormal_branch.mp hnormal with ⟨hchildren, heach⟩
      have hself : normalizeList children = children :=
        normalizeList_eq_self fun child hchild => (heach child hchild).normalize_eq
      rw [hself, hchildren.filter_eq_self, hchanged.mpr heach,
        mergeRuns_eq_self hchildren.apart] at hnoted
      simp at hnoted
    · rename_i hnoted
      simp only [Bool.or_eq_true, decide_eq_true_eq, not_or, Bool.not_eq_true] at hnoted
      rcases hnoted with ⟨⟨hnone, hkept⟩, hmerged⟩
      have heach := hchanged.mp hnone
      have hself : normalizeList children = children :=
        normalizeList_eq_self fun child hchild => (heach child hchild).normalize_eq
      rw [hself] at hkept hmerged
      have hfilter : children.filter (fun child => !child.isEmptyText) = children :=
        (List.filter_sublist).eq_of_length_le (Nat.le_of_not_lt hkept)
      rw [hfilter, length_mergeRuns_lt_iff, not_not] at hmerged
      have hchildren : NormalChildren children := by
        refine ⟨fun child hchild => ?_, hmerged⟩
        simpa using List.filter_eq_self.mp hfilter child hchild
      have hnormal : (branch head children).IsNormal := isNormal_branch.mpr ⟨hchildren, heach⟩
      exact ⟨hnormal.normalize_eq.symm, iff_of_true rfl hnormal⟩

/-- A tree without missing parts is brought to normal form: at no segment of it is a text without
children and content, or are two texts without children neighbours.  To bring it there again
changes nothing.  A pass that notes what it does gives the same tree and notes a change exactly
if the tree was not in that form, and only then is the result another tree. -/
theorem checkedNormalize_reaches {root : Segment ι} (hwhole : root.isWhole = true)
    (hcontents : root.HasContents) :
    ∃ normal, root.checkedNormalize = .ok normal ∧ normal.IsCondensed ∧
      normal.checkedNormalize = .ok normal ∧
      ∃ changed, root.normalizeNoting = (normal, changed) ∧
        (changed = true ↔ normal ≠ root) ∧ (changed = true ↔ ¬root.IsCondensed) := by
  have hnormal := isNormal_normalize root
  rcases normalizeNoting_eq root with ⟨hresult, hchanged⟩
  have hnoted : root.normalizeNoting.2 = true ↔ ¬root.IsNormal := by
    rw [← hchanged, Bool.not_eq_false]
  refine ⟨root.normalize, ?_, ?_, ?_, root.normalizeNoting.2, Prod.ext hresult rfl, ?_, ?_⟩
  · rw [checkedNormalize, normalizeError?_eq_none hwhole hcontents]
  · exact (isCondensed_iff_isNormal (hasContents_normalize hcontents)).mpr hnormal
  · rw [checkedNormalize, hnormal.normalize_eq,
      normalizeError?_eq_none (isWhole_normalize hwhole) (hasContents_normalize hcontents)]
  · rw [hnoted, Ne, normalize_eq_self_iff]
  · rw [hnoted, isCondensed_iff_isNormal hcontents]

/-- A text that is dropped once its child is, one that is joined with the text before once its
grandchild is dropped, and a span that is left with nothing in it. -/
def emptiedTree : Segment NodeId :=
  .branch ⟨.named "root", .text (some []), none⟩
    [.text (.named "first") ['a'],
      .branch ⟨.named "nothing", .text (some []), none⟩ [.text (.named "empty") []],
      .branch ⟨.named "second", .text (some ['b']), none⟩
        [.branch ⟨.named "hollow", .text (some []), none⟩ [.text (.named "inmost") []]],
      .branch ⟨.named "span", .weighted (.valid .increase) (.valid 1), none⟩
        [.text (.named "inside") []]]

/-- The tree with dropped and joined texts at three levels is brought to normal form. -/
theorem checkedNormalize_reaches_emptiedTree :
    emptiedTree.isWhole = true ∧ emptiedTree.HasContents ∧
      ∃ normal, emptiedTree.checkedNormalize = .ok normal ∧ normal.IsCondensed ∧
        normal.checkedNormalize = .ok normal ∧
        ∃ changed, emptiedTree.normalizeNoting = (normal, changed) ∧
          (changed = true ↔ normal ≠ emptiedTree) ∧
          (changed = true ↔ ¬emptiedTree.IsCondensed) :=
  ⟨by decide, by decide, checkedNormalize_reaches (by decide) (by decide)⟩

end Segment

end PromptMarkup
