import PromptMarkup.Proofs.JoinedRuns
import PromptMarkup.Proofs.NormalizedTree
import PromptMarkup.Render.Compile
import PromptMarkup.Segment.Edit

/-!
# Splitting a text

A text is split into its first half, which keeps all else that the text has, and a new text with
the rest of the content.  The children of a text stay with the first half, so their text comes
before the rest of the content, where it came after it.  Among the children of a segment the
halves of a text without children are joined again as if the text had not been split.

Main statements:

- {lit}`splitText_eq`: what the halves of a text are.
- {lit}`compile_splitText`: what the halves are compiled to, and when it is what the text is.
- {lit}`mergeRuns_halves`: the halves of a plain text are joined as the text itself is.
- {lit}`checkedMerge_splitText`: joining texts undoes a split.
-/

namespace PromptMarkup

namespace Segment

variable {ι : Type}

/-! ## Halves -/

/-- The halves of a text: the text with the first part of its content, and a new one with the
second part. -/
theorem splitText_eq {segment : Segment ι} {id : ι} {content : Text} {metadata : Option Object}
    (hhead : segment.head? = some ⟨id, .text (some content), metadata⟩) {position : Nat}
    (hposition : position ≤ content.length) (fresh : ι) :
    segment.splitText (.int position) fresh =
      .ok (segment.withContent (content.take position), text fresh (content.drop position)) := by
  have hsplit : segment.splitText (.int position) fresh =
      .ok (ofHead ⟨id, .text (some (content.take position)), metadata⟩ segment.children?,
        text fresh (content.drop position)) := by
    simp only [splitText, hhead]
    exact if_pos hposition
  rw [hsplit]
  cases segment with
  | missing => cases hhead
  | leaf head =>
    cases hhead
    rfl
  | branch head children =>
    cases hhead
    rfl

/-- A text is written as its content and the texts of its children. -/
theorem render_of_text {segment : Segment ι} {id : ι} {content inner : Text}
    {metadata : Option Object}
    (hhead : segment.head? = some ⟨id, .text (some content), metadata⟩)
    (hinner : renderList segment.children = .ok inner) :
    segment.render = .ok (content ++ inner) := by
  have hkind : segment.kind? = some (.text (some content)) := by
    rw [kind?, hhead]
    rfl
  exact render_of_kind? hkind hinner

/-- The texts of the children of a text are there if its own is. -/
theorem exists_renderList_of_text {segment : Segment ι} {id : ι} {content text : Text}
    {metadata : Option Object}
    (hhead : segment.head? = some ⟨id, .text (some content), metadata⟩)
    (hrender : segment.render = .ok text) :
    ∃ inner, renderList segment.children = .ok inner ∧ text = content ++ inner := by
  have hchildren : ∃ inner, renderList segment.children = .ok inner := by
    cases segment with
    | missing => cases hhead
    | leaf head => exact ⟨[], rfl⟩
    | branch head children =>
      cases hhead
      rw [Segment.children]
      cases hinner : renderList children with
      | ok inner => exact ⟨inner, rfl⟩
      | error reason => simp [render, Kind.showsChildren, hinner] at hrender
  rcases hchildren with ⟨inner, hinner⟩
  refine ⟨inner, hinner, ?_⟩
  rw [render_of_text hhead hinner] at hrender
  exact (Except.ok.inj hrender).symm

/-- Another content leaves the children of a segment as they are. -/
@[simp] theorem children_withContent (segment : Segment ι) (content : Text) :
    (segment.withContent content).children = segment.children := by
  cases segment with
  | missing => rfl
  | leaf head =>
    rcases head with ⟨id, kind, metadata⟩
    cases kind <;> rfl
  | branch head children =>
    rcases head with ⟨id, kind, metadata⟩
    cases kind <;> rfl

/-- A text with another content is a text with that content. -/
theorem head?_withContent {segment : Segment ι} {id : ι} {old : Option Text}
    {metadata : Option Object} (hhead : segment.head? = some ⟨id, .text old, metadata⟩)
    (content : Text) :
    (segment.withContent content).head? = some ⟨id, .text (some content), metadata⟩ := by
  cases segment with
  | missing => cases hhead
  | leaf head =>
    cases hhead
    rfl
  | branch head children =>
    cases hhead
    rfl

/-- The halves of a text are compiled to the first part of its content with the text of its
children, and to the second part.  One after the other they are what the text is compiled to
exactly if the text of the children and the second part of the content come to the same in either
order, as they do where one of them is empty. -/
theorem compile_splitText {segment : Segment ι} {id : ι} {content text : Text}
    {metadata : Option Object} {surroundings : Surroundings} {options : CompileOptions}
    (hhead : segment.head? = some ⟨id, .text (some content), metadata⟩)
    (hplain : options.expandWildcards = false)
    (hcompile : compile surroundings (some options) segment = .ok text) {position : Nat}
    (hposition : position ≤ content.length) (fresh : ι) :
    ∃ left right inner, segment.splitText (.int position) fresh = .ok (left, right) ∧
      renderList segment.children = .ok inner ∧ text = content ++ inner ∧
      compile surroundings (some options) left = .ok (content.take position ++ inner) ∧
      compile surroundings (some options) right = .ok (content.drop position) ∧
      (content.take position ++ inner ++ content.drop position = text ↔
        inner ++ content.drop position = content.drop position ++ inner) := by
  have hcompiles : ∀ {root : Segment ι} {text : Text}, root.isPresent = true →
      (compile surroundings (some options) root = .ok text ↔ root.render = .ok text) :=
    fun hpresent => compile_eq_ok_iff rfl hplain hpresent
  rw [hcompiles (isPresent_of_head? hhead)] at hcompile
  rcases exists_renderList_of_text hhead hcompile with ⟨inner, hinner, rfl⟩
  have hleft := head?_withContent hhead (content.take position)
  refine ⟨_, _, inner, splitText_eq hhead hposition fresh, hinner, rfl, ?_, ?_, ?_⟩
  · rw [hcompiles (isPresent_of_head? hleft)]
    exact render_of_text hleft (by rw [children_withContent, hinner])
  · rw [hcompiles rfl]
    exact render_of_plainText? rfl
  · have hcontent : content ++ inner =
        content.take position ++ (content.drop position ++ inner) := by
      rw [← List.append_assoc, List.take_append_drop]
    rw [hcontent, List.append_assoc, List.append_cancel_left_eq]

/-- A text before a span is split within its content. -/
theorem compile_splitText_beforeSpan :
    let segment : Segment NodeId :=
      .branch ⟨.named "text", .text (some ['a', 'b']), some [("note", .null)]⟩
        [.branch ⟨.named "span", .weighted (.valid .increase) (.valid 2), none⟩
          [.text (.named "inside") ['c']]]
    let options : CompileOptions := ⟨false, some 7, 50⟩
    segment.head? = some ⟨.named "text", .text (some ['a', 'b']), some [("note", .null)]⟩ ∧
      options.expandWildcards = false ∧
      compile ⟨.ok {}, 0⟩ (some options) segment = .ok "ab\x7b\x7bc\x7d\x7d".toList ∧
      1 ≤ ['a', 'b'].length ∧
      ∃ left right inner,
        segment.splitText (.int (1 : Nat)) (.fresh .text 0) = .ok (left, right) ∧
        renderList segment.children = .ok inner ∧
        "ab\x7b\x7bc\x7d\x7d".toList = ['a', 'b'] ++ inner ∧
        compile ⟨.ok {}, 0⟩ (some options) left = .ok (['a', 'b'].take 1 ++ inner) ∧
        compile ⟨.ok {}, 0⟩ (some options) right = .ok (['a', 'b'].drop 1) ∧
        (['a', 'b'].take 1 ++ inner ++ ['a', 'b'].drop 1 = "ab\x7b\x7bc\x7d\x7d".toList ↔
          inner ++ ['a', 'b'].drop 1 = ['a', 'b'].drop 1 ++ inner) :=
  ⟨rfl, rfl, rfl, by decide, compile_splitText rfl rfl rfl (by decide) _⟩

/-- The rest of the content comes after the text of the children once a text is split. -/
theorem splitText_movesChildren :
    let segment : Segment NodeId :=
      .branch ⟨.named "s", .text (some ['a', 'b']), none⟩ [.text (.named "c") ['x']]
    let options : CompileOptions := ⟨false, some 0, 50⟩
    ∃ left right, segment.splitText (.int 1) (.fresh .text 0) = .ok (left, right) ∧
      compile ⟨.ok {}, 0⟩ (some options) left = .ok ['a', 'x'] ∧
      compile ⟨.ok {}, 0⟩ (some options) right = .ok ['b'] ∧
      compile ⟨.ok {}, 0⟩ (some options) segment = .ok ['a', 'b', 'x'] ∧
      ['a', 'x'] ++ ['b'] ≠ ['a', 'b', 'x'] :=
  ⟨_, _, rfl, rfl, rfl, rfl, by decide⟩

/-! ## Joining the halves -/

/-- A text with a new content in place of its own is as it was if the content is the same. -/
theorem withContent_of_plainText? {segment : Segment ι} {content : Text}
    (h : segment.plainText? = some content) : segment.withContent content = segment := by
  rcases plainText?_eq_some_iff.mp h with ⟨id, metadata, rfl | rfl⟩
  · rfl
  · rfl

/-- Plain text has the head of a text with its content. -/
theorem exists_head?_of_plainText? {segment : Segment ι} {content : Text}
    (h : segment.plainText? = some content) :
    ∃ id metadata, segment.head? = some ⟨id, .text (some content), metadata⟩ := by
  rcases plainText?_eq_some_iff.mp h with ⟨id, metadata, rfl | rfl⟩
  · exact ⟨id, metadata, rfl⟩
  · exact ⟨id, metadata, rfl⟩

/-- The halves of a plain text are joined as the text itself is. -/
theorem mergeRuns_halves {segment : Segment ι} {content : Text}
    (h : segment.plainText? = some content) (position : Nat) (fresh : ι)
    (before after : List (Segment ι)) :
    mergeRuns (before ++ segment.withContent (content.take position) ::
        text fresh (content.drop position) :: after) =
      mergeRuns (before ++ segment :: after) := by
  rw [mergeRuns_append, mergeRuns_append, mergeRuns_cons, mergeRuns_cons, mergeRuns_cons,
    joinFirst_joinFirst (plainText?_withContent h _) rfl, List.take_append_drop,
    withContent_withContent, withContent_of_plainText? h]

/-- Joining runs leaves no more segments than there were. -/
theorem length_mergeRuns_le (trees : List (Segment ι)) :
    (mergeRuns trees).length ≤ trees.length := by
  cases trees with
  | nil => exact Nat.le_refl 0
  | cons first rest => exact length_mergeAfter_le first rest

/-- The texts among the children of a segment are joined where each of them has a content, and it
is said whether there were any to join. -/
theorem checkedMerge_branch {head : Head ι} {children : List (Segment ι)}
    (h : ∀ child ∈ children, ∀ head, child.head? = some head → head.kind ≠ .text none) :
    (branch head children).checkedMerge =
      .ok (branch head (mergeRuns children),
        decide ((mergeRuns children).length < children.length)) := by
  have hmerge : (branch head children).checkedMerge = .ok (branch head children).mergeChildren := by
    have hjoined : hasBrokenPair (branch head children).children = false :=
      hasBrokenPair_eq_false h
    simp [checkedMerge, isPresent, hjoined]
  rw [hmerge, mergeChildren]
  split
  · rename_i hlt
    rw [decide_eq_true hlt]
  · rename_i hlt
    rw [decide_eq_false hlt, mergeRuns_eq_self (not_not.mp (mt length_mergeRuns_lt_iff.mpr hlt))]

/-- If a text without children is replaced by its halves among the children of a segment, joining
the texts there comes to the same as joining them without the split. -/
theorem checkedMerge_splitText {parent child : Segment ι} {content : Text} {index position : Nat}
    (hcontents : ∀ child ∈ parent.children, ∀ head, child.head? = some head →
      head.kind ≠ .text none)
    (hchild : parent.children[index]? = some child) (hplain : child.plainText? = some content)
    (hposition : position ≤ content.length) (fresh : ι) :
    ∃ left right merged joined, child.splitText (.int position) fresh = .ok (left, right) ∧
      (parent.withChildren (parent.children.take index ++
        left :: right :: parent.children.drop (index + 1))).checkedMerge = .ok (merged, true) ∧
      parent.checkedMerge = .ok (merged, joined) := by
  rcases exists_head?_of_plainText? hplain with ⟨id, metadata, hhead⟩
  cases parent with
  | missing => cases hchild
  | leaf head => cases hchild
  | branch head children =>
    rw [Segment.children] at hcontents hchild ⊢
    rcases List.getElem?_eq_some_iff.mp hchild with ⟨hindex, rfl⟩
    have hlist : children.take index ++ children[index] :: children.drop (index + 1) = children := by
      rw [List.getElem_cons_drop, List.take_append_drop]
    have hlength : (children.take index ++ children[index].withContent (content.take position) ::
        text fresh (content.drop position) :: children.drop (index + 1)).length =
          children.length + 1 := by
      have hsame := congrArg List.length hlist
      simp only [List.length_append, List.length_cons] at hsame ⊢
      omega
    have hleft := head?_withContent hhead (content.take position)
    have hhalves : ∀ half ∈ children.take index ++
        children[index].withContent (content.take position) ::
          text fresh (content.drop position) :: children.drop (index + 1),
        ∀ head, half.head? = some head → head.kind ≠ .text none := by
      intro half hhalf other hother
      rw [List.mem_append, List.mem_cons, List.mem_cons] at hhalf
      rcases hhalf with hmem | rfl | rfl | hmem
      · exact hcontents half (List.mem_of_mem_take hmem) other hother
      · rw [hleft] at hother
        cases hother
        nofun
      · cases hother
        nofun
      · exact hcontents half (List.mem_of_mem_drop hmem) other hother
    refine ⟨_, _, branch head (mergeRuns children), _, splitText_eq hhead hposition fresh, ?_,
      checkedMerge_branch hcontents⟩
    rw [withChildren, head?, checkedMerge_branch hhalves, mergeRuns_halves hplain, hlist, hlength,
      decide_eq_true (Nat.lt_succ_of_le (length_mergeRuns_le children))]

/-- Two texts that are joined, one with an empty list of children, one with a child, a place where
nothing stands, and a last text. -/
def mixedParent : Segment NodeId :=
  .branch ⟨.named "root", .text (some []), none⟩
    [.text (.named "first") ['a'], .leaf ⟨.named "split", .text (some ['b', 'c']), some []⟩,
      .branch ⟨.named "empty", .text (some ['d']), none⟩ [],
      .branch ⟨.named "holder", .text (some ['e']), none⟩ [.text (.named "inner") ['f']],
      .missing, .text (.named "last") ['g']]

/-- A text in the middle of a run is split and joined again. -/
theorem checkedMerge_splitText_mixedParent :
    (∀ child ∈ mixedParent.children, ∀ head, child.head? = some head → head.kind ≠ .text none) ∧
      mixedParent.children[1]? =
        some (.leaf ⟨.named "split", .text (some ['b', 'c']), some []⟩) ∧
      1 ≤ ['b', 'c'].length ∧
      ∃ left right merged joined,
        (Segment.leaf ⟨.named "split", .text (some ['b', 'c']), some []⟩).splitText
          (.int (1 : Nat)) (.fresh .text 0) = .ok (left, right) ∧
        (mixedParent.withChildren (mixedParent.children.take 1 ++
          left :: right :: mixedParent.children.drop (1 + 1))).checkedMerge = .ok (merged, true) ∧
        mixedParent.checkedMerge = .ok (merged, joined) := by
  have hcontents : ∀ child ∈ mixedParent.children, ∀ head, child.head? = some head →
      head.kind ≠ .text none := by
    intro child hchild head hhead
    have hnone : ∀ head ∈ mixedParent.children.filterMap head?, head.kind ≠ .text none := by decide
    exact hnone head (List.mem_filterMap.mpr ⟨child, hchild, hhead⟩)
  exact ⟨hcontents, rfl, by decide,
    checkedMerge_splitText hcontents rfl rfl (by decide) (.fresh .text 0)⟩

end Segment

end PromptMarkup
