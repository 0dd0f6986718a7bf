import Mathlib.Data.List.Chain
import PromptMarkup.Proofs.TreeNodes
import PromptMarkup.Segment.Normal

/-!
# Trees in normal form

A tree is in normal form if among the children of each node no plain text is empty and no
two plain texts are neighbours.  Such a tree is left as it is when it is brought to normal
form.

Main statements:

- {lit}`mergeRuns_eq_self`: where no two plain texts are neighbours there is nothing to join.
- {lit}`IsNormal.normalize_eq`: a tree in normal form is its own normal form.
-/

namespace PromptMarkup

namespace Segment

variable {ι : Type}

/-- Children in normal form: no plain text is empty, and no two plain texts are
neighbours. -/
structure NormalChildren (children : List (Segment ι)) : Prop where
  nonempty : ∀ child ∈ children, child.isEmptyText = false
  apart : children.IsChain fun s t => s.plainText? = none ∨ t.plainText? = none

/-- A tree in normal form: the children of each of its nodes are. -/
def IsNormal (root : Segment ι) : Prop :=
  ∀ node ∈ root.nodes, NormalChildren node.children

/-- No children are in normal form. -/
theorem normalChildren_nil : NormalChildren ([] : List (Segment ι)) :=
  ⟨List.forall_mem_nil _, .nil⟩

/-- A tree is in normal form if its children are, in the list and each by itself. -/
theorem isNormal_branch {head : Head ι} {children : List (Segment ι)} :
    (branch head children).IsNormal ↔
      NormalChildren children ∧ ∀ child ∈ children, child.IsNormal := by
  constructor
  · intro h
    refine ⟨h _ (mem_nodes_self _), fun child hchild node hnode => h node ?_⟩
    exact mem_nodes_branch.mpr (Or.inr ⟨child, hchild, hnode⟩)
  · rintro ⟨hchildren, hnodes⟩ node hnode
    rcases mem_nodes_branch.mp hnode with rfl | ⟨child, hchild, hnode⟩
    · exact hchildren
    · exact hnodes child hchild node hnode

/-- A segment without children is in normal form. -/
theorem isNormal_leaf (head : Head ι) : (leaf head).IsNormal := by
  intro node hnode
  rw [nodes, List.mem_singleton] at hnode
  subst hnode
  exact normalChildren_nil

/-- Where no two plain texts are neighbours there is nothing to join. -/
theorem mergeRuns_eq_self {children : List (Segment ι)}
    (h : children.IsChain fun s t => s.plainText? = none ∨ t.plainText? = none) :
    mergeRuns children = children := by
  have hafter : ∀ (rest : List (Segment ι)) previous,
      (previous :: rest).IsChain (fun s t => s.plainText? = none ∨ t.plainText? = none) →
        mergeAfter previous rest = previous :: rest := by
    intro rest
    induction rest with
    | nil => exact fun _ _ => rfl
    | cons segment rest ih =>
      intro previous hchain
      rcases List.isChain_cons_cons.mp hchain with ⟨hfirst, hrest⟩
      rw [mergeAfter]
      split
      · rename_i before content hbefore hcontent
        rcases hfirst with hnone | hnone
        · rw [hnone] at hbefore
          cases hbefore
        · rw [hnone] at hcontent
          cases hcontent
      · rw [ih segment hrest]
  cases children with
  | nil => rfl
  | cons segment rest => exact hafter rest segment h

/-- Trees that are their own normal forms make a list that is. -/
theorem normalizeList_eq_self {trees : List (Segment ι)}
    (h : ∀ tree ∈ trees, tree.normalize = tree) : normalizeList trees = trees := by
  induction trees with
  | nil => rfl
  | cons tree rest ih =>
    rw [normalizeList, h tree List.mem_cons_self,
      ih fun other hother => h other (List.mem_cons_of_mem _ hother)]

/-- Nothing breaks off the way to the normal forms of a list of trees if nothing does in any of
them. -/
theorem normalizeErrorIn?_eq_none {trees : List (Segment ι)}
    (h : ∀ tree ∈ trees, tree.normalizeError? = none) : normalizeErrorIn? trees = none := by
  induction trees with
  | nil => rfl
  | cons tree rest ih =>
    rcases List.forall_mem_cons.mp h with ⟨htree, hrest⟩
    rw [normalizeErrorIn?, htree, ih hrest]
    rfl

/-- Among children in normal form there is no empty text to drop. -/
theorem NormalChildren.filter_eq_self {children : List (Segment ι)} (h : NormalChildren children) :
    children.filter (fun child => !child.isEmptyText) = children :=
  List.filter_eq_self.mpr fun child hchild => by simp [h.nonempty child hchild]

/-- A tree in normal form is its own normal form. -/
theorem IsNormal.normalize_eq {root : Segment ι} (h : root.IsNormal) : root.normalize = root := by
  induction root with
  | missing => rfl
  | leaf head => rfl
  | branch head children ih =>
    rcases isNormal_branch.mp h with ⟨hchildren, hnodes⟩
    rw [normalize, normalizeList_eq_self fun child hchild => ih child hchild (hnodes child hchild),
      hchildren.filter_eq_self, mergeRuns_eq_self hchildren.apart]

end Segment

end PromptMarkup
