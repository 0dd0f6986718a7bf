import Mathlib.Data.List.Nodup
import PromptMarkup.Proofs.TreeNodes

/-!
# Parents in a tree

Where the nodes of a tree are distinct, the trees below two children of a node have no node
in common, so a node has one parent, and the nodes above it are its parent and those above
the parent.

Main statements:

- {lit}`nodup_nodes`: distinct identifiers make distinct nodes.
- {lit}`eq_of_mem_nodes_of_mem_nodes`: a node lies below one child at most.
- {lit}`eq_of_mem_children_of_mem_children`: a node is a child of one node at most.
- {lit}`mem_nodes_or_eq_of_mem_children`: what stands above a child is its parent, or stands
  above that.
-/

namespace PromptMarkup

namespace Segment

variable {ι : Type}

/-- The nodes of a node are part of those of the tree. -/
theorem nodes_sublist {tree node : Segment ι} (hnode : node ∈ tree.nodes) :
    node.nodes.Sublist tree.nodes := by
  have hlist : ∀ trees : List (Segment ι), ∀ tree ∈ trees,
      tree.nodes.Sublist (nodesList trees) := by
    intro trees
    induction trees with
    | nil => exact List.forall_mem_nil _
    | cons tree rest ih =>
      refine List.forall_mem_cons.mpr ⟨?_, fun other hother => ?_⟩
      · exact List.sublist_append_left _ _
      · exact (ih other hother).trans (List.sublist_append_right _ _)
  induction tree with
  | missing =>
    rw [nodes, List.mem_singleton] at hnode
    exact hnode ▸ List.Sublist.refl _
  | leaf head =>
    rw [nodes, List.mem_singleton] at hnode
    exact hnode ▸ List.Sublist.refl _
  | branch head children ih =>
    rcases mem_nodes_branch.mp hnode with rfl | ⟨child, hchild, hmem⟩
    · exact List.Sublist.refl _
    · exact ((ih child hchild hmem).trans (hlist children child hchild)).cons _

/-- A node is no larger than its tree. -/
theorem sizeOf_le_of_mem_nodes {tree node : Segment ι} (hnode : node ∈ tree.nodes) :
    sizeOf node ≤ sizeOf tree := by
  induction tree with
  | missing =>
    rw [nodes, List.mem_singleton] at hnode
    exact hnode ▸ Nat.le_refl _
  | leaf head =>
    rw [nodes, List.mem_singleton] at hnode
    exact hnode ▸ Nat.le_refl _
  | branch head children ih =>
    rcases mem_nodes_branch.mp hnode with rfl | ⟨child, hchild, hmem⟩
    · exact Nat.le_refl _
    · have hbelow := ih child hchild hmem
      have hsize := List.sizeOf_lt_of_mem hchild
      rw [branch.sizeOf_spec]
      omega

/-- A child is smaller than its parent. -/
theorem sizeOf_lt_of_mem_children {node child : Segment ι} (hchild : child ∈ node.children) :
    sizeOf child < sizeOf node := by
  cases node with
  | missing => cases hchild
  | leaf head => cases hchild
  | branch head children =>
    have hsize : sizeOf child < sizeOf children := List.sizeOf_lt_of_mem hchild
    rw [branch.sizeOf_spec]
    omega

/-- The root of a tree stands below no child of a node. -/
theorem root_not_mem_nodes_of_mem_children {tree node child : Segment ι}
    (hnode : node ∈ tree.nodes) (hchild : child ∈ node.children) : tree ∉ child.nodes := by
  intro hmem
  have hle := sizeOf_le_of_mem_nodes hmem
  have hlt := sizeOf_lt_of_mem_children hchild
  have hroot := sizeOf_le_of_mem_nodes hnode
  omega

/-- No node stands below one of its children. -/
theorem not_mem_nodes_of_mem_children {node child : Segment ι} (hchild : child ∈ node.children) :
    node ∉ child.nodes :=
  root_not_mem_nodes_of_mem_children (mem_nodes_self node) hchild

/-- A node of a tree is the tree, or a child of one of its nodes. -/
theorem eq_or_exists_parent {tree node : Segment ι} (hnode : node ∈ tree.nodes) :
    node = tree ∨ ∃ parent ∈ tree.nodes, node ∈ parent.children := by
  induction tree with
  | missing =>
    rw [nodes, List.mem_singleton] at hnode
    exact Or.inl hnode
  | leaf head =>
    rw [nodes, List.mem_singleton] at hnode
    exact Or.inl hnode
  | branch head children ih =>
    rcases mem_nodes_branch.mp hnode with rfl | ⟨child, hchild, hmem⟩
    · exact Or.inl rfl
    · right
      rcases ih child hchild hmem with rfl | ⟨parent, hparent, hbelow⟩
      · exact ⟨_, mem_nodes_self _, hchild⟩
      · exact ⟨parent, mem_nodes_branch.mpr (Or.inr ⟨child, hchild, hparent⟩), hbelow⟩

/-! ## Distinct nodes -/

/-- Distinct identifiers make distinct nodes, if none is missing. -/
theorem nodup_nodes {tree : Segment ι} (hwhole : tree.isWhole = true)
    (hdistinct : tree.ids.Nodup) : tree.nodes.Nodup := by
  have hnodup : ∀ trees : List (Segment ι), (∀ node ∈ trees, node.isPresent = true) →
      (trees.filterMap id?).Nodup → trees.Nodup := by
    intro trees
    induction trees with
    | nil => exact fun _ _ => List.nodup_nil
    | cons node rest ih =>
      intro hpresent hids
      rcases exists_id?_of_isPresent (hpresent node List.mem_cons_self) with ⟨id, hid⟩
      rw [List.filterMap_cons_some hid, List.nodup_cons] at hids
      refine List.nodup_cons.mpr ⟨fun hmem => ?_, ?_⟩
      · exact hids.1 (List.mem_filterMap.mpr ⟨node, hmem, hid⟩)
      · exact ih (fun other hother => hpresent other (List.mem_cons_of_mem _ hother)) hids.2
  exact hnodup tree.nodes (fun node hnode => isPresent_of_mem_nodes hwhole hnode) hdistinct

section Distinct

variable {tree : Segment ι} (hnodup : tree.nodes.Nodup)

include hnodup

/-- A node lies below one child of a node at most. -/
theorem eq_of_mem_nodes_of_mem_nodes {node child other below : Segment ι}
    (hnode : node ∈ tree.nodes) (hchild : child ∈ node.children) (hother : other ∈ node.children)
    (hbelow : below ∈ child.nodes) (hbelow' : below ∈ other.nodes) : child = other := by
  have hlist : ∀ trees : List (Segment ι), (nodesList trees).Nodup → child ∈ trees →
      other ∈ trees → child = other := by
    intro trees
    induction trees with
    | nil => exact fun _ hmem _ => absurd hmem List.not_mem_nil
    | cons first rest ih =>
      intro hnodup hmem hmem'
      rw [nodesList, List.nodup_append'] at hnodup
      have hrest : ∀ found ∈ rest, below ∈ found.nodes → below ∉ first.nodes :=
        fun found hfound hin hfirst =>
          hnodup.2.2 hfirst (mem_nodesList.mpr ⟨found, hfound, hin⟩)
      rcases List.mem_cons.mp hmem with heq | hin
      · rcases List.mem_cons.mp hmem' with heq' | hin'
        · rw [heq, heq']
        · exact absurd (heq ▸ hbelow) (hrest other hin' hbelow')
      · rcases List.mem_cons.mp hmem' with heq' | hin'
        · exact absurd (heq' ▸ hbelow') (hrest child hin hbelow)
        · exact ih hnodup.2.1 hin hin'
  have hnodes : node.nodes.Nodup := hnodup.sublist (nodes_sublist hnode)
  cases node with
  | missing => cases hchild
  | leaf head => cases hchild
  | branch head children =>
    rw [nodes, List.nodup_cons] at hnodes
    exact hlist children hnodes.2 hchild hother

/-- A node is a child of one node at most. -/
theorem eq_of_mem_children_of_mem_children {node other child : Segment ι}
    (hnode : node ∈ tree.nodes) (hother : other ∈ tree.nodes) (hchild : child ∈ node.children)
    (hchild' : child ∈ other.children) : node = other := by
  -- The child of a root is no child of a node below that child.
  have hroot : ∀ (root below : Segment ι), root.nodes.Nodup → child ∈ root.children →
      below ∈ root.nodes → child ∈ below.children → root = below := by
    intro root below hnodes hmem hbelow hmem'
    cases root with
    | missing => cases hmem
    | leaf head => cases hmem
    | branch head children =>
      rcases mem_nodes_branch.mp hbelow with rfl | ⟨first, hfirst, hbelow⟩
      · rfl
      · have hsame : child = first :=
          eq_of_mem_nodes_of_mem_nodes hnodes (mem_nodes_self _) hmem hfirst (mem_nodes_self _)
            (mem_nodes_of_mem_children hbelow hmem')
        rw [← hsame] at hbelow
        exact absurd hbelow (not_mem_nodes_of_mem_children hmem')
  induction tree with
  | missing =>
    rw [nodes, List.mem_singleton] at hnode hother
    rw [hnode, hother]
  | leaf head =>
    rw [nodes, List.mem_singleton] at hnode hother
    rw [hnode, hother]
  | branch head children ih =>
    rcases mem_nodes_branch.mp hnode with rfl | ⟨first, hfirst, hin⟩
    · exact hroot _ other hnodup hchild hother hchild'
    · rcases mem_nodes_branch.mp hother with rfl | ⟨second, hsecond, hin'⟩
      · exact (hroot _ node hnodup hchild' hnode hchild).symm
      · have hsame : first = second :=
          eq_of_mem_nodes_of_mem_nodes hnodup (mem_nodes_self _) hfirst hsecond
            (mem_nodes_of_mem_children hin hchild) (mem_nodes_of_mem_children hin' hchild')
        subst hsame
        have hbelow : first.nodes.Nodup := by
          refine hnodup.sublist (nodes_sublist ?_)
          exact mem_nodes_branch.mpr (Or.inr ⟨first, hfirst, mem_nodes_self first⟩)
        exact ih first hfirst hbelow hin hin'

/-- What stands above a child is its parent, or stands above that. -/
theorem mem_nodes_or_eq_of_mem_children {node child above first : Segment ι}
    (hnode : node ∈ tree.nodes) (hchild : child ∈ node.children) (habove : above ∈ tree.nodes)
    (hfirst : first ∈ above.children) (hbelow : child ∈ first.nodes) :
    (above = node ∧ first = child) ∨ node ∈ first.nodes := by
  rcases eq_or_exists_parent hbelow with rfl | ⟨parent, hparent, hmem⟩
  · exact Or.inl ⟨eq_of_mem_children_of_mem_children hnodup habove hnode hfirst hchild, rfl⟩
  · right
    have hin : parent ∈ tree.nodes :=
      mem_nodes_trans (mem_nodes_of_mem_children habove hfirst) hparent
    rw [eq_of_mem_children_of_mem_children hnodup hnode hin hchild hmem]
    exact hparent

end Distinct

end Segment

end PromptMarkup
