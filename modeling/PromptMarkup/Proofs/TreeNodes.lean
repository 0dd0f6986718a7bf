import PromptMarkup.Render.Syntax

/-!
# Nodes of a tree and their texts

The nodes of a tree are closed under taking children, and the text of a tree is
there as soon as each of its nodes can be written by itself.

Main statements:

- {lit}`mem_nodes_trans`: a node of a node is a node of the tree.
- {lit}`eq_of_id?_eq`: where identifiers are distinct, a node is known by its own.
- {lit}`exists_render`: a tree has a text if each of its nodes can be written.
-/

namespace PromptMarkup

/-- A segment that does not show its children is written in the same way whatever
they are. -/
theorem Kind.render_of_hidden {kind : Kind} (h : kind.showsChildren = false) (inner : Text) :
    kind.render inner = kind.render [] := by
  cases kind with
  | preset name mode selected => rfl
  | inlineWildcard options => rfl
  | text content => cases h
  | weighted bracketType level => cases h
  | unknown => cases h

namespace Segment

variable {ι : Type}

/-- The kind of a segment that is there. -/
def kind? (segment : Segment ι) : Option Kind :=
  segment.head?.map (·.kind)

/-- A segment with a head is there. -/
theorem isPresent_of_head? {segment : Segment ι} {head : Head ι}
    (hhead : segment.head? = some head) : segment.isPresent = true := by
  cases segment with
  | missing => cases hhead
  | leaf head => rfl
  | branch head children => rfl

/-! ## Nodes -/

/-- The nodes of a list of trees are those of its trees. -/
@[simp] theorem mem_nodesList {node : Segment ι} {trees : List (Segment ι)} :
    node ∈ nodesList trees ↔ ∃ tree ∈ trees, node ∈ tree.nodes := by
  induction trees with
  | nil => simp [nodesList]
  | cons tree rest ih => simp [nodesList, ih]

/-- The nodes of a segment with children: the segment, and the nodes of its children. -/
theorem mem_nodes_branch {node : Segment ι} {head : Head ι} {children : List (Segment ι)} :
    node ∈ (branch head children).nodes ↔
      node = branch head children ∨ ∃ child ∈ children, node ∈ child.nodes := by
  simp [nodes]

/-- A tree is one of its nodes. -/
@[simp] theorem mem_nodes_self (tree : Segment ι) : tree ∈ tree.nodes := by
  cases tree <;> simp [nodes]

/-- A node of a node is a node of the tree. -/
theorem mem_nodes_trans {tree node below : Segment ι} (hnode : node ∈ tree.nodes)
    (hbelow : below ∈ node.nodes) : below ∈ tree.nodes := by
  induction tree with
  | missing =>
    rw [nodes, List.mem_singleton] at hnode
    exact hnode ▸ hbelow
  | leaf head =>
    rw [nodes, List.mem_singleton] at hnode
    exact hnode ▸ hbelow
  | branch head children ih =>
    rcases mem_nodes_branch.mp hnode with rfl | ⟨child, hchild, hmem⟩
    · exact hbelow
    · exact mem_nodes_branch.mpr (Or.inr ⟨child, hchild, ih child hchild hmem⟩)

/-- A child of a node is a node of the tree. -/
theorem mem_nodes_of_mem_children {tree node child : Segment ι} (hnode : node ∈ tree.nodes)
    (hchild : child ∈ node.children) : child ∈ tree.nodes := by
  apply mem_nodes_trans hnode
  cases node with
  | missing => cases hchild
  | leaf head => cases hchild
  | branch head children =>
    exact mem_nodes_branch.mpr (Or.inr ⟨child, hchild, mem_nodes_self child⟩)

/-- In a tree in which no segment is missing every node is there. -/
theorem isPresent_of_mem_nodes {tree node : Segment ι} (hwhole : tree.isWhole = true)
    (hnode : node ∈ tree.nodes) : node.isPresent = true :=
  List.all_eq_true.mp hwhole node hnode

/-- In a tree in which no segment is missing none is below a node. -/
theorem isWhole_of_mem_nodes {tree node : Segment ι} (hwhole : tree.isWhole = true)
    (hnode : node ∈ tree.nodes) : node.isWhole = true :=
  List.all_eq_true.mpr fun _ hbelow => isPresent_of_mem_nodes hwhole (mem_nodes_trans hnode hbelow)

/-- A segment that is there has a head. -/
theorem exists_head?_of_isPresent {node : Segment ι} (h : node.isPresent = true) :
    ∃ head, node.head? = some head := by
  cases node with
  | missing => cases h
  | leaf head => exact ⟨head, rfl⟩
  | branch head children => exact ⟨head, rfl⟩

/-- A segment that is there has an identifier. -/
theorem exists_id?_of_isPresent {node : Segment ι} (h : node.isPresent = true) :
    ∃ id, node.id? = some id := by
  rcases exists_head?_of_isPresent h with ⟨head, hhead⟩
  exact ⟨head.id, by simp [id?, hhead]⟩

/-- The identifier of a node is one of those of the tree. -/
theorem mem_ids {tree node : Segment ι} {id : ι} (hnode : node ∈ tree.nodes)
    (hid : node.id? = some id) : id ∈ tree.ids :=
  List.mem_filterMap.mpr ⟨node, hnode, hid⟩

/-- Where identifiers are distinct, a node is known by its own. -/
theorem eq_of_id?_eq {tree node other : Segment ι} {id : ι} (hdistinct : tree.ids.Nodup)
    (hnode : node ∈ tree.nodes) (hother : other ∈ tree.nodes)
    (hid : node.id? = some id) (hsame : other.id? = some id) : node = other := by
  have hinjective : ∀ trees : List (Segment ι), (trees.filterMap id?).Nodup →
      node ∈ trees → other ∈ trees → node = other := by
    intro trees
    induction trees with
    | nil => intro _ hmem; cases hmem
    | cons tree rest ih =>
      intro hnodup hmem hmem'
      -- Two different places in the list would give the identifier twice.
      have hrest : (rest.filterMap id?).Nodup :=
        hnodup.sublist ((List.sublist_cons_self tree rest).filterMap id?)
      have hfresh : ∀ found ∈ rest, tree.id? = some id → found.id? ≠ some id := by
        intro found hfound htree hfoundId
        rw [List.filterMap_cons_some htree, List.nodup_cons] at hnodup
        exact hnodup.1 (List.mem_filterMap.mpr ⟨found, hfound, hfoundId⟩)
      rcases List.mem_cons.mp hmem with heq | hmem
      · rcases List.mem_cons.mp hmem' with heq' | hmem'
        · rw [heq, heq']
        · exact absurd hsame (hfresh other hmem' (heq ▸ hid))
      · rcases List.mem_cons.mp hmem' with heq' | hmem'
        · exact absurd hid (hfresh node hmem (heq' ▸ hsame))
        · exact ih hrest hmem hmem'
  exact hinjective tree.nodes hdistinct hnode hother

/-! ## Texts -/

/-- A segment can be written by itself, whatever stands inside it. -/
def RendersItself (node : Segment ι) : Prop :=
  ∀ head, node.head? = some head → ∀ inner, ∃ text, head.kind.render inner = .ok text

/-- The text of a segment with children, given theirs. -/
theorem render_branch {head : Head ι} {children : List (Segment ι)} {inner : Text}
    (hinner : renderList children = .ok inner) :
    (branch head children).render = head.kind.render inner := by
  rw [render]
  split
  · rw [hinner]
  · rename_i hhidden
    exact (Kind.render_of_hidden (by simpa using hhidden) inner).symm

/-- The text of a segment, given its kind and the texts of its children. -/
theorem render_of_kind? {node : Segment ι} {kind : Kind} {inner : Text}
    (hkind : node.kind? = some kind) (hinner : renderList node.children = .ok inner) :
    node.render = kind.render inner := by
  cases node with
  | missing => cases hkind
  | leaf head =>
    cases hkind
    cases hinner
    rfl
  | branch head children =>
    cases hkind
    exact render_branch hinner

/-- The text of a list of trees, given that of the first and of the rest. -/
theorem renderList_cons {child : Segment ι} {rest : List (Segment ι)} {text texts : Text}
    (hchild : child.render = .ok text) (hrest : renderList rest = .ok texts) :
    renderList (child :: rest) = .ok (text ++ texts) := by
  rw [renderList, hchild]
  simp only [hrest]
  rfl

/-- A list of trees has a text if each of its trees has. -/
theorem exists_renderList {children : List (Segment ι)}
    (h : ∀ child ∈ children, ∃ text, child.render = .ok text) :
    ∃ texts, renderList children = .ok texts := by
  induction children with
  | nil => exact ⟨[], rfl⟩
  | cons child rest ih =>
    rcases h child List.mem_cons_self with ⟨text, htext⟩
    rcases ih fun other hother => h other (List.mem_cons_of_mem _ hother) with ⟨texts, htexts⟩
    exact ⟨text ++ texts, renderList_cons htext htexts⟩

/-- A tree has a text if each of its nodes can be written. -/
theorem exists_render {tree : Segment ι} (h : ∀ node ∈ tree.nodes, node.RendersItself) :
    ∃ text, tree.render = .ok text := by
  induction tree with
  | missing => exact ⟨[], rfl⟩
  | leaf head => exact h _ (mem_nodes_self _) head rfl []
  | branch head children ih =>
    have hchildren : ∀ child ∈ children, ∃ text, child.render = .ok text := by
      intro child hchild
      apply ih child hchild
      intro node hnode
      exact h node (mem_nodes_branch.mpr (Or.inr ⟨child, hchild, hnode⟩))
    rcases exists_renderList hchildren with ⟨inner, hinner⟩
    rw [render_branch hinner]
    exact h _ (mem_nodes_self _) head rfl inner

end Segment

end PromptMarkup
