import Mathlib.Data.List.Nodup
import PromptMarkup.Proofs.RemovedPlaces
import PromptMarkup.Segment.Walk

/-!
# What a removal takes away

The rows of a tree are its nodes in document order, each by itself and with the position of its
parent's row.  They say all there is to say about a tree, and they stay as they are when a
segment is taken out, except for one block: the rows of the segment and of all that is below
it.

Main statements:

- {lit}`map_node_rows`: the rows are those of the nodes, in document order.
- {lit}`rows_eraseAt`: to take out the segment at a place is to take one block out of the rows.
- {lit}`remove_takesSubtree`: a removal takes away the subtree of one segment with the identifier
  and nothing else, if there is one, and leaves the tree as it is if there is none.
-/

namespace PromptMarkup

namespace Segment

variable {ι : Type}

/-! ## Rows -/

/-- A segment without what is below it.  A list of children is left empty. -/
def alone : Segment ι → Segment ι
  | .missing => .missing
  | .leaf head => .leaf head
  | .branch head _ => .branch head []

@[simp] theorem id?_alone (segment : Segment ι) : segment.alone.id? = segment.id? := by
  cases segment <;> rfl

@[simp] theorem isPresent_alone (segment : Segment ι) :
    segment.alone.isPresent = segment.isPresent := by
  cases segment <;> rfl

/-- A node of a tree by itself, and the position of its parent's row. -/
structure Row (ι : Type) where
  parent : Option Nat
  node : Segment ι
deriving DecidableEq

/-- A position once a number of rows stand at another one. -/
def pushed (cut count position : Nat) : Nat :=
  if position < cut then position else position + count

/-- A row whose parent's row may stand further down, once a number of rows stand at a
position. -/
def Row.pushed (cut count : Nat) (row : Row ι) : Row ι :=
  ⟨row.parent.map (Segment.pushed cut count), row.node⟩

mutual

/-- The rows of a tree whose first row has a position, in document order. -/
def rows (parent : Option Nat) (position : Nat) : Segment ι → List (Row ι)
  | .missing => [⟨parent, .missing⟩]
  | .leaf head => [⟨parent, .leaf head⟩]
  | .branch head children => ⟨parent, .branch head []⟩ :: rowsList position (position + 1) children

/-- The rows of a list of trees below one row, from a position on. -/
def rowsList (parent position : Nat) : List (Segment ι) → List (Row ι)
  | [] => []
  | child :: rest =>
    child.rows (some parent) position ++ rowsList parent (position + child.nodes.length) rest

end

/-- The rows are those of the nodes, in document order. -/
theorem map_node_rows (tree : Segment ι) (parent : Option Nat) (position : Nat) :
    (tree.rows parent position).map Row.node = tree.nodes.map alone := by
  induction tree generalizing parent position with
  | missing => rfl
  | leaf head => rfl
  | branch head children ih =>
    have hlist : ∀ position' : Nat,
        (rowsList position position' children).map Row.node = (nodesList children).map alone := by
      induction children with
      | nil => exact fun _ => rfl
      | cons child rest ihrest =>
        rcases List.forall_mem_cons.mp ih with ⟨hchild, hrest⟩
        intro position'
        rw [rowsList, nodesList, List.map_append, List.map_append, hchild, ihrest hrest]
    rw [rows, nodes, List.map_cons, List.map_cons, hlist]
    rfl

/-- A tree has as many rows as nodes. -/
@[simp] theorem length_rows (tree : Segment ι) (parent : Option Nat) (position : Nat) :
    (tree.rows parent position).length = tree.nodes.length := by
  have hlength := congrArg List.length (map_node_rows tree parent position)
  rwa [List.length_map, List.length_map] at hlength

/-- A tree whose first row stands further down has the same rows, and their parents stand as much
further down. -/
theorem map_pushed_rows {cut position : Nat} (h : cut ≤ position) (count : Nat)
    (tree : Segment ι) (parent : Option Nat) :
    (tree.rows parent position).map (Row.pushed cut count) =
      tree.rows (parent.map (pushed cut count)) (position + count) := by
  induction tree generalizing parent position with
  | missing => rfl
  | leaf head => rfl
  | branch head children ih =>
    have hlist : ∀ own position' : Nat, cut ≤ position' →
        (rowsList own position' children).map (Row.pushed cut count) =
          rowsList (pushed cut count own) (position' + count) children := by
      induction children with
      | nil => exact fun _ _ _ => rfl
      | cons child rest ihrest =>
        rcases List.forall_mem_cons.mp ih with ⟨hchild, hrest⟩
        intro own position' hposition
        rw [rowsList, rowsList, List.map_append, hchild hposition,
          ihrest hrest own _ (Nat.le_add_right_of_le hposition), Nat.add_right_comm]
        rfl
    have hown : pushed cut count position = position + count := if_neg (Nat.not_lt.mpr h)
    rw [rows, rows, List.map_cons, hlist _ _ (Nat.le_succ_of_le h), hown, Nat.add_right_comm]
    rfl

/-- The rows of a list of trees that stand further down below the same row. -/
theorem map_pushed_rowsList {cut position own : Nat} (h : cut ≤ position) (hown : own < cut)
    (count : Nat) (trees : List (Segment ι)) :
    (rowsList own position trees).map (Row.pushed cut count) =
      rowsList own (position + count) trees := by
  induction trees generalizing position with
  | nil => rfl
  | cons tree rest ih =>
    have hsame : pushed cut count own = own := if_pos hown
    rw [rowsList, rowsList, List.map_append, map_pushed_rows h,
      ih (Nat.le_add_right_of_le h), Nat.add_right_comm, Option.map_some, hsame]

/-! ## One block of rows -/

/-- Rows from a position on become others as the block of one tree is taken out of them.  The
rows after the block stay, with the parents that they had. -/
def CutsOut (node : Segment ι) (position : Nat) (before after : List (Row ι)) : Prop :=
  ∃ own first rest,
    before = first ++ node.rows (some own) (position + first.length) ++
      rest.map (.pushed (position + first.length) node.nodes.length) ∧
    after = first ++ rest

/-- A block is taken out of rows that stand after others. -/
theorem CutsOut.append_left {node : Segment ι} {position : Nat} {before after : List (Row ι)}
    (others : List (Row ι)) (h : CutsOut node (position + others.length) before after) :
    CutsOut node position (others ++ before) (others ++ after) := by
  rcases h with ⟨own, first, rest, rfl, rfl⟩
  refine ⟨own, others ++ first, rest, ?_, (List.append_assoc ..).symm⟩
  rw [List.length_append, ← Nat.add_assoc, List.append_assoc, List.append_assoc,
    List.append_assoc]

/-- A block is taken out of rows before those of a list of trees below an earlier row. -/
theorem CutsOut.append_rowsList {node : Segment ι} {own position : Nat} {before after : List (Row ι)}
    (h : CutsOut node position before after) (hown : own < position)
    (trees : List (Segment ι)) :
    CutsOut node position (before ++ rowsList own (position + before.length) trees)
      (after ++ rowsList own (position + after.length) trees) := by
  rcases h with ⟨parent, first, rest, rfl, rfl⟩
  refine ⟨parent, first, rest ++ rowsList own (position + (first ++ rest).length) trees, ?_,
    List.append_assoc ..⟩
  have hcut : position + first.length ≤ position + (first ++ rest).length := by simp
  rw [List.map_append, map_pushed_rowsList hcut (Nat.lt_add_right _ hown), ← List.append_assoc]
  congr 2
  simp only [List.length_append, List.length_map, length_rows]
  omega

/-- To take out a place in a list of trees is to take one block out of their rows, if it is so
below each tree. -/
theorem cutsOut_rowsList {trees : List (Segment ι)} {place : Place ι} {own position : Nat}
    (hown : own < position)
    (h : ∀ tree ∈ trees, ∀ place ∈ tree.places, ∀ position, CutsOut place.node position
      (tree.rows (some own) position) ((tree.eraseAt place).rows (some own) position))
    (hplace : place ∈ placesList trees) :
    CutsOut place.node position (rowsList own position trees)
      (rowsList own position (eraseFrom place.index place.above trees)) := by
  induction trees generalizing place position with
  | nil => cases hplace
  | cons tree rest ih =>
    rcases List.forall_mem_cons.mp h with ⟨htree, hrest⟩
    rw [placesList, List.mem_cons, List.mem_append, List.mem_map, List.mem_map] at hplace
    rcases hplace with rfl | ⟨below, hbelow, rfl⟩ | ⟨later, hlater, rfl⟩
    · refine ⟨own, [], rowsList own position rest, ?_, rfl⟩
      rw [List.length_nil, Nat.add_zero, map_pushed_rowsList (Nat.le_refl _) hown]
      rfl
    · rw [eraseFrom_inFirst, rowsList, rowsList]
      have hcut := (htree below hbelow position).append_rowsList hown rest
      rwa [length_rows, length_rows] at hcut
    · rw [eraseFrom_later, rowsList, rowsList, Place.node_later]
      refine CutsOut.append_left _ ?_
      rw [length_rows]
      exact ih (Nat.lt_add_right _ hown) hrest hlater

/-- To take out the segment at a place is to take one block out of the rows of the tree. -/
theorem rows_eraseAt {root : Segment ι} {place : Place ι} (hplace : place ∈ root.places)
    (parent : Option Nat) (position : Nat) :
    CutsOut place.node position (root.rows parent position)
      ((root.eraseAt place).rows parent position) := by
  induction root generalizing place parent position with
  | missing => cases hplace
  | leaf head => cases hplace
  | branch head children ih =>
    have hcut := cutsOut_rowsList (Nat.lt_succ_self position)
      (fun child hchild place hplace => ih child hchild hplace _) hplace
    exact hcut.append_left [⟨parent, .branch head []⟩]

/-! ## What is left -/

/-- The identifiers of some rows. -/
def rowIds (rows : List (Row ι)) : List ι :=
  rows.filterMap fun row => row.node.id?

/-- The identifiers of a tree are those of its rows. -/
theorem rowIds_rows (tree : Segment ι) (parent : Option Nat) (position : Nat) :
    rowIds (tree.rows parent position) = tree.ids := by
  have hnodes := congrArg (List.filterMap id?) (map_node_rows tree parent position)
  rw [List.filterMap_map, List.filterMap_map] at hnodes
  rw [rowIds, ids]
  exact hnodes.trans (congrArg (List.filterMap · tree.nodes) (funext id?_alone))

/-- No segment of a tree is missing if none is in its rows. -/
theorem isWhole_iff_rows {tree : Segment ι} :
    tree.isWhole = true ↔ ∀ row ∈ tree.rows none 0, row.node.isPresent = true := by
  have hnodes : ∀ node, node ∈ (tree.rows none 0).map Row.node ↔ node ∈ tree.nodes.map alone := by
    rw [map_node_rows]
    exact fun _ => Iff.rfl
  rw [isWhole, List.all_eq_true]
  constructor
  · intro h row hrow
    rcases List.mem_map.mp ((hnodes row.node).mp (List.mem_map_of_mem hrow)) with
      ⟨node, hnode, heq⟩
    rw [← heq, isPresent_alone]
    exact h node hnode
  · intro h node hnode
    rcases List.mem_map.mp ((hnodes node.alone).mpr (List.mem_map_of_mem hnode)) with
      ⟨row, hrow, heq⟩
    rw [← isPresent_alone, ← heq]
    exact h row hrow

section CutsOut

variable {root result node : Segment ι}
  (h : CutsOut node 0 (root.rows none 0) (result.rows none 0))

include h

/-- With a block of rows its identifiers are gone, and no others. -/
theorem CutsOut.exists_ids :
    ∃ before after, root.ids = before ++ node.ids ++ after ∧ result.ids = before ++ after := by
  rcases h with ⟨own, first, rest, hroot, hresult⟩
  refine ⟨rowIds first, rowIds rest, ?_, ?_⟩
  · rw [← rowIds_rows root none 0, hroot, rowIds, List.filterMap_append, List.filterMap_append,
      List.filterMap_map]
    congr 2
    exact rowIds_rows node _ _
  · rw [← rowIds_rows result none 0, hresult, rowIds, List.filterMap_append]
    rfl

/-- What is left of a tree is there if the tree is. -/
theorem CutsOut.isWhole (hwhole : root.isWhole = true) : result.isWhole = true := by
  rw [isWhole_iff_rows] at hwhole ⊢
  rcases h with ⟨own, first, rest, hroot, hresult⟩
  rw [hroot, List.forall_mem_append, List.forall_mem_append, List.forall_mem_map] at hwhole
  rw [hresult, List.forall_mem_append]
  exact ⟨hwhole.1.1, hwhole.2⟩

end CutsOut

section Search

variable [DecidableEq ι]

/-- An identifier of none of its segments is not found in a tree. -/
theorem find_eq_none {root : Segment ι} {id : ι} (hwhole : root.isWhole = true)
    (hid : id ∉ root.ids) : root.find id = .ok none := by
  have hlist : ∀ nodes : List (Segment ι), (∀ node ∈ nodes, node.isPresent = true) →
      id ∉ nodes.filterMap id? → findIn id nodes = .ok none := by
    intro nodes
    induction nodes with
    | nil => exact fun _ _ => rfl
    | cons node rest ih =>
      intro hpresent hid
      rcases List.forall_mem_cons.mp hpresent with ⟨hnode, hrest⟩
      rcases exists_id?_of_isPresent hnode with ⟨own, hown⟩
      rw [List.filterMap_cons_some hown, List.mem_cons, not_or] at hid
      simp only [findIn, hown, if_neg (Ne.symm hid.1)]
      exact ih hrest hid.2
  exact hlist root.nodes (List.all_eq_true.mp hwhole) hid

/-- A removal finds a segment exactly if one below the root has the identifier.  Then the block of
one such segment, with all that is below it, is taken out of the rows of the tree, and each other
row stays with its parent; else the tree is left as it is.  Where identifiers are distinct, none of
those that are taken out is found any more. -/
theorem remove_takesSubtree {root : Segment ι} (hwhole : root.isWhole = true) (id : ι) :
    ∃ result found, root.remove id = .ok (result, found) ∧
      (found = true ↔ ∃ node ∈ nodesList root.children, node.id? = some id) ∧
      (found = false → result = root) ∧
      (found = true → ∃ node ∈ nodesList root.children, node.id? = some id ∧
        CutsOut node 0 (root.rows none 0) (result.rows none 0) ∧
        (root.ids.Nodup → result.find id = .ok none ∧
          ∀ gone ∈ node.ids, result.find gone = .ok none)) := by
  have hremove : root.remove id = _ := remove_eq hwhole
  have hnodes : ∀ node, node ∈ nodesList root.children ↔ ∃ place ∈ root.places,
      place.node = node := by
    intro node
    rw [← map_node_places, List.mem_map]
  cases hfind : root.searched.find? (Place.has id) with
  | none =>
    rw [hfind] at hremove
    refine ⟨root, false, hremove, iff_of_false Bool.false_ne_true ?_, fun _ => rfl,
      fun h => absurd h Bool.false_ne_true⟩
    rintro ⟨node, hnode, hid⟩
    rcases (hnodes node).mp hnode with ⟨place, hplace, rfl⟩
    have hnone := List.find?_eq_none.mp hfind place ((perm_searched root).mem_iff.mpr hplace)
    exact hnone (decide_eq_true hid)
  | some place =>
    rw [hfind] at hremove
    have hplace : place ∈ root.places :=
      (perm_searched root).mem_iff.mp (List.mem_of_find?_eq_some hfind)
    have hnode : place.node ∈ nodesList root.children := (hnodes _).mpr ⟨place, hplace, rfl⟩
    have hid : place.node.id? = some id := by simpa [Place.has] using List.find?_some hfind
    have hcut := rows_eraseAt hplace none 0
    refine ⟨root.eraseAt place, true, hremove, iff_of_true rfl ⟨_, hnode, hid⟩,
      fun h => absurd h.symm Bool.false_ne_true,
      fun _ => ⟨_, hnode, hid, hcut, fun hdistinct => ?_⟩⟩
    rcases hcut.exists_ids with ⟨before, after, hids, hleft⟩
    rw [hids, List.nodup_append', List.nodup_append'] at hdistinct
    rcases hdistinct with ⟨⟨-, -, hbefore⟩, -, hafter⟩
    have hgone : ∀ gone ∈ place.node.ids, (root.eraseAt place).find gone = .ok none := by
      intro gone hgone
      refine find_eq_none (hcut.isWhole hwhole) fun hmem => ?_
      rw [hleft, List.mem_append] at hmem
      rcases hmem with hmem | hmem
      · exact hbefore hmem hgone
      · exact hafter (List.mem_append_right _ hgone) hmem
    exact ⟨hgone id (mem_ids (mem_nodes_self _) hid), hgone⟩

end Search

/-- A text, a span with a text and a preset that has a text below it, and another text. -/
def nestedTree : Segment NodeId :=
  .branch ⟨.named "root", .text (some []), none⟩
    [.text (.named "first") ['a'],
      .branch ⟨.named "span", .weighted (.valid .increase) (.valid 1), none⟩
        [.text (.named "inside") ['b'],
          .branch ⟨.named "tag", .preset ['k'] (.valid .random) none, none⟩
            [.text (.named "unseen") ['c']]],
      .branch ⟨.named "last", .text (some ['d']), none⟩ [.text (.named "end") ['e']]]

example : (nestedTree.rows none 0).map Row.parent =
    [none, some 0, some 0, some 2, some 2, some 4, some 0, some 6] := by decide

/-- A span is removed with the three segments below it. -/
theorem remove_takesSubtree_nestedTree :
    nestedTree.isWhole = true ∧ nestedTree.ids.Nodup ∧
      ∃ result found, nestedTree.remove (.named "span") = .ok (result, found) ∧
        (found = true ↔
          ∃ node ∈ nodesList nestedTree.children, node.id? = some (.named "span")) ∧
        (found = false → result = nestedTree) ∧
        (found = true → ∃ node ∈ nodesList nestedTree.children, node.id? = some (.named "span") ∧
          CutsOut node 0 (nestedTree.rows none 0) (result.rows none 0) ∧
          (nestedTree.ids.Nodup → result.find (.named "span") = .ok none ∧
            ∀ gone ∈ node.ids, result.find gone = .ok none)) :=
  ⟨by decide, by decide, remove_takesSubtree (by decide) _⟩

end Segment

end PromptMarkup
