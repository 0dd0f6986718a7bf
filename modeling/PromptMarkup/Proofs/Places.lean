import PromptMarkup.Proofs.TreeNodes

/-!
# Places in a tree

A place says where a segment stands in a tree: which child positions lead to its parent, and its
own position there.  So segments that are equal, or have one identifier, are told apart, and the
one that stands at a place can be taken out with all that is below it.

Main statements:

- {lit}`map_node_places`: the places below a segment are those of its nodes, in document order.
- {lit}`getElem?_treesAt`: at a place stands its node.
- {lit}`eraseAt_ne`: to take out the segments at two places gives two trees if the parent of one
  stands above the parent of the other.
-/

namespace PromptMarkup

namespace Segment

variable {ι : Type}

/-! ## Places -/

/-- Where a segment stands below another one. -/
structure Place (ι : Type) where
  /-- The child positions that lead to the parent of the segment. -/
  above : List Nat
  /-- The position of the segment among the children of its parent. -/
  index : Nat
  node : Segment ι
deriving DecidableEq

namespace Place

/-- A place below the first of a list of trees, as a place in the list. -/
def inFirst (place : Place ι) : Place ι :=
  ⟨0 :: place.above, place.index, place.node⟩

/-- A place in a list of trees, once another tree stands before them. -/
def later : Place ι → Place ι
  | ⟨[], index, node⟩ => ⟨[], index + 1, node⟩
  | ⟨position :: above, index, node⟩ => ⟨(position + 1) :: above, index, node⟩

/-- Whether the segment at a place has an identifier. -/
def has [DecidableEq ι] (id : ι) (place : Place ι) : Bool :=
  place.node.id? = some id

/-- The parent of one place stands above that of another one. -/
def Outranks (other place : Place ι) : Prop :=
  other.above <+: place.above ∧ other.above ≠ place.above

instance (other place : Place ι) : Decidable (other.Outranks place) :=
  inferInstanceAs (Decidable (_ ∧ _))

/-- A place is another one, or outranks it. -/
def IsOrOutranks (other place : Place ι) : Prop :=
  other = place ∨ other.Outranks place

@[simp] theorem node_inFirst (place : Place ι) : place.inFirst.node = place.node := rfl

@[simp] theorem node_later (place : Place ι) : place.later.node = place.node := by
  rcases place with ⟨_ | ⟨position, above⟩, index, node⟩ <;> rfl

theorem has_comp_inFirst [DecidableEq ι] (id : ι) : has id ∘ inFirst = has id := rfl

theorem has_comp_later [DecidableEq ι] (id : ι) : has id ∘ later = has id := by
  funext place
  simp [has]

/-- Nothing outranks the place of a child. -/
theorem not_outranks_of_above_eq_nil {other place : Place ι} (h : place.above = []) :
    ¬other.Outranks place := by
  rintro ⟨hleads, hne⟩
  rw [h, List.prefix_nil] at hleads
  exact hne (hleads.trans h.symm)

/-- The place of a child outranks all that are no places of children. -/
theorem outranks_of_above_eq_nil {other place : Place ι} (h : other.above = [])
    (hplace : place.above ≠ []) : other.Outranks place := by
  refine ⟨?_, ?_⟩
  · rw [h]
    exact List.nil_prefix
  · rw [h]
    exact hplace.symm

@[simp] theorem outranks_inFirst {other place : Place ι} :
    other.inFirst.Outranks place.inFirst ↔ other.Outranks place := by
  simp [Outranks, inFirst, List.cons_prefix_cons]

@[simp] theorem outranks_later {other place : Place ι} :
    other.later.Outranks place.later ↔ other.Outranks place := by
  rcases other with ⟨_ | ⟨position, above⟩, index, node⟩ <;>
    rcases place with ⟨_ | ⟨position', above'⟩, index', node'⟩ <;>
    simp [Outranks, later, List.cons_prefix_cons]

/-- A place is another one or outranks it, also below a first tree. -/
theorem IsOrOutranks.inFirst {other place : Place ι} (h : other.IsOrOutranks place) :
    other.inFirst.IsOrOutranks place.inFirst :=
  h.imp (congrArg _) outranks_inFirst.mpr

/-- A place is another one or outranks it, also once another tree stands before both. -/
theorem IsOrOutranks.later {other place : Place ι} (h : other.IsOrOutranks place) :
    other.later.IsOrOutranks place.later :=
  h.imp (congrArg _) outranks_later.mpr

/-- A place below a first tree does not outrank one in the other trees. -/
theorem not_outranks_inFirst_later (other place : Place ι) :
    ¬other.inFirst.Outranks place.later := by
  rcases place with ⟨_ | ⟨position, above⟩, index, node⟩ <;> simp [Outranks, inFirst, later]

/-- A place below one of the other trees does not outrank one below a first tree. -/
theorem not_outranks_later_inFirst {other : Place ι} (h : other.above ≠ []) (place : Place ι) :
    ¬other.later.Outranks place.inFirst := by
  rcases other with ⟨_ | ⟨position, above⟩, index, node⟩
  · exact absurd rfl h
  · simp [Outranks, inFirst, later]

@[simp] theorem above_later_eq_nil {place : Place ι} : place.later.above = [] ↔ place.above = [] := by
  rcases place with ⟨_ | ⟨position, above⟩, index, node⟩ <;> simp [later]

end Place

mutual

/-- The places below a segment, in document order. -/
def places : Segment ι → List (Place ι)
  | .missing => []
  | .leaf _ => []
  | .branch _ children => placesList children

/-- The places of a list of trees and below them, in document order. -/
def placesList : List (Segment ι) → List (Place ι)
  | [] => []
  | child :: rest =>
    ⟨[], 0, child⟩ :: (child.places.map .inFirst ++ (placesList rest).map .later)

end

/-- The places below a segment are those of its nodes, in document order. -/
theorem map_node_places (root : Segment ι) :
    root.places.map Place.node = nodesList root.children := by
  induction root with
  | missing => rfl
  | leaf head => rfl
  | branch head children ih =>
    rw [places, Segment.children]
    induction children with
    | nil => rfl
    | cons child rest ihrest =>
      rcases List.forall_mem_cons.mp ih with ⟨hchild, hrest⟩
      have hnodes : child.nodes = child :: nodesList child.children := by
        cases child <;> rfl
      simp only [placesList, nodesList, List.map_cons, List.map_append, List.map_map,
        Function.comp_def, Place.node_inFirst, Place.node_later, hnodes, List.cons_append]
      rw [hchild, ihrest hrest]

/-! ## Taking out a place -/

/-- Change the list of children of a segment that has one. -/
def mapChildren (f : List (Segment ι) → List (Segment ι)) : Segment ι → Segment ι
  | .missing => .missing
  | .leaf head => .leaf head
  | .branch head children => .branch head (f children)

/-- Take out of a list of trees the one at a position below those that positions lead to. -/
def eraseFrom (index : Nat) : List Nat → List (Segment ι) → List (Segment ι)
  | [], trees => trees.eraseIdx index
  | position :: above, trees => trees.modify position (mapChildren (eraseFrom index above))

/-- Take out the segment at a place, with all that is below it. -/
def eraseAt (root : Segment ι) (place : Place ι) : Segment ι :=
  root.mapChildren (eraseFrom place.index place.above)

/-- To take out a place below the first tree leaves the other trees as they are. -/
theorem eraseFrom_inFirst (tree : Segment ι) (rest : List (Segment ι)) (place : Place ι) :
    eraseFrom place.inFirst.index place.inFirst.above (tree :: rest) =
      tree.eraseAt place :: rest := rfl

/-- To take out a later place leaves the first tree as it is. -/
theorem eraseFrom_later (tree : Segment ι) (rest : List (Segment ι)) (place : Place ι) :
    eraseFrom place.later.index place.later.above (tree :: rest) =
      tree :: eraseFrom place.index place.above rest := by
  rcases place with ⟨_ | ⟨position, above⟩, index, node⟩ <;> rfl

/-- The trees among which positions lead to one: those of the list, or the children of the tree
that the positions lead to. -/
def treesAt : List Nat → List (Segment ι) → List (Segment ι)
  | [], trees => trees
  | position :: above, trees =>
    match trees[position]? with
    | none => []
    | some tree => treesAt above tree.children

@[simp] theorem treesAt_nil (above : List Nat) : treesAt above ([] : List (Segment ι)) = [] := by
  cases above <;> rfl

/-- At a place in a list of trees stands its node. -/
theorem getElem?_treesAt {trees : List (Segment ι)} {place : Place ι}
    (h : place ∈ placesList trees) :
    (treesAt place.above trees)[place.index]? = some place.node := by
  have hlist : ∀ trees : List (Segment ι),
      (∀ tree ∈ trees, ∀ place ∈ tree.places,
        (treesAt place.above tree.children)[place.index]? = some place.node) →
      ∀ place ∈ placesList trees, (treesAt place.above trees)[place.index]? = some place.node := by
    intro trees hbelow
    induction trees with
    | nil => exact List.forall_mem_nil _
    | cons tree rest ih =>
      rcases List.forall_mem_cons.mp hbelow with ⟨htree, hrest⟩
      rw [placesList, List.forall_mem_cons, List.forall_mem_append, List.forall_mem_map,
        List.forall_mem_map]
      refine ⟨rfl, htree, fun place hplace => ?_⟩
      rw [Place.node_later, ← ih hrest place hplace]
      rcases place with ⟨_ | ⟨position, above⟩, index, node⟩ <;> rfl
  have hroot : ∀ root : Segment ι, ∀ place ∈ root.places,
      (treesAt place.above root.children)[place.index]? = some place.node := by
    intro root
    induction root with
    | missing => exact List.forall_mem_nil _
    | leaf head => exact List.forall_mem_nil _
    | branch head children ih => exact hlist children ih
  exact hlist trees (fun tree _ => hroot tree) place h

/-- To take out trees at two places gives two results if the parent of one stands above the
parent of the other, for only the first of them loses a child. -/
theorem eraseFrom_ne {index other : Nat} {above below : List Nat} {trees : List (Segment ι)}
    (hindex : index < (treesAt above trees).length) (hleads : above <+: below)
    (hne : above ≠ below) : eraseFrom index above trees ≠ eraseFrom other below trees := by
  induction above generalizing below trees with
  | nil =>
    rcases below with _ | ⟨position, below⟩
    · exact absurd rfl hne
    · intro heq
      have hlength := congrArg List.length heq
      rw [treesAt] at hindex
      rw [eraseFrom, eraseFrom, List.length_modify, List.length_eraseIdx_of_lt hindex] at hlength
      omega
  | cons position above ih =>
    rcases hleads with ⟨rest, rfl⟩
    intro heq
    rw [treesAt] at hindex
    cases htree : trees[position]? with
    | none =>
      rw [htree] at hindex
      cases hindex
    | some tree =>
      rw [htree] at hindex
      have hsame := congrArg (·[position]?) heq
      simp only [List.cons_append, eraseFrom, List.getElem?_modify_eq, htree] at hsame
      have hrest : above ≠ above ++ rest := fun h => hne (congrArg (position :: ·) h)
      cases tree with
      | missing => simp [Segment.children] at hindex
      | leaf head => simp [Segment.children] at hindex
      | branch head children =>
        injection hsame with hsame
        injection hsame with _ hchildren
        exact ih hindex (List.prefix_append _ _) hrest hchildren

/-- To take out the segments at two places gives two trees if one place outranks the other. -/
theorem eraseAt_ne {root : Segment ι} {other place : Place ι} (hother : other ∈ root.places)
    (h : other.Outranks place) : root.eraseAt other ≠ root.eraseAt place := by
  cases root with
  | missing => cases hother
  | leaf head => cases hother
  | branch head children =>
    have hindex := (List.getElem?_eq_some_iff.mp (getElem?_treesAt hother)).1
    intro heq
    injection heq with _ hchildren
    exact eraseFrom_ne hindex h.1 h.2 hchildren

end Segment

end PromptMarkup
