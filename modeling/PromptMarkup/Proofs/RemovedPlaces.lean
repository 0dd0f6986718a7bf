import PromptMarkup.Proofs.Places
import PromptMarkup.Segment.Create
import PromptMarkup.Segment.Edit

/-!
# The place of a removed segment

Several segments of a tree may have one identifier, and a removal takes one of them.  It looks at
all children of a segment before it looks below any of them, so the segment that it takes is the
first of its identifier in that order, and not always the first in document order: it passes that
one over for a sibling of a segment above it.

Main statements:

- {lit}`remove_eq`: a removal takes out the first place in the order of its search.
- {lit}`exists_find?_searched`: the first place in that order is the first in document order, or
  has its parent above the parent of that one.
- {lit}`remove_takesFirstSearched`: what a removal takes out, and when that is the first in
  document order.
-/

namespace PromptMarkup

namespace Segment

variable {ι : Type}

/-! ## The order of a search -/

/-- The places of a list of trees themselves. -/
def childPlaces : List (Segment ι) → List (Place ι)
  | [] => []
  | child :: rest => ⟨[], 0, child⟩ :: (childPlaces rest).map .later

mutual

/-- The places below a segment in the order of a removal's search: those of all its children
come first, then what is below the children in turn. -/
def searched : Segment ι → List (Place ι)
  | .missing => []
  | .leaf _ => []
  | .branch _ children => childPlaces children ++ searchedList children

/-- The places below the trees of a list, below one tree after the other. -/
def searchedList : List (Segment ι) → List (Place ι)
  | [] => []
  | child :: rest => child.searched.map .inFirst ++ (searchedList rest).map .later

end

/-- A search looks at the places below a segment in another order. -/
theorem perm_searched (root : Segment ι) : root.searched.Perm root.places := by
  induction root with
  | missing => exact .nil
  | leaf head => exact .nil
  | branch head children ih =>
    rw [searched, places]
    induction children with
    | nil => exact .nil
    | cons child rest ihrest =>
      rcases List.forall_mem_cons.mp ih with ⟨hchild, hrest⟩
      have hlater := (ihrest hrest).map Place.later
      rw [List.map_append] at hlater
      rw [childPlaces, searchedList, placesList, List.cons_append]
      exact .cons _ ((List.perm_append_comm_assoc _ _ _).trans ((hchild.map _).append hlater))

/-- A list of trees stands at the places of its children that are in the list. -/
theorem above_of_mem_childPlaces {trees : List (Segment ι)} :
    ∀ place ∈ childPlaces trees, place.above = [] := by
  induction trees with
  | nil => exact List.forall_mem_nil _
  | cons tree rest ih =>
    refine List.forall_mem_cons.mpr ⟨rfl, ?_⟩
    rw [List.forall_mem_map]
    exact fun place hplace => Place.above_later_eq_nil.mpr (ih place hplace)

/-- A place in a list of trees that is below none of them is that of a tree of the list. -/
theorem mem_childPlaces {trees : List (Segment ι)} {place : Place ι}
    (hplace : place ∈ placesList trees) (habove : place.above = []) :
    place ∈ childPlaces trees := by
  induction trees generalizing place with
  | nil => cases hplace
  | cons tree rest ih =>
    rw [placesList, List.mem_cons, List.mem_append, List.mem_map, List.mem_map] at hplace
    rcases hplace with rfl | ⟨below, -, rfl⟩ | ⟨later, hlater, rfl⟩
    · exact List.mem_cons_self
    · cases habove
    · exact List.mem_cons_of_mem _
        (List.mem_map_of_mem (ih hlater (Place.above_later_eq_nil.mp habove)))

/-- The outcome of taking out the segment at a place, if there is a place. -/
def takeOut (root : Segment ι) : Option (Place ι) → Segment ι × Bool
  | none => (root, false)
  | some place => (root.eraseAt place, true)

section Search

variable [DecidableEq ι] {id : ι}

/-! ## The search of a removal -/

/-- The first tree of a list with an identifier is the tree before the others if it has it. -/
theorem find?_childPlaces_cons (tree : Segment ι) (rest : List (Segment ι)) :
    (childPlaces (tree :: rest)).find? (Place.has id) =
      if tree.id? = some id then some ⟨[], 0, tree⟩
      else ((childPlaces rest).find? (Place.has id)).map Place.later := by
  rw [childPlaces, List.find?_cons, List.find?_map, Place.has_comp_later]
  by_cases h : tree.id? = some id <;> simp [Place.has, h]

/-- No tree of a list has an identifier if the first has another one and no other has it. -/
theorem find?_childPlaces_cons_eq_none {tree : Segment ι} {rest : List (Segment ι)} :
    (childPlaces (tree :: rest)).find? (Place.has id) = none ↔
      tree.id? ≠ some id ∧ (childPlaces rest).find? (Place.has id) = none := by
  rw [find?_childPlaces_cons]
  by_cases h : tree.id? = some id <;> simp [h]

/-- A search finds nothing exactly if there is nothing in document order. -/
theorem find?_searched_eq_none {root : Segment ι} :
    root.searched.find? (Place.has id) = none ↔ root.places.find? (Place.has id) = none := by
  rw [List.find?_eq_none, List.find?_eq_none]
  exact forall_congr' fun place => imp_congr_left (perm_searched root).mem_iff

/-- The first place below a list of trees is one below the first tree, if there is one. -/
theorem find?_searchedList_cons (tree : Segment ι) (rest : List (Segment ι)) :
    (searchedList (tree :: rest)).find? (Place.has id) =
      ((tree.searched.find? (Place.has id)).map Place.inFirst).or
        (((searchedList rest).find? (Place.has id)).map Place.later) := by
  rw [searchedList, List.find?_append, List.find?_map, List.find?_map, Place.has_comp_inFirst,
    Place.has_comp_later]

/-- The first place in document order is that of the first tree, else one below it, else one in
the rest. -/
theorem find?_placesList_cons (tree : Segment ι) (rest : List (Segment ι)) :
    (placesList (tree :: rest)).find? (Place.has id) =
      if tree.id? = some id then some ⟨[], 0, tree⟩
      else ((tree.places.find? (Place.has id)).map Place.inFirst).or
        (((placesList rest).find? (Place.has id)).map Place.later) := by
  rw [placesList, List.find?_cons, List.find?_append, List.find?_map, List.find?_map,
    Place.has_comp_inFirst, Place.has_comp_later]
  by_cases h : tree.id? = some id <;> simp [Place.has, h]

/-- The removal of a tree from a list takes out the first one with the identifier. -/
theorem removeDirect_eq {trees : List (Segment ι)}
    (h : ∀ tree ∈ trees, tree.isPresent = true) :
    removeDirect id trees = .ok (((childPlaces trees).find? (Place.has id)).map fun place =>
      eraseFrom place.index place.above trees) := by
  induction trees with
  | nil => rfl
  | cons tree rest ih =>
    rcases List.forall_mem_cons.mp h with ⟨htree, hrest⟩
    rcases exists_id?_of_isPresent htree with ⟨own, hown⟩
    rw [removeDirect, hown, find?_childPlaces_cons, hown, ih hrest]
    by_cases hid : own = id
    · simp [hid, eraseFrom]
    · simp [hid, Except.map, eraseFrom_later, Function.comp_def]

/-- The removal below a list of trees takes out the first place that a search below one tree
after the other comes to, if the removal below each tree does. -/
theorem removeBelowList_eq {trees : List (Segment ι)}
    (h : ∀ tree ∈ trees,
      removeBelow id tree = .ok ((tree.searched.find? (Place.has id)).map tree.eraseAt)) :
    removeBelowList id trees = .ok (((searchedList trees).find? (Place.has id)).map fun place =>
      eraseFrom place.index place.above trees) := by
  induction trees with
  | nil => rfl
  | cons tree rest ih =>
    rcases List.forall_mem_cons.mp h with ⟨htree, hrest⟩
    rw [removeBelowList, htree, find?_searchedList_cons, ih hrest]
    cases hfound : tree.searched.find? (Place.has id) with
    | none => simp [Except.map, eraseFrom_later, Function.comp_def]
    | some place => simp [eraseFrom_inFirst]

/-- A removal takes out the first place with the identifier in the order of its search. -/
theorem removeBelow_eq {root : Segment ι} (hwhole : root.isWhole = true) :
    removeBelow id root = .ok ((root.searched.find? (Place.has id)).map root.eraseAt) := by
  induction root with
  | missing => cases hwhole
  | leaf head => rfl
  | branch head children ih =>
    have hbelow : ∀ child ∈ children, child.isWhole = true := fun child hchild =>
      isWhole_of_mem_nodes hwhole (mem_nodes_of_mem_children (mem_nodes_self _) hchild)
    have hpresent : ∀ child ∈ children, child.isPresent = true := fun child hchild =>
      isPresent_of_mem_nodes (hbelow child hchild) (mem_nodes_self child)
    rw [removeBelow, removeDirect_eq hpresent, searched, List.find?_append,
      removeBelowList_eq fun child hchild => ih child hchild (hbelow child hchild)]
    cases (childPlaces children).find? (Place.has id) with
    | none =>
      simp only [Except.map, Option.map_none, Option.none_or, Option.map_map]
      rfl
    | some place => rfl

/-- A removal takes out the first place with the identifier in the order of its search, and says
whether there was one. -/
theorem remove_eq {root : Segment ι} (hwhole : root.isWhole = true) :
    root.remove id = .ok (root.takeOut (root.searched.find? (Place.has id))) := by
  rw [remove, removeBelow_eq hwhole]
  cases root.searched.find? (Place.has id) <;> rfl

/-! ## The order of the search -/

/-- Where a tree of a list has the identifier, it is the first in document order, or outranks
that. -/
theorem exists_find?_placesList {trees : List (Segment ι)} {found : Place ι}
    (h : (childPlaces trees).find? (Place.has id) = some found) :
    ∃ first, (placesList trees).find? (Place.has id) = some first ∧
      found.IsOrOutranks first := by
  induction trees generalizing found with
  | nil => cases h
  | cons tree rest ih =>
    rw [find?_placesList_cons]
    rw [find?_childPlaces_cons] at h
    by_cases htree : tree.id? = some id
    · rw [if_pos htree] at h ⊢
      exact ⟨found, h, Or.inl rfl⟩
    · rw [if_neg htree] at h ⊢
      rcases Option.map_eq_some_iff.mp h with ⟨later, hlater, rfl⟩
      cases hbelow : tree.places.find? (Place.has id) with
      | some below =>
        refine ⟨below.inFirst, rfl, Or.inr (Place.outranks_of_above_eq_nil ?_ nofun)⟩
        rw [Place.above_later_eq_nil]
        exact above_of_mem_childPlaces _ (List.mem_of_find?_eq_some hlater)
      | none =>
        rcases ih hlater with ⟨first, hfirst, horder⟩
        exact ⟨first.later, by rw [hfirst]; rfl, horder.later⟩

/-- Where no tree of a list has the identifier, the first place below the trees in the order of
the search is the first in document order, or outranks that, if it is so below each tree. -/
theorem exists_find?_searchedList {trees : List (Segment ι)} {first : Place ι}
    (hnone : (childPlaces trees).find? (Place.has id) = none)
    (h : ∀ tree ∈ trees, ∀ first, tree.places.find? (Place.has id) = some first →
      ∃ found, tree.searched.find? (Place.has id) = some found ∧ found.IsOrOutranks first)
    (hfirst : (placesList trees).find? (Place.has id) = some first) :
    ∃ found, (searchedList trees).find? (Place.has id) = some found ∧
      found.IsOrOutranks first := by
  induction trees generalizing first with
  | nil => cases hfirst
  | cons tree rest ih =>
    rcases List.forall_mem_cons.mp h with ⟨htree, hrest⟩
    rcases find?_childPlaces_cons_eq_none.mp hnone with ⟨hother, hnone⟩
    rw [find?_placesList_cons, if_neg hother] at hfirst
    rw [find?_searchedList_cons]
    cases hbelow : tree.places.find? (Place.has id) with
    | some below =>
      rw [hbelow] at hfirst
      cases hfirst
      rcases htree below hbelow with ⟨found, hfound, horder⟩
      exact ⟨found.inFirst, by rw [hfound]; rfl, horder.inFirst⟩
    | none =>
      rw [hbelow] at hfirst
      rcases Option.map_eq_some_iff.mp hfirst with ⟨later, hlater, rfl⟩
      rcases ih hnone hrest hlater with ⟨found, hfound, horder⟩
      rw [← find?_searched_eq_none] at hbelow
      exact ⟨found.later, by rw [hbelow, hfound]; rfl, horder.later⟩

/-- The first place in the order of the search is the first in document order, or outranks
that. -/
theorem exists_find?_searched {root : Segment ι} {first : Place ι}
    (h : root.places.find? (Place.has id) = some first) :
    ∃ found, root.searched.find? (Place.has id) = some found ∧ found.IsOrOutranks first := by
  induction root generalizing first with
  | missing => cases h
  | leaf head => cases h
  | branch head children ih =>
    rw [places] at h
    rw [searched, List.find?_append]
    cases hdirect : (childPlaces children).find? (Place.has id) with
    | some found =>
      rcases exists_find?_placesList hdirect with ⟨other, hother, horder⟩
      rw [hother] at h
      cases h
      exact ⟨found, rfl, horder⟩
    | none =>
      rw [Option.none_or]
      exact exists_find?_searchedList hdirect (fun child hchild first => ih child hchild) h

/-- Nothing with the identifier outranks the first place below the trees of a list in the order
of the search, if no tree of the list has it and it is so below each tree. -/
theorem not_outranks_find?_searchedList {trees : List (Segment ι)} {found other : Place ι}
    (hnone : (childPlaces trees).find? (Place.has id) = none)
    (h : ∀ tree ∈ trees, ∀ found other, tree.searched.find? (Place.has id) = some found →
      other ∈ tree.places → other.has id = true → ¬other.Outranks found)
    (hfound : (searchedList trees).find? (Place.has id) = some found)
    (hother : other ∈ placesList trees) (hid : other.has id = true) : ¬other.Outranks found := by
  -- All places with the identifier are below one of the trees.
  have habove : other.above ≠ [] := fun habove =>
    List.find?_eq_none.mp hnone other (mem_childPlaces hother habove) hid
  induction trees generalizing found other with
  | nil => cases hother
  | cons tree rest ih =>
    rcases List.forall_mem_cons.mp h with ⟨htree, hrest⟩
    rcases find?_childPlaces_cons_eq_none.mp hnone with ⟨-, hnone⟩
    rw [find?_searchedList_cons, Option.or_eq_some_iff, Option.map_eq_some_iff,
      Option.map_eq_some_iff] at hfound
    rw [placesList, List.mem_cons, List.mem_append, List.mem_map, List.mem_map] at hother
    rcases hother with rfl | ⟨below, hmem, rfl⟩ | ⟨later, hmem, rfl⟩
    · exact absurd rfl habove
    · rcases hfound with ⟨place, hplace, rfl⟩ | ⟨-, place, hplace, rfl⟩
      · rw [Place.outranks_inFirst]
        exact htree place below hplace hmem hid
      · exact Place.not_outranks_inFirst_later below place
    · have hlater : later.above ≠ [] := fun h => habove (Place.above_later_eq_nil.mpr h)
      rcases hfound with ⟨place, hplace, rfl⟩ | ⟨-, place, hplace, rfl⟩
      · exact Place.not_outranks_later_inFirst hlater place
      · rw [Place.outranks_later]
        rw [Place.has, Place.node_later] at hid
        exact ih hnone hrest hplace hmem hid hlater

/-- Nothing with the identifier outranks the first place in the order of the search. -/
theorem not_outranks_find?_searched {root : Segment ι} {found other : Place ι}
    (h : root.searched.find? (Place.has id) = some found) (hother : other ∈ root.places)
    (hid : other.has id = true) : ¬other.Outranks found := by
  induction root generalizing found other with
  | missing => cases hother
  | leaf head => cases hother
  | branch head children ih =>
    rw [searched, List.find?_append] at h
    cases hdirect : (childPlaces children).find? (Place.has id) with
    | some direct =>
      rw [hdirect] at h
      cases h
      exact Place.not_outranks_of_above_eq_nil
        (above_of_mem_childPlaces _ (List.mem_of_find?_eq_some hdirect))
    | none =>
      rw [hdirect, Option.none_or] at h
      exact not_outranks_find?_searchedList hdirect
        (fun child hchild found other => ih child hchild) h hother hid

/-- A removal takes out the first segment with the identifier in the order of its search: among
the children of a segment before it looks below them.  That is the first one in document order
exactly if no segment with the identifier outranks that one, that is, if none stands beside a
segment above it. -/
theorem remove_takesFirstSearched {root : Segment ι} (hwhole : root.isWhole = true) (id : ι) :
    root.remove id = .ok (root.takeOut (root.searched.find? (Place.has id))) ∧
      (root.remove id = .ok (root.takeOut (root.places.find? (Place.has id))) ↔
        ∀ first, root.places.find? (Place.has id) = some first →
          ∀ other ∈ root.places, other.has id = true → ¬other.Outranks first) := by
  have hremove : root.remove id = _ := remove_eq hwhole
  refine ⟨hremove, ?_⟩
  rw [hremove, Except.ok.injEq]
  cases hplaces : root.places.find? (Place.has id) with
  | none =>
    rw [find?_searched_eq_none.mpr hplaces]
    exact iff_of_true rfl nofun
  | some first =>
    rcases exists_find?_searched hplaces with ⟨found, hfound, horder⟩
    rw [hfound]
    have hmem := (perm_searched root).mem_iff.mp (List.mem_of_find?_eq_some hfound)
    constructor
    · intro hsame _ heq other hother hid
      cases heq
      rcases horder with rfl | horder
      · exact not_outranks_find?_searched hfound hother hid
      · exact absurd (Prod.mk.inj hsame).1 (eraseAt_ne hmem horder)
    · intro hnone
      rcases horder with rfl | horder
      · rfl
      · exact absurd horder (hnone first rfl found hmem (List.find?_some hfound))

end Search

/-- A text in a span, and a text of the same identifier beside the span. -/
def twinTree : Segment NodeId :=
  .branch ⟨.named "root", .text (some []), none⟩
    [.branch ⟨.named "span", .weighted (.valid .increase) (.valid 1), none⟩
        [.text (.named "twin") ['a'], .text (.named "other") ['b']],
      .text (.named "twin") ['c']]

/-- What is removed of a tree in which an identifier stands twice. -/
theorem remove_takesFirstSearched_twinTree :
    twinTree.isWhole = true ∧
      twinTree.remove (.named "twin") =
        .ok (twinTree.takeOut (twinTree.searched.find? (Place.has (.named "twin")))) ∧
      (twinTree.remove (.named "twin") =
          .ok (twinTree.takeOut (twinTree.places.find? (Place.has (.named "twin")))) ↔
        ∀ first, twinTree.places.find? (Place.has (.named "twin")) = some first →
          ∀ other ∈ twinTree.places, other.has (.named "twin") = true → ¬other.Outranks first) :=
  ⟨by decide, remove_takesFirstSearched (by decide) _⟩

/-- The text beside the span is removed, and not the one in the span, which is the first in
document order. -/
theorem remove_passesOverFirst :
    twinTree.isWhole = true ∧
      twinTree.places.find? (Place.has (.named "twin")) =
        some ⟨[0], 0, .text (.named "twin") ['a']⟩ ∧
      twinTree.remove (.named "twin") =
        .ok (twinTree.eraseAt ⟨[], 1, .text (.named "twin") ['c']⟩, true) ∧
      twinTree.remove (.named "twin") ≠
        .ok (twinTree.takeOut (twinTree.places.find? (Place.has (.named "twin")))) := by
  have hfirst : twinTree.places.find? (Place.has (.named "twin")) =
      some ⟨[0], 0, .text (.named "twin") ['a']⟩ := by decide
  refine ⟨by decide, hfirst, rfl, fun hsame => ?_⟩
  rw [hfirst] at hsame
  injection hsame with hsame
  have hplace : (⟨[], 1, .text (.named "twin") ['c']⟩ : Place NodeId) ∈ twinTree.places := by
    decide
  exact eraseAt_ne hplace (by decide) (Prod.mk.inj hsame).1

end Segment

end PromptMarkup
