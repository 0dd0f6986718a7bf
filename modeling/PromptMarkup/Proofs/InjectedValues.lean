import Mathlib.Data.List.Forall2
import PromptMarkup.Library.Presets
import PromptMarkup.Proofs.MapKeys
import PromptMarkup.Proofs.TreeNodes
import PromptMarkup.Render.Compile
import PromptMarkup.Segment.Create

/-!
# Values injected into a tree

A library is injected node by node, but what is stored in a preset depends on its own fields only,
and not on its children.  So injecting is a change of every head of the tree in its place, and two
such changes, one after the other, are one change.  The values that are stored are not written in a
text without choices, whose text therefore stays.

Main statements:

- {lit}`Segment.inject_eq_mapHeads`: injecting changes the heads of a tree, each by itself.
- {lit}`Head.fill_fill`: two libraries fill a head as the first overridden by the second does.
- {lit}`Segment.render_mapHeads`: heads that keep their kinds are written as before.
- {lit}`Segment.checkedInject_fills`: what injecting changes, and what it leaves.
-/

namespace PromptMarkup

/-! ## Lists of values -/

/-- The library that gives a list of values to each of its names. -/
def Library.ofLists (lists : Assoc Text (List Text)) : Library :=
  lists.map fun (name, values) => (name, some values)

/-- A name has the list of values that it is given, and nothing if it is given none. -/
theorem Library.get?_ofLists (lists : Assoc Text (List Text)) (name : Text) :
    (Library.ofLists lists).get? name = (lists.get? name).map some := by
  induction lists with
  | nil => rfl
  | cons entry rest ih =>
    by_cases hname : entry.1 = name
    · simp [ofLists, Assoc.get?, hname]
    · simpa [ofLists, Assoc.get?, hname] using ih

/-- The values that own fields are given: those of a preset, by its name in lower case. -/
def Kind.listed? (lists : Assoc Text (List Text)) : Kind → Option (List Text)
  | .preset name _ _ => lists.get? (lower name)
  | _ => none

/-- Own fields are given values if they are those of a preset whose name is. -/
theorem Kind.listed?_eq_some_iff {lists : Assoc Text (List Text)} {kind : Kind}
    {values : List Text} :
    kind.listed? lists = some values ↔
      ∃ name mode selected, kind = .preset name mode selected ∧
        lists.get? (lower name) = some values := by
  cases kind with
  | preset name mode selected =>
    constructor
    · exact fun h => ⟨name, mode, selected, rfl, h⟩
    · rintro ⟨_, _, _, ⟨⟩, h⟩
      exact h
  | _ => exact iff_of_false nofun nofun

/-! ## Heads -/

namespace Head

variable {ι : Type}

/-- A head with the values that it is given. -/
def fill (lists : Assoc Text (List Text)) (head : Head ι) : Head ι :=
  match head.kind.listed? lists with
  | some values => Segment.storeValues head values
  | none => head

/-- A head that is given values has them stored. -/
theorem fill_of_listed {lists : Assoc Text (List Text)} {head : Head ι} {values : List Text}
    (h : head.kind.listed? lists = some values) :
    head.fill lists = Segment.storeValues head values := by
  rw [fill, h]

/-- A head that is given no values stays as it is. -/
theorem fill_of_not_listed {lists : Assoc Text (List Text)} {head : Head ι}
    (h : head.kind.listed? lists = none) : head.fill lists = head := by
  rw [fill, h]

/-- The identifier stays. -/
@[simp] theorem id_fill (lists : Assoc Text (List Text)) (head : Head ι) :
    (head.fill lists).id = head.id := by
  unfold fill
  split <;> rfl

/-- The own fields stay. -/
@[simp] theorem kind_fill (lists : Assoc Text (List Text)) (head : Head ι) :
    (head.fill lists).kind = head.kind := by
  unfold fill
  split <;> rfl

/-- Of the values that are stored one after the other the later count. -/
theorem storeValues_storeValues (head : Head ι) (first second : List Text) :
    Segment.storeValues (Segment.storeValues head first) second =
      Segment.storeValues head second := by
  simp only [Segment.storeValues, Option.getD_some, Assoc.set_set]

/-- Heads are filled from two lists of values as from the first overridden by the second. -/
theorem fill_fill {first second joint : Assoc Text (List Text)}
    (hjoint : ∀ name, joint.get? name = (second.get? name).or (first.get? name))
    (head : Head ι) : (head.fill first).fill second = head.fill joint := by
  have hlisted : head.kind.listed? joint =
      (head.kind.listed? second).or (head.kind.listed? first) := by
    cases head.kind with
    | preset name mode selected => exact hjoint (lower name)
    | _ => rfl
  cases hsecond : head.kind.listed? second with
  | none =>
    rw [hsecond, Option.none_or] at hlisted
    rw [fill_of_not_listed ((kind_fill first head).symm ▸ hsecond), fill, fill, hlisted]
  | some values =>
    rw [hsecond, Option.some_or] at hlisted
    rw [fill_of_listed ((kind_fill first head).symm ▸ hsecond), fill_of_listed hlisted]
    cases hfirst : head.kind.listed? first with
    | none => rw [fill_of_not_listed hfirst]
    | some old => rw [fill_of_listed hfirst, storeValues_storeValues]

/-- What filling in lists of values does to a head.  Its identifier and its own fields stay.  A
preset whose name in lower case is given values has them in its metadata, where every other key
keeps what it has; no metadata count as empty ones.  The metadata of every other head stay. -/
structure FilledBy (lists : Assoc Text (List Text)) (head other : Head ι) : Prop where
  id : other.id = head.id
  kind : other.kind = head.kind
  stored : ∀ name mode selected values, head.kind = .preset name mode selected →
    lists.get? (lower name) = some values →
    ∃ metadata, other.metadata = some metadata ∧
      metadata.get? "values" = some (.list (values.map .str)) ∧
      ∀ key, key ≠ "values" → metadata.get? key = (head.metadata.getD []).get? key
  kept : (∀ name mode selected, head.kind = .preset name mode selected →
    lower name ∉ lists.keys) → other.metadata = head.metadata

/-- A head is filled with the values that it is given. -/
theorem filledBy_fill (lists : Assoc Text (List Text)) (head : Head ι) :
    head.FilledBy lists (head.fill lists) where
  id := id_fill lists head
  kind := kind_fill lists head
  stored name mode selected values hkind hvalues := by
    have hlisted : head.kind.listed? lists = some values :=
      Kind.listed?_eq_some_iff.mpr ⟨name, mode, selected, hkind, hvalues⟩
    rw [fill_of_listed hlisted]
    refine ⟨_, rfl, ?_, fun key hkey => ?_⟩
    · rw [Assoc.get?_set, if_pos rfl]
    · rw [Assoc.get?_set, if_neg (Ne.symm hkey)]
  kept hunlisted := by
    have hlisted : head.kind.listed? lists = none := by
      rw [Option.eq_none_iff_forall_ne_some]
      intro values hsome
      rcases Kind.listed?_eq_some_iff.mp hsome with ⟨name, mode, selected, hkind, hvalues⟩
      refine hunlisted name mode selected hkind (Assoc.mem_keys_iff.mpr ?_)
      rw [hvalues]
      nofun
    rw [fill_of_not_listed hlisted]

end Head

/-! ## Trees -/

namespace Segment

variable {ι : Type}

/-- Trees of one shape with heads that are related place by place. -/
inductive SameShape (related : Head ι → Head ι → Prop) : Segment ι → Segment ι → Prop where
  | missing : SameShape related .missing .missing
  | leaf {head other : Head ι} : related head other →
    SameShape related (.leaf head) (.leaf other)
  | branch {head other : Head ι} {children others : List (Segment ι)} : related head other →
    List.Forall₂ (SameShape related) children others →
    SameShape related (.branch head children) (.branch other others)

mutual

/-- Change each head of a tree in its place. -/
def mapHeads (change : Head ι → Head ι) : Segment ι → Segment ι
  | .missing => .missing
  | .leaf head => .leaf (change head)
  | .branch head children => .branch (change head) (mapHeadsList change children)

/-- Change each head of a list of trees. -/
def mapHeadsList (change : Head ι → Head ι) : List (Segment ι) → List (Segment ι)
  | [] => []
  | child :: rest => child.mapHeads change :: mapHeadsList change rest

end

/-- The heads of a list of trees are changed tree by tree. -/
theorem mapHeadsList_eq_map (change : Head ι → Head ι) (trees : List (Segment ι)) :
    mapHeadsList change trees = trees.map (mapHeads change) := by
  induction trees with
  | nil => rfl
  | cons tree rest ih => rw [mapHeadsList, ih, List.map_cons]

/-- The trees of a list are rebuilt one by one. -/
theorem mapNodesList_eq_map (f : Segment ι → Segment ι) (trees : List (Segment ι)) :
    mapNodesList f trees = trees.map (mapNodes f) := by
  induction trees with
  | nil => rfl
  | cons tree rest ih => rw [mapNodesList, ih, List.map_cons]

/-- A rebuild that changes the head of each node changes each head in its place. -/
theorem mapNodes_eq_mapHeads {f : Segment ι → Segment ι} {change : Head ι → Head ι}
    (h : ∀ head children?, f (ofHead head children?) = ofHead (change head) children?)
    (root : Segment ι) : root.mapNodes f = root.mapHeads change := by
  induction root with
  | missing => rfl
  | leaf head => exact h head none
  | branch head children ih =>
    rw [mapNodes, mapHeads, mapNodesList_eq_map, mapHeadsList_eq_map, List.map_congr_left ih]
    exact h head (some _)

/-- Two changes of the heads, one after the other, are one change. -/
theorem mapHeads_mapHeads (first second : Head ι → Head ι) (root : Segment ι) :
    (root.mapHeads first).mapHeads second = root.mapHeads (second ∘ first) := by
  induction root with
  | missing => rfl
  | leaf head => rfl
  | branch head children ih =>
    have hchildren : children.map (mapHeads second ∘ mapHeads first) =
        children.map (mapHeads (second ∘ first)) :=
      List.map_congr_left ih
    simp only [mapHeads, mapHeadsList_eq_map, List.map_map, hchildren, Function.comp_apply]

/-- Heads that are changed to related ones make a tree of the same shape. -/
theorem sameShape_mapHeads {related : Head ι → Head ι → Prop} {change : Head ι → Head ι}
    (h : ∀ head, related head (change head)) (root : Segment ι) :
    root.SameShape related (root.mapHeads change) := by
  induction root with
  | missing => exact .missing
  | leaf head => exact .leaf (h head)
  | branch head children ih =>
    rw [mapHeads, mapHeadsList_eq_map]
    refine .branch (h head) (List.forall₂_map_right_iff.mpr (List.forall₂_same.mpr ih))

/-- A tree with changed heads is there if the tree is. -/
@[simp] theorem isPresent_mapHeads (change : Head ι → Head ι) (root : Segment ι) :
    (root.mapHeads change).isPresent = root.isPresent := by
  cases root <;> rfl

/-- Where heads are changed, the nodes are the old ones with their heads changed. -/
theorem nodes_mapHeads (change : Head ι → Head ι) (root : Segment ι) :
    (root.mapHeads change).nodes = root.nodes.map (mapHeads change) := by
  have hlist : ∀ trees : List (Segment ι),
      (∀ tree ∈ trees, (tree.mapHeads change).nodes = tree.nodes.map (mapHeads change)) →
      nodesList (mapHeadsList change trees) = (nodesList trees).map (mapHeads change) := by
    intro trees
    induction trees with
    | nil => exact fun _ => rfl
    | cons tree rest ih =>
      intro htrees
      rcases List.forall_mem_cons.mp htrees with ⟨htree, hrest⟩
      rw [mapHeadsList, nodesList, nodesList, htree, ih hrest, List.map_append]
  induction root with
  | missing => rfl
  | leaf head => rfl
  | branch head children ih =>
    rw [mapHeads, nodes, nodes, hlist children ih, List.map_cons, mapHeads]

/-- No segment comes to be missing where heads are changed. -/
@[simp] theorem isWhole_mapHeads (change : Head ι → Head ι) (root : Segment ι) :
    (root.mapHeads change).isWhole = root.isWhole := by
  rw [isWhole, nodes_mapHeads, List.all_map, isWhole]
  exact congrArg root.nodes.all (funext (isPresent_mapHeads change))

/-- Heads that keep their own fields are written as before. -/
theorem render_mapHeads {change : Head ι → Head ι} (h : ∀ head, (change head).kind = head.kind)
    (root : Segment ι) : (root.mapHeads change).render = root.render := by
  have hlist : ∀ trees : List (Segment ι),
      (∀ tree ∈ trees, (tree.mapHeads change).render = tree.render) →
      renderList (mapHeadsList change trees) = renderList trees := by
    intro trees
    induction trees with
    | nil => exact fun _ => rfl
    | cons tree rest ih =>
      intro htrees
      rcases List.forall_mem_cons.mp htrees with ⟨htree, hrest⟩
      rw [mapHeadsList, renderList, renderList, htree, ih hrest]
  induction root with
  | missing => rfl
  | leaf head => rw [mapHeads, render, render, h]
  | branch head children ih => rw [mapHeads, render, render, hlist children ih, h]

/-! ## Injecting -/

/-- A rebuild that changes no node changes nothing. -/
theorem mapNodes_eq_self {f : Segment ι → Segment ι} (h : ∀ node, f node = node)
    (root : Segment ι) : root.mapNodes f = root := by
  induction root with
  | missing => rfl
  | leaf head => exact h (.leaf head)
  | branch head children ih =>
    rw [mapNodes, mapNodesList_eq_map, List.map_congr_left ih, List.map_id', h]

/-- A library without presets leaves a tree as it is. -/
theorem inject_nil (root : Segment ι) : root.inject [] = root := by
  apply mapNodes_eq_self
  intro node
  unfold injectNode
  split
  · split <;> rfl
  · rfl

/-- In a node the values are stored that its head is given. -/
theorem injectNode_ofHead (lists : Assoc Text (List Text)) (head : Head ι)
    (children? : Option (List (Segment ι))) :
    (ofHead head children?).injectNode (.ofLists lists) = ofHead (head.fill lists) children? := by
  rw [injectNode, head?_ofHead, children?_ofHead, Head.fill]
  cases hkind : head.kind with
  | preset name mode selected =>
    simp only [hkind, Library.get?_ofLists, Kind.listed?]
    cases lists.get? (lower name) <;> rfl
  | _ => simp only [hkind, Kind.listed?]

/-- Injecting lists of values changes the heads of a tree, each by itself. -/
theorem inject_eq_mapHeads (lists : Assoc Text (List Text)) (root : Segment ι) :
    root.inject (.ofLists lists) = root.mapHeads (Head.fill lists) :=
  mapNodes_eq_mapHeads (injectNode_ofHead lists) root

/-- Values are injected into a tree in which no segment is missing, also from an empty library. -/
theorem checkedInject_of_isWhole {root : Segment ι} (hwhole : root.isWhole = true)
    (library : Library) : root.checkedInject library = .ok (root.inject library) := by
  cases library with
  | nil => exact congrArg Except.ok (inject_nil root).symm
  | cons entry rest => exact if_pos hwhole

/-- Lists of values that are injected one after the other are injected as the first overridden by
the second. -/
theorem inject_inject {first second joint : Assoc Text (List Text)}
    (hjoint : ∀ name, joint.get? name = (second.get? name).or (first.get? name))
    (root : Segment ι) :
    (root.inject (.ofLists first)).inject (.ofLists second) = root.inject (.ofLists joint) := by
  have hheads : (Head.fill second ∘ Head.fill first : Head ι → Head ι) = Head.fill joint :=
    funext (Head.fill_fill hjoint)
  simp only [inject_eq_mapHeads, mapHeads_mapHeads, hheads]

/-- Without choices, a tree is compiled to the same whether values are injected or not. -/
theorem compile_inject {root : Segment ι} (hpresent : root.isPresent = true)
    (lists : Assoc Text (List Text)) {surroundings : Surroundings} {given : Option CompileOptions}
    (hplain : ∀ options, surroundings.optionsFor given = .ok options →
      options.expandWildcards = false) :
    compile surroundings given (root.inject (.ofLists lists)) =
      compile surroundings given root := by
  have hinjected : (root.inject (.ofLists lists)).isPresent = true := by
    rw [inject_eq_mapHeads, isPresent_mapHeads, hpresent]
  cases hoptions : surroundings.optionsFor given with
  | error reason =>
    rw [compile_of_isPresent hinjected, compile_of_isPresent hpresent, hoptions]
    rfl
  | ok options =>
    have hchoices := hplain options hoptions
    rw [compile_of_plain hoptions hchoices hinjected, compile_of_plain hoptions hchoices hpresent,
      inject_eq_mapHeads, render_mapHeads (Head.kind_fill lists)]

/-- Injecting lists of values by name changes the values of the presets that are named and nothing
else.  Without choices, the tree is compiled as before.  Injecting the same lists again changes
nothing, and injecting other lists after them is injecting the first lists overridden by the
others. -/
theorem checkedInject_fills {root : Segment ι} (hwhole : root.isWhole = true)
    (first : Assoc Text (List Text)) :
    ∃ filled, root.checkedInject (.ofLists first) = .ok filled ∧
      root.SameShape (Head.FilledBy first) filled ∧
      (∀ surroundings given, (∀ options, Surroundings.optionsFor surroundings given = .ok options →
          options.expandWildcards = false) →
        compile surroundings given filled = compile surroundings given root) ∧
      filled.checkedInject (.ofLists first) = .ok filled ∧
      ∀ second joint : Assoc Text (List Text),
        (∀ name, joint.get? name = (second.get? name).or (first.get? name)) →
        filled.checkedInject (.ofLists second) = root.checkedInject (.ofLists joint) := by
  have hfilled : (root.inject (.ofLists first)).isWhole = true := by
    rw [inject_eq_mapHeads, isWhole_mapHeads, hwhole]
  refine ⟨root.inject (.ofLists first), checkedInject_of_isWhole hwhole _, ?_,
    fun surroundings given hplain => ?_, ?_, fun second joint hjoint => ?_⟩
  · rw [inject_eq_mapHeads]
    exact sameShape_mapHeads (Head.filledBy_fill first) root
  · exact compile_inject (isPresent_of_mem_nodes hwhole (mem_nodes_self root)) first hplain
  · rw [checkedInject_of_isWhole hfilled, inject_inject fun name => (Option.or_self).symm]
  · rw [checkedInject_of_isWhole hfilled, checkedInject_of_isWhole hwhole, inject_inject hjoint]

/-- A fixed preset with a random one below it, whose name is in upper case and which has no
metadata, and a text. -/
def seasonTree (values mood : Option Object) : Segment NodeId :=
  .branch ⟨.named "s", .preset "Season".toList (.valid .fixed) (some "spring".toList), values⟩
    [.leaf ⟨.named "m", .preset "MOOD".toList (.valid .random) none, mood⟩,
      .leaf ⟨.named "t", .text (some "calm".toList), none⟩]

/-- Two presets, one below the other, are filled from a library that names both, and one of them
once more from a library that names that one. -/
theorem checkedInject_fills_seasonTree :
    let seasons : Assoc Text (List Text) :=
      [("season".toList, ["spring".toList]), ("mood".toList, [])]
    let moods : Assoc Text (List Text) := [("mood".toList, ["dark".toList])]
    let joint : Assoc Text (List Text) :=
      [("season".toList, ["spring".toList]), ("mood".toList, ["dark".toList])]
    let root := seasonTree (some [("values", .list []), ("color", .ofString fixedColor)]) none
    root.isWhole = true ∧
      root.checkedInject (.ofLists joint) = .ok (seasonTree
        (some [("values", .list [.ofString "spring"]), ("color", .ofString fixedColor)])
        (some [("values", .list [.ofString "dark"])])) ∧
      ∃ filled, root.checkedInject (.ofLists seasons) = .ok filled ∧
        root.SameShape (Head.FilledBy seasons) filled ∧
        compile ⟨.ok {}, 0⟩ none filled = compile ⟨.ok {}, 0⟩ none root ∧
        filled.checkedInject (.ofLists seasons) = .ok filled ∧
        filled.checkedInject (.ofLists moods) = root.checkedInject (.ofLists joint) := by
  intro seasons moods joint root
  have hwhole : root.isWhole = true := rfl
  have hjoint : ∀ name, joint.get? name = (moods.get? name).or (seasons.get? name) := by
    intro name
    have hset : joint = seasons.set "mood".toList ["dark".toList] := rfl
    rw [hset, Assoc.get?_set]
    by_cases hmood : "mood".toList = name
    · have hfound : moods.get? name = some ["dark".toList] := if_pos hmood
      rw [if_pos hmood, hfound, Option.some_or]
    · have hnone : moods.get? name = none := if_neg hmood
      rw [if_neg hmood, hnone, Option.none_or]
  rcases checkedInject_fills hwhole seasons with ⟨filled, hfilled, hshape, hcompile, hagain, hthen⟩
  refine ⟨hwhole, by decide, filled, hfilled, hshape, hcompile _ _ ?_, hagain,
    hthen moods joint hjoint⟩
  rintro options ⟨⟩
  rfl

end Segment

end PromptMarkup
