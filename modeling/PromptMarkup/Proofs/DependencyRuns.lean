import Mathlib.Data.List.Perm.Subperm
import Mathlib.Data.List.ProdSigma
import PromptMarkup.Proofs.RecordedDependencies

/-!
# Runs after which a tree can be invalidated

A run of requests for one tree keeps texts of its nodes under several seeds.  A node that is
compiled again under another seed can lose its last old text while room is made for its new
one, and with it the dependencies that were recorded for the new one.  With one seed this does
not happen, as a node is used after all nodes below it, so that it is the last of them to be
dropped; nor does it happen as long as there is room for all texts.

Main statements:

- {lit}`compilation_roomy`: where there is room for all texts, a compilation keeps the ways to
  them recorded.
- {lit}`compilation_oneSeed`: with one seed it does so too, whatever is dropped.
- {lit}`clearsBelow_run`: when a tree can be invalidated at each of its nodes after a run.
- {lit}`clearsBelow_run_reseeded`: a run after which it cannot.
-/

namespace PromptMarkup

namespace Segment

/-- One identifier of a tree stands strictly above another. -/
def StandsAbove (tree : Segment NodeId) (above below : NodeId) : Prop :=
  ∃ node ∈ tree.nodes, ∃ child ∈ node.children, ∃ last ∈ child.nodes,
    node.id? = some above ∧ last.id? = some below

/-- Where identifiers are distinct, what stands above that of a node has the node below one of
its children. -/
theorem standsAbove_iff {tree node : Segment NodeId} (hdistinct : tree.ids.Nodup)
    (hnode : node ∈ tree.nodes) {above id : NodeId} (hid : node.id? = some id) :
    tree.StandsAbove above id ↔
      ∃ top ∈ tree.nodes, top.id? = some above ∧ ∃ child ∈ top.children, node ∈ child.nodes := by
  constructor
  · rintro ⟨top, htop, child, hchild, last, hlast, htopId, hlastId⟩
    have hmem := mem_nodes_trans (mem_nodes_of_mem_children htop hchild) hlast
    rw [eq_of_id?_eq hdistinct hmem hnode hlastId hid] at hlast
    exact ⟨top, htop, htopId, child, hchild, hlast⟩
  · rintro ⟨top, htop, htopId, child, hchild, hbelow⟩
    exact ⟨top, htop, child, hchild, node, hbelow, htopId, hid⟩

section Distinct

variable {tree node : Segment NodeId} (hdistinct : tree.ids.Nodup) (hnode : node ∈ tree.nodes)
  {above id : NodeId} (hid : node.id? = some id)

include hdistinct hnode hid

/-- No node stands above itself. -/
theorem not_standsAbove_self : ¬tree.StandsAbove id id := by
  intro habove
  rcases (standsAbove_iff hdistinct hnode hid).mp habove with
    ⟨top, htop, htopId, child, hchild, hbelow⟩
  rw [eq_of_id?_eq hdistinct htop hnode htopId hid] at hchild
  exact not_mem_nodes_of_mem_children hchild hbelow

/-- What stands above a node stands above its children. -/
theorem StandsAbove.child (h : tree.StandsAbove above id) {child : Segment NodeId}
    (hchild : child ∈ node.children) {childId : NodeId} (hchildId : child.id? = some childId) :
    tree.StandsAbove above childId := by
  rcases (standsAbove_iff hdistinct hnode hid).mp h with ⟨top, htop, htopId, first, hfirst, hbelow⟩
  have hmem := mem_nodes_of_mem_children hnode hchild
  exact (standsAbove_iff hdistinct hmem hchildId).mpr
    ⟨top, htop, htopId, first, hfirst, mem_nodes_of_mem_children hbelow hchild⟩

/-- What stands above a child is its parent, or stands above that. -/
theorem StandsAbove.of_child (hwhole : tree.isWhole = true) {child : Segment NodeId}
    (hchild : child ∈ node.children) {childId : NodeId} (hchildId : child.id? = some childId)
    (h : tree.StandsAbove above childId) : above = id ∨ tree.StandsAbove above id := by
  have hmem := mem_nodes_of_mem_children hnode hchild
  rcases (standsAbove_iff hdistinct hmem hchildId).mp h with
    ⟨top, htop, htopId, first, hfirst, hbelow⟩
  rcases mem_nodes_or_eq_of_mem_children (nodup_nodes hwhole hdistinct) hnode hchild htop hfirst
    hbelow with ⟨rfl, -⟩ | hin
  · rw [hid] at htopId
    exact Or.inl (Option.some.inj htopId).symm
  · exact Or.inr ((standsAbove_iff hdistinct hnode hid).mpr
      ⟨top, htop, htopId, first, hfirst, hin⟩)

end Distinct

/-- Nothing stands above the root of a tree. -/
theorem not_standsAbove_root {tree : Segment NodeId} (hdistinct : tree.ids.Nodup)
    {above id : NodeId} (hid : tree.id? = some id) : ¬tree.StandsAbove above id := by
  intro habove
  rcases (standsAbove_iff hdistinct (mem_nodes_self tree) hid).mp habove with
    ⟨top, htop, -, child, hchild, hbelow⟩
  exact root_not_mem_nodes_of_mem_children htop hchild hbelow

/-- Where nothing has changed there is no path to a change. -/
@[simp] theorem affectedPaths_nil (tree : Segment NodeId) (above : List NodeId) :
    tree.affectedPaths [] above = [] := by
  induction tree generalizing above with
  | missing => rfl
  | leaf head => simp [affectedPaths]
  | branch head children ih =>
    have hchildren : affectedPathsList [] (above ++ [head.id]) children = [] := by
      refine List.eq_nil_iff_forall_not_mem.mpr fun path hpath => ?_
      rcases mem_affectedPathsList.mp hpath with ⟨child, hchild, hmem⟩
      rw [ih child hchild] at hmem
      cases hmem
    simp [affectedPaths, hchildren]

end Segment

namespace Cache

/-! ## Ways that stay recorded -/

/-- No way leads to the root of a tree. -/
theorem recordsWay_root (cache : Cache) (tree : Segment NodeId) : cache.RecordsWay tree tree :=
  fun _ habove _ hnext hin =>
    absurd hin (Segment.root_not_mem_nodes_of_mem_children habove hnext)

/-- A way stays recorded where all dependencies do. -/
theorem RecordsWay.mono {before after : Cache} {tree node : Segment NodeId}
    (h : before.RecordsWay tree node)
    (hedges : ∀ parent child, before.DependsOn parent child → after.DependsOn parent child) :
    after.RecordsWay tree node :=
  fun above habove next hnext hin parent child hparent hchild =>
    hedges parent child (h above habove next hnext hin parent child hparent hchild)

/-- The way to a node stays recorded when a text of a node that is not above it is dropped. -/
theorem RecordsWay.drop {cache : Cache} {tree node : Segment NodeId}
    (h : cache.RecordsWay tree node) {id : NodeId} (hid : node.id? = some id) {key : CacheKey}
    (hnot : ¬tree.StandsAbove key.id id) : (cache.drop key).RecordsWay tree node := by
  intro above habove next hnext hin parent child hparent hchild
  have hne : key.id ≠ parent := by
    rintro rfl
    exact hnot ⟨above, habove, next, hnext, node, hin, hparent, hid⟩
  rw [DependsOn, dependenciesOf_drop cache hne]
  exact h above habove next hnext hin parent child hparent hchild

/-- A cache for a tree in which the ways to all texts are recorded, and the way to a node. -/
structure Tracks (cache : Cache) (tree node : Segment NodeId) : Prop where
  serves : cache.Serves tree
  covers : cache.Covers tree
  way : cache.RecordsWay tree node

section Tracks

variable {cache : Cache} {tree node : Segment NodeId} (h : cache.Tracks tree node)

include h

/-- The ways stay recorded in a look-up. -/
theorem Tracks.get (key : CacheKey) : (cache.get key).2.Tracks tree node := by
  have hedges : ∀ parent child, cache.DependsOn parent child →
      (cache.get key).2.DependsOn parent child := by
    intro parent child hedge
    rwa [DependsOn, dependenciesOf_get]
  refine ⟨h.serves.get key, fun other hother otherKey hid htext => ?_, h.way.mono hedges⟩
  rw [text?_get] at htext
  exact (h.covers other hother otherKey hid htext).mono hedges

/-- The way to a child is recorded with the dependency on it. -/
theorem Tracks.enter (hnodup : tree.nodes.Nodup) (hnode : node ∈ tree.nodes)
    {child : Segment NodeId} (hchild : child ∈ node.children) {id : NodeId}
    (hid : node.id? = some id) : (cache.dependOn id child).Tracks tree child := by
  have hedges : ∀ parent next, cache.DependsOn parent next →
      (cache.dependOn id child).DependsOn parent next := by
    intro parent next hedge
    unfold Cache.dependOn
    split
    · exact hedge
    · exact dependsOn_depend_iff.mpr (Or.inl hedge)
  refine ⟨h.serves.dependOn hnode hchild hid, fun other hother key hkey htext => ?_, ?_⟩
  · rw [text?, entries_dependOn] at htext
    exact (h.covers other hother key hkey htext).mono hedges
  · intro above habove next hnext hin parent first hparent hfirst
    rcases Segment.mem_nodes_or_eq_of_mem_children hnodup hnode hchild habove hnext hin with
      ⟨rfl, rfl⟩ | hbelow
    · rw [hid] at hparent
      cases hparent
      rw [Cache.dependOn, hfirst]
      exact dependsOn_depend_iff.mpr (Or.inr ⟨rfl, rfl⟩)
    · exact hedges parent first (h.way above habove next hnext hbelow parent first hparent hfirst)

/-- The way to a node is part of that to its child. -/
theorem Tracks.leave {parent : Segment NodeId} (hchild : node ∈ parent.children) :
    cache.Tracks tree parent :=
  ⟨h.serves, h.covers, fun above habove next hnext hin =>
    h.way above habove next hnext (Segment.mem_nodes_of_mem_children hin hchild)⟩

/-- The ways stay recorded when a text of the node is kept, if they do when room is made for
it. -/
theorem Tracks.set (hdistinct : tree.ids.Nodup) (hnode : node ∈ tree.nodes) {key : CacheKey}
    (hid : node.id? = some key.id) (text : Text)
    (hroom : cache.text? key = none → cache.makeRoom.Tracks tree node) :
    (cache.set key text).Tracks tree node := by
  have hserves := h.serves.set key text
  have htexts := (text?_set_cases h.serves.indexed key text).2
  -- Both ways of keeping a text leave the dependencies of some cache with recorded ways.
  have hbefore : ∃ before : Cache, before.Tracks tree node ∧
      (∀ id, (cache.set key text).dependenciesOf id = before.dependenciesOf id) ∧
      ∀ other, (cache.set key text).text? other ≠ none → other ≠ key →
        before.text? other ≠ none := by
    rcases set_cases cache key text with ⟨-, hset⟩ | ⟨hnone, hset⟩
    · refine ⟨cache, h, fun id => by rw [hset]; rfl, fun other hother hne => ?_⟩
      rcases Option.ne_none_iff_exists'.mp hother with ⟨found, hfound⟩
      rw [(htexts other found hfound).resolve_left fun hsame => hne hsame.1]
      exact Option.some_ne_none found
    · have hnew := text?_makeRoom_eq_none h.serves.indexed hnone
      refine ⟨cache.makeRoom, hroom hnone, fun id => by rw [hset]; rfl, fun other hother hne => ?_⟩
      rwa [hset, text?_insertNew hnew, if_neg (Ne.symm hne)] at hother
  rcases hbefore with ⟨before, htracks, hdependencies, hold⟩
  have hedges : ∀ parent child, before.DependsOn parent child →
      (cache.set key text).DependsOn parent child := by
    intro parent child hedge
    rwa [DependsOn, hdependencies]
  refine ⟨hserves, fun other hother otherKey hotherId htext => ?_, htracks.way.mono hedges⟩
  by_cases hkey : otherKey = key
  · subst hkey
    rw [Segment.eq_of_id?_eq hdistinct hother hnode hotherId hid]
    exact htracks.way.mono hedges
  · exact (htracks.covers other hother otherKey hotherId (hold otherKey htext hkey)).mono hedges

/-- The ways stay recorded when a text is dropped that stands above none of them. -/
theorem Tracks.drop {id : NodeId} (hid : node.id? = some id) {key : CacheKey}
    (hnot : ¬tree.StandsAbove key.id id)
    (hothers : ∀ other, other ≠ key → cache.text? other ≠ none →
      ¬tree.StandsAbove key.id other.id) : (cache.drop key).Tracks tree node := by
  refine ⟨h.serves.drop key, fun other hother otherKey hotherId htext => ?_, h.way.drop hid hnot⟩
  rw [text?_drop] at htext
  split at htext
  · exact absurd rfl htext
  · rename_i hne
    exact (h.covers other hother otherKey hotherId htext).drop hotherId
      (hothers otherKey (Ne.symm hne) htext)

end Tracks

/-- An empty cache tracks the root of every tree. -/
theorem tracks_empty (size : Int) (tree : Segment NodeId) : (empty size).Tracks tree tree :=
  ⟨serves_empty size tree, fun _ _ key _ htext => absurd (text?_empty size key) htext,
    recordsWay_root _ tree⟩

/-! ## Room for all texts -/

/-- There is room for texts under some keys, and no text stands under any other. -/
structure Roomy (cache : Cache) (all : List CacheKey) : Prop where
  fits : all.length ≤ cache.capacity
  listed : ∀ key ∈ cache.entries.keys, key ∈ all
  nodup : cache.entries.keys.Nodup

section Roomy

variable {cache : Cache} {all : List CacheKey} (h : cache.Roomy all)

include h

/-- No room has to be made for a text under a key that is new. -/
theorem Roomy.makeRoom_eq {key : CacheKey} (hkey : key ∈ all) (hnew : cache.text? key = none) :
    cache.makeRoom = cache := by
  have hnot : key ∉ cache.entries.keys := fun hmem => mem_keys_iff.mp hmem hnew
  have hnodup : (key :: cache.entries.keys).Nodup := List.nodup_cons.mpr ⟨hnot, h.nodup⟩
  have hsubset : key :: cache.entries.keys ⊆ all := by
    intro other hother
    rcases List.mem_cons.mp hother with rfl | hmem
    · exact hkey
    · exact h.listed other hmem
  have hlength := (hnodup.subperm hsubset).length_le
  have hsize : cache.entries.keys.length = cache.size := List.length_map _
  rw [List.length_cons, hsize] at hlength
  exact makeRoom_of_lt (hlength.trans h.fits)

/-- Where a key was used last there is still room. -/
theorem Roomy.of_moved {after : Cache} {key : CacheKey} (hkey : key ∈ all)
    (hcapacity : after.capacity = cache.capacity)
    (hkeys : after.entries.keys = cache.entries.keys.filter (· ≠ key) ++ [key]) :
    after.Roomy all := by
  refine ⟨hcapacity ▸ h.fits, fun other hother => ?_, ?_⟩
  · rw [hkeys] at hother
    rcases List.mem_append.mp hother with hold | hlast
    · exact h.listed other (List.mem_filter.mp hold).1
    · exact List.mem_singleton.mp hlast ▸ hkey
  · rw [hkeys]
    refine List.nodup_append'.mpr ⟨h.nodup.filter _, List.nodup_singleton key, ?_⟩
    simp

/-- There is still room after a look-up. -/
theorem Roomy.get {key : CacheKey} (hkey : key ∈ all) : (cache.get key).2.Roomy all := by
  have hcapacity := capacity_get cache key
  by_cases hfound : cache.text? key = none
  · exact ⟨hcapacity ▸ h.fits, by rw [entries_get_of_eq_none hfound]; exact h.listed,
      by rw [entries_get_of_eq_none hfound]; exact h.nodup⟩
  · exact h.of_moved hkey hcapacity (keys_get hfound)

/-- A text that is kept is found under its key, and all others as before. -/
theorem Roomy.text?_set {key : CacheKey} (hkey : key ∈ all) (text : Text) (other : CacheKey) :
    (cache.set key text).text? other = if key = other then some text else cache.text? other := by
  by_cases hnew : cache.text? key = none
  · rw [set_of_new hnew, h.makeRoom_eq hkey hnew, text?_insertNew hnew]
  · exact text?_set_of_ne_none hnew text other

/-- There is still room after a text was kept. -/
theorem Roomy.set {key : CacheKey} (hkey : key ∈ all) (text : Text) :
    (cache.set key text).Roomy all := by
  rcases set_cases cache key text with ⟨hfound, hset⟩ | ⟨hnone, hset⟩
  · exact h.of_moved hkey (by rw [hset]) (keys_set_of_ne_none hfound text)
  · rw [h.makeRoom_eq hkey hnone] at hset
    refine h.of_moved hkey (by rw [hset]; rfl) ?_
    rw [hset, keys_insertNew, keys_filter_of_eq_none hnone]

/-- There is still room after a dependency was recorded. -/
theorem Roomy.depend (parent child : NodeId) : (cache.depend parent child).Roomy all := by
  rw [depend_eq]
  exact ⟨h.fits, h.listed, h.nodup⟩

/-- There is still room after the dependency on a child was recorded. -/
theorem Roomy.dependOn (id : NodeId) (child : Segment NodeId) :
    (cache.dependOn id child).Roomy all := by
  unfold Cache.dependOn
  split
  · exact h
  · exact h.depend id _

/-- There is still room after a text was dropped. -/
theorem Roomy.drop (key : CacheKey) : (cache.drop key).Roomy all := by
  have hkeys := keys_drop cache key
  refine ⟨((SameCounters.refl cache).drop key).capacity ▸ h.fits, fun other hother => ?_, ?_⟩
  · rw [hkeys] at hother
    exact h.listed other (List.mem_filter.mp hother).1
  · rw [hkeys]
    exact h.nodup.filter _

/-- There is still room after dependencies were forgotten. -/
theorem Roomy.forget (id : NodeId) :
    Roomy { cache with dependencies := cache.dependencies.erase id } all :=
  ⟨h.fits, h.listed, h.nodup⟩

end Roomy

/-- Where there is room for all texts, a compilation keeps the ways to them recorded. -/
theorem compilation_roomy {tree : Segment NodeId} (hwhole : tree.isWhole = true)
    (hdistinct : tree.ids.Nodup) {options : CompileOptions} {all : List CacheKey}
    (hall : ∀ id ∈ tree.ids, CacheKey.of id options ∈ all) :
    Compilation tree options (fun node cache => cache.Tracks tree node ∧ cache.Roomy all)
      (fun node cache => cache.Tracks tree node ∧ cache.Roomy all) where
  hit _ hnode _ _ hid h _ := ⟨h.1.get _, h.2.get (hall _ (Segment.mem_ids hnode hid))⟩
  miss _ hnode _ _ hid h _ := ⟨h.1.get _, h.2.get (hall _ (Segment.mem_ids hnode hid))⟩
  enter _ hnode _ hchild _ _ hid h :=
    ⟨h.1.enter (Segment.nodup_nodes hwhole hdistinct) hnode hchild hid, h.2.dependOn _ _⟩
  leave _ _ _ hchild _ h := ⟨h.1.leave hchild, h.2⟩
  keep _ hnode _ _ text hid h := by
    have hkey := hall _ (Segment.mem_ids hnode hid)
    refine ⟨h.1.set hdistinct hnode hid text fun hnone => ?_, h.2.set hkey text⟩
    rw [h.2.makeRoom_eq hkey hnone]
    exact h.1
  fail _ _ _ h := h

/-! ## One seed -/

/-- All texts stand under one seed, none was used after one that stands above it, and none
stands above a node. -/
structure Lined (cache : Cache) (tree : Segment NodeId) (seed : Int) (node : Segment NodeId) :
    Prop where
  seeded : ∀ key ∈ cache.entries.keys, key.expand = false ∧ key.seed = seed
  ordered : cache.entries.keys.Pairwise fun older newer => ¬tree.StandsAbove older.id newer.id
  cleared : ∀ id, node.id? = some id → ∀ above, tree.StandsAbove above id → cache.Lacks above

section Lined

variable {cache : Cache} {tree node : Segment NodeId} {seed : Int}
  (h : cache.Lined tree seed node)

include h

/-- A node whose text is not found under the one seed has no text at all. -/
theorem Lined.lacks {key : CacheKey} (hexpand : key.expand = false) (hseed : key.seed = seed)
    (hnone : cache.text? key = none) : cache.Lacks key.id := by
  intro other hother
  by_contra hsome
  rcases h.seeded other (mem_keys_iff.mpr hsome) with ⟨hotherExpand, hotherSeed⟩
  have hsame : other = key := by
    cases other
    cases key
    simp_all
  exact hsome (hsame ▸ hnone)

/-- With the same texts the order is the same, for each node that no text stands above. -/
theorem Lined.of_entries {after : Cache} {other : Segment NodeId}
    (hentries : after.entries = cache.entries)
    (hcleared : ∀ id, other.id? = some id → ∀ above, tree.StandsAbove above id →
      cache.Lacks above) : after.Lined tree seed other := by
  refine ⟨by rw [hentries]; exact h.seeded, by rw [hentries]; exact h.ordered, ?_⟩
  intro id hid above habove key hkey
  rw [text?, hentries]
  exact hcleared id hid above habove key hkey

/-- The order is kept where a key of the node was used last. -/
theorem Lined.of_moved {after : Cache} {key : CacheKey} (hdistinct : tree.ids.Nodup)
    (hnode : node ∈ tree.nodes) (hid : node.id? = some key.id)
    (hexpand : key.expand = false) (hseed : key.seed = seed)
    {kept : List CacheKey} (hkept : kept.Sublist cache.entries.keys)
    (hkeys : after.entries.keys = kept ++ [key]) : after.Lined tree seed node := by
  have hcleared : ∀ above, tree.StandsAbove above key.id → ∀ other ∈ cache.entries.keys,
      other.id ≠ above := fun above habove other hother heq =>
    mem_keys_iff.mp hother (h.cleared key.id hid above habove other heq)
  refine ⟨fun other hother => ?_, ?_, fun id hid' above habove other heq => ?_⟩
  · rw [hkeys] at hother
    rcases List.mem_append.mp hother with hold | hlast
    · exact h.seeded other (hkept.subset hold)
    · rw [List.mem_singleton.mp hlast]
      exact ⟨hexpand, hseed⟩
  · rw [hkeys]
    refine List.pairwise_append.mpr ⟨h.ordered.sublist hkept, List.pairwise_singleton _ _, ?_⟩
    intro older holder newer hnewer habove
    rw [List.mem_singleton.mp hnewer] at habove
    exact hcleared older.id habove older (hkept.subset holder) rfl
  · rw [hid] at hid'
    cases hid'
    by_contra hsome
    have hmem := mem_keys_iff.mpr hsome
    rw [hkeys] at hmem
    rcases List.mem_append.mp hmem with hold | hlast
    · exact hcleared above habove other (hkept.subset hold) heq
    · rw [← heq, List.mem_singleton.mp hlast] at habove
      exact Segment.not_standsAbove_self hdistinct hnode hid habove

/-- The order is kept where a text was dropped. -/
theorem Lined.drop (key : CacheKey) : (cache.drop key).Lined tree seed node := by
  have hkept : (cache.drop key).entries.keys.Sublist cache.entries.keys := by
    rw [keys_drop]
    exact List.filter_sublist
  exact ⟨fun other hother => h.seeded other (hkept.subset hother), h.ordered.sublist hkept,
    fun id hid above habove => (h.cleared id hid above habove).mono (forgetsFrom_drop cache key)⟩

/-- The ways stay recorded when the oldest text is dropped, as it stands above no other and not
above the node. -/
theorem Lined.tracks_drop (htracks : cache.Tracks tree node) {id : NodeId}
    (hid : node.id? = some id) {key : CacheKey} {text : Text} {rest : Assoc CacheKey Text}
    (hentries : cache.entries = (key, text) :: rest) : (cache.drop key).Tracks tree node := by
  have hkeys : cache.entries.keys = key :: Assoc.keys rest := by
    rw [hentries]
    rfl
  have htext : cache.text? key ≠ none := by
    rw [← mem_keys_iff, hkeys]
    exact List.mem_cons_self
  refine htracks.drop hid (fun habove => htext (h.cleared id hid key.id habove key rfl)) ?_
  intro other hne hother
  have hordered := h.ordered
  rw [hkeys, List.pairwise_cons] at hordered
  have hmem := mem_keys_iff.mpr hother
  rw [hkeys] at hmem
  exact hordered.1 other ((List.mem_cons.mp hmem).resolve_left hne)

/-- The ways stay recorded, in order, when room is made. -/
theorem Lined.makeRoom (htracks : cache.Tracks tree node) {id : NodeId}
    (hid : node.id? = some id) :
    cache.makeRoom.Tracks tree node ∧ cache.makeRoom.Lined tree seed node :=
  dropOldest_induction
    (motive := fun cache => cache.Tracks tree node ∧ cache.Lined tree seed node)
    (fun _ key _ _ hentries hcache =>
      ⟨hcache.2.tracks_drop hcache.1 hid hentries, hcache.2.drop key⟩) _ ⟨htracks, h⟩

end Lined

/-- With one seed a compilation keeps the ways to all texts recorded, whatever is dropped. -/
theorem compilation_oneSeed {tree : Segment NodeId} (hwhole : tree.isWhole = true)
    (hdistinct : tree.ids.Nodup) {options : CompileOptions} {seed : Int}
    (hplain : options.expandWildcards = false) (hseed : options.seed.getD 0 = seed) :
    Compilation tree options
      (fun node cache => cache.Tracks tree node ∧ cache.Lined tree seed node)
      (fun node cache => (cache.Tracks tree node ∧ cache.Lined tree seed node) ∧
        ∀ id, node.id? = some id → cache.Lacks id) where
  hit _ hnode _ _ hid h hfound := ⟨h.1.get _,
    h.2.of_moved hdistinct hnode hid hplain hseed List.filter_sublist (keys_get hfound)⟩
  miss node _ id cache hid h hnone := by
    have hentries := entries_get_of_eq_none hnone
    refine ⟨⟨h.1.get _, h.2.of_entries hentries h.2.cleared⟩, fun other hother key hkey => ?_⟩
    rw [hid] at hother
    cases hother
    rw [text?_get]
    exact h.2.lacks hplain hseed hnone key hkey
  enter node hnode child hchild id cache hid h := by
    have hnodup := Segment.nodup_nodes hwhole hdistinct
    refine ⟨h.1.1.enter hnodup hnode hchild hid, h.1.2.of_entries (entries_dependOn _ _ _) ?_⟩
    intro childId hchildId above habove
    rcases habove.of_child hdistinct hnode hid hwhole hchild hchildId with rfl | hparent
    · exact h.2 above hid
    · exact h.1.2.cleared id hid above hparent
  leave node hnode child hchild cache h := by
    rcases Segment.exists_id?_of_isPresent (Segment.isPresent_of_mem_nodes hwhole
      (Segment.mem_nodes_of_mem_children hnode hchild)) with ⟨childId, hchildId⟩
    refine ⟨⟨h.1.leave hchild, h.2.of_entries rfl fun id hid above habove => ?_⟩, fun id hid => ?_⟩
    · exact h.2.cleared childId hchildId above
        (habove.child hdistinct hnode hid hchild hchildId)
    · exact h.2.cleared childId hchildId id
        ⟨node, hnode, child, hchild, child, Segment.mem_nodes_self child, hid, hchildId⟩
  keep node hnode id cache text hid h := by
    have hroom := h.1.2.makeRoom h.1.1 hid
    refine ⟨h.1.1.set hdistinct hnode hid text fun _ => hroom.1, ?_⟩
    rcases set_cases cache (.of id options) text with ⟨hfound, -⟩ | ⟨-, hset⟩
    · exact absurd (h.2 id hid _ rfl) hfound
    · rw [hset]
      exact hroom.2.of_moved hdistinct hnode hid hplain hseed (List.Sublist.refl _)
        (keys_insertNew _ _ _)
  fail _ _ _ h := h.1

/-! ## Runs for one tree -/

/-- A request to compile a tree once more, with nothing changed and no choice made, under one
of some seeds. -/
structure Request.Repeats (request : Request) (tree : Segment NodeId) (seeds : List Int) :
    Prop where
  same : request.root = tree
  unchanged : request.changed = []
  plain : ∀ options, request.surroundings.optionsFor request.options = .ok options →
    options.expandWildcards = false ∧ options.seed.getD 0 ∈ seeds

/-- A request with given options repeats its tree under their seed. -/
theorem Request.repeats_of_options (surroundings : Surroundings) (tree : Segment NodeId)
    {options : CompileOptions} {seeds : List Int} (hplain : options.expandWildcards = false)
    (hseed : options.seed.getD 0 ∈ seeds) :
    Request.Repeats ⟨surroundings, tree, [], some options⟩ tree seeds := by
  refine ⟨rfl, rfl, fun found hfound => ?_⟩
  cases hfound
  exact ⟨hplain, hseed⟩

section Runs

variable {tree : Segment NodeId} (hwhole : tree.isWhole = true) {seeds : List Int}

include hwhole

/-- A request that repeats a tree keeps what the compilations of the tree keep. -/
theorem incremental_keeps {motive : Cache → Prop}
    (hcompile : ∀ options cache, options.expandWildcards = false →
      options.seed.getD 0 ∈ seeds → motive cache → motive (compileTree options tree cache).2)
    {request : Request} (hrepeats : request.Repeats tree seeds) {cache : Cache}
    (h : motive cache) :
    motive (cache.incremental request.surroundings request.options request.changed
      request.root).2 := by
  have hall : request.root.isWhole = true := hrepeats.same ▸ hwhole
  rcases incremental_cases request cache with hsame | ⟨options, hoptions, hplain, -⟩
  · rw [hsame]
    exact h
  · have hinvalidated : cache.invalidateChanged request = cache := by
      rw [invalidateChanged, hrepeats.unchanged, Segment.affectedPaths_nil, List.foldl_nil]
    rw [incremental_eq hoptions hplain hall, hinvalidated, hrepeats.same]
    exact hcompile options cache hplain (hrepeats.plain options hoptions).2 h

/-- A run of requests that repeat a tree keeps what the compilations of the tree keep. -/
theorem run_keeps {motive : Cache → Prop}
    (hcompile : ∀ options cache, options.expandWildcards = false →
      options.seed.getD 0 ∈ seeds → motive cache → motive (compileTree options tree cache).2)
    {requests : List Request} (hrepeats : ∀ request ∈ requests, request.Repeats tree seeds)
    {cache : Cache} (h : motive cache) : motive (cache.run requests).2 := by
  induction requests generalizing cache with
  | nil => exact h
  | cons request rest ih =>
    have hfirst := incremental_keeps hwhole hcompile (hrepeats request List.mem_cons_self) h
    exact ih (fun other hother => hrepeats other (List.mem_cons_of_mem _ hother)) hfirst

/-- A run leaves the cache serving its tree. -/
theorem serves_run (size : Int) {requests : List Request}
    (hrepeats : ∀ request ∈ requests, request.Repeats tree seeds) :
    ((empty size).run requests).2.Serves tree :=
  run_keeps (motive := fun cache => cache.Serves tree) hwhole
    (fun options _ _ _ hcache =>
      (compilation_serves tree options).compileTree tree (Segment.mem_nodes_self tree) hcache)
    hrepeats (serves_empty size tree)

section Distinct

variable (hdistinct : tree.ids.Nodup) (size : Int) {requests : List Request}
  (hrepeats : ∀ request ∈ requests, request.Repeats tree seeds)

include hdistinct hrepeats

/-- Where there is room for the texts of all nodes under all seeds, a run leaves the ways to all
texts recorded. -/
theorem covers_run_of_roomy (hroom : tree.ids.length * seeds.length ≤ max 1 size.toNat) :
    ((empty size).run requests).2.Covers tree := by
  let all := (tree.ids ×ˢ seeds).map fun pair => (⟨pair.1, false, pair.2⟩ : CacheKey)
  have hlength : all.length = tree.ids.length * seeds.length := by
    rw [List.length_map, List.length_product]
  have hempty : (empty size).Roomy all :=
    ⟨hlength ▸ hroom, List.forall_mem_nil _, List.nodup_nil⟩
  have hrun := run_keeps (motive := fun cache => cache.Tracks tree tree ∧ cache.Roomy all) hwhole
    (fun options cache hplain hseed hcache => by
      refine (compilation_roomy hwhole hdistinct fun id hid => ?_).compileTree tree
        (Segment.mem_nodes_self tree) hcache
      refine List.mem_map.mpr ⟨(id, options.seed.getD 0), ?_, ?_⟩
      · exact List.mem_product.mpr ⟨hid, hseed⟩
      · rw [CacheKey.of, hplain])
    hrepeats ⟨tracks_empty size tree, hempty⟩
  exact hrun.1.covers

/-- With one seed a run leaves the ways to all texts recorded. -/
theorem covers_run_of_oneSeed {seed : Int} (hone : ∀ other ∈ seeds, other = seed) :
    ((empty size).run requests).2.Covers tree := by
  have hempty : (empty size).Lined tree seed tree := by
    refine ⟨List.forall_mem_nil _, List.Pairwise.nil, fun id hid above habove => ?_⟩
    exact absurd habove (Segment.not_standsAbove_root hdistinct hid)
  have hrun := run_keeps
    (motive := fun cache => cache.Tracks tree tree ∧ cache.Lined tree seed tree) hwhole
    (fun options cache hplain hseed hcache =>
      (compilation_oneSeed hwhole hdistinct hplain (hone _ hseed)).compileTree tree
        (Segment.mem_nodes_self tree) hcache)
    hrepeats ⟨tracks_empty size tree, hempty⟩
  exact hrun.1.covers

end Distinct

/-- After a run of requests for one tree, with distinct identifiers that are not empty, the
invalidation of each node clears everything below it if the ways to all texts are recorded,
and only then.  They are if all requests have the same seed, whatever was dropped, or if the
cache has room for the texts of all nodes under all seeds. -/
theorem clearsBelow_run (hdistinct : tree.ids.Nodup)
    (hnamed : ∀ id ∈ tree.ids, id.isEmpty = false) (size : Int) {requests : List Request}
    (hrepeats : ∀ request ∈ requests, request.Repeats tree seeds) :
    (((empty size).run requests).2.ClearsBelow tree ↔
        ((empty size).run requests).2.Covers tree) ∧
      (seeds.length ≤ 1 ∨ tree.ids.length * seeds.length ≤ max 1 size.toNat →
        ((empty size).run requests).2.ClearsBelow tree) := by
  have hiff := clearsBelow_iff hwhole hdistinct hnamed (serves_run hwhole size hrepeats)
  refine ⟨hiff, fun hsmall => hiff.mpr ?_⟩
  rcases hsmall with hone | hroom
  · have hsame : ∀ other ∈ seeds, other = seeds.headD 0 := by
      intro other hother
      cases seeds with
      | nil => cases hother
      | cons seed rest =>
        have hrest : rest = [] := List.length_eq_zero_iff.mp (by simpa using hone)
        rw [hrest, List.mem_singleton] at hother
        exact hother
    exact covers_run_of_oneSeed hwhole hdistinct size hrepeats hsame
  · exact covers_run_of_roomy hwhole hdistinct size hrepeats hroom

end Runs

/-- A tree of two nodes under two seeds, with room for all four texts. -/
theorem clearsBelow_run_twoSeeds :
    let tree : Segment NodeId := .branch ⟨.named "r", .text (some []), none⟩
      [.leaf ⟨.named "a", .text (some ['x']), none⟩]
    let request (seed : Int) : Request := ⟨⟨.ok {}, 0⟩, tree, [], some ⟨false, some seed, 50⟩⟩
    (tree.isWhole = true ∧ tree.ids.Nodup ∧ (∀ id ∈ tree.ids, id.isEmpty = false) ∧
        ∀ other ∈ [request 1, request 2], other.Repeats tree [1, 2]) ∧
      ((empty 4).run [request 1, request 2]).2.ClearsBelow tree := by
  intro tree request
  have hrepeats : ∀ other ∈ [request 1, request 2], other.Repeats tree [1, 2] := by
    intro other hother
    rcases List.mem_pair.mp hother with rfl | rfl
    · exact Request.repeats_of_options _ _ rfl (by decide)
    · exact Request.repeats_of_options _ _ rfl (by decide)
  have hwhole : tree.isWhole = true := by decide
  have hdistinct : tree.ids.Nodup := by decide
  have hnamed : ∀ id ∈ tree.ids, id.isEmpty = false := by decide
  exact ⟨⟨hwhole, hdistinct, hnamed, hrepeats⟩,
    (clearsBelow_run hwhole hdistinct hnamed 4 hrepeats).2 (Or.inr (by decide))⟩

/-- The same run with room for two texts only.  When the text of the root is kept under the
second seed, that under the first is dropped, and with it the dependency on the child. -/
theorem clearsBelow_run_reseeded :
    let tree : Segment NodeId := .branch ⟨.named "r", .text (some []), none⟩
      [.leaf ⟨.named "a", .text (some ['x']), none⟩]
    let request (seed : Int) : Request := ⟨⟨.ok {}, 0⟩, tree, [], some ⟨false, some seed, 50⟩⟩
    (tree.isWhole = true ∧ tree.ids.Nodup ∧ (∀ id ∈ tree.ids, id.isEmpty = false) ∧
        ∀ other ∈ [request 1, request 2], other.Repeats tree [1, 2]) ∧
      ¬((empty 2).run [request 1, request 2]).2.ClearsBelow tree := by
  intro tree request
  have hrepeats : ∀ other ∈ [request 1, request 2], other.Repeats tree [1, 2] := by
    intro other hother
    rcases List.mem_pair.mp hother with rfl | rfl
    · exact Request.repeats_of_options _ _ rfl (by decide)
    · exact Request.repeats_of_options _ _ rfl (by decide)
  have hwhole : tree.isWhole = true := by decide
  have hdistinct : tree.ids.Nodup := by decide
  have hnamed : ∀ id ∈ tree.ids, id.isEmpty = false := by decide
  refine ⟨⟨hwhole, hdistinct, hnamed, hrepeats⟩, fun hclears => ?_⟩
  have hafter : ((empty 2).run [request 1, request 2]).2.dependencies = [] ∧
      ((empty 2).run [request 1, request 2]).2.text? ⟨.named "a", false, 2⟩ ≠ none := by
    decide +kernel
  have hserves := serves_run hwhole 2 hrepeats
  have hcovers := (clearsBelow_iff hwhole hdistinct hnamed hserves).mp hclears
  have hleaf : Segment.leaf ⟨.named "a", .text (some ['x']), none⟩ ∈ tree.children :=
    List.mem_singleton_self _
  have hedge := hcovers _ (Segment.mem_nodes_of_mem_children (Segment.mem_nodes_self tree) hleaf)
    ⟨.named "a", false, 2⟩ rfl hafter.2 tree (Segment.mem_nodes_self tree) _ hleaf
    (Segment.mem_nodes_self _) (.named "r") (.named "a") rfl rfl
  rw [DependsOn, dependenciesOf, hafter.1] at hedge
  cases hedge

end Cache

end PromptMarkup
