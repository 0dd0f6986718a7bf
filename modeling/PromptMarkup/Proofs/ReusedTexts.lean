import PromptMarkup.Proofs.CacheSteps
import PromptMarkup.Proofs.ExpandingRequests

/-!
# What a second request reuses

After a tree was compiled with room for all texts, the cache has the text of each of its nodes, and
no dependencies but those of nodes on their children.  A second request, for a tree that came out
of the first by an edit, invalidates what the edit touches: the changed nodes with those above
them in the new tree, and what stood below them in the old one.  All other texts stay in the cache
from the first step of the request to the last, so that those nodes are found when they are looked
up, and nothing is kept for them.

Main statements:

- {lit}`Stocked.compileTree`: where there is room, a compilation leaves a text for each node.
- {lit}`exists_of_mem_affectedPaths`: on the path to a change stand the nodes above it.
- {lit}`incremental_reuses`: the second request looks up in vain only what the edit touches.
-/

namespace PromptMarkup

namespace Segment

instance (tree : Segment NodeId) (above below : NodeId) :
    Decidable (tree.StandsAbove above below) :=
  inferInstanceAs (Decidable (∃ node ∈ tree.nodes, ∃ child ∈ node.children, ∃ last ∈ child.nodes,
    node.id? = some above ∧ last.id? = some below))

/-- A node of a node is that node, or stands below it. -/
theorem eq_or_standsAbove {tree node below : Segment NodeId} (hnode : node ∈ tree.nodes)
    (hbelow : below ∈ node.nodes) {id belowId : NodeId} (hid : node.id? = some id)
    (hbelowId : below.id? = some belowId) : id = belowId ∨ tree.StandsAbove id belowId := by
  cases node with
  | missing => cases hid
  | leaf head =>
    rw [nodes, List.mem_singleton] at hbelow
    rw [hbelow, hid] at hbelowId
    exact Or.inl (Option.some.inj hbelowId)
  | branch head children =>
    rcases mem_nodes_branch.mp hbelow with rfl | ⟨child, hchild, hin⟩
    · rw [hid] at hbelowId
      exact Or.inl (Option.some.inj hbelowId)
    · exact Or.inr ⟨_, hnode, child, hchild, below, hin, hid, hbelowId⟩

/-- What stands above another in a part of a tree does so in the tree. -/
theorem StandsAbove.mono {tree node : Segment NodeId} {above below : NodeId}
    (h : node.StandsAbove above below) (hnode : node ∈ tree.nodes) :
    tree.StandsAbove above below := by
  rcases h with ⟨top, htop, hrest⟩
  exact ⟨top, mem_nodes_trans hnode htop, hrest⟩

/-- A path to a change ends there, and all that it comes through in a tree stand above. -/
theorem exists_of_mem_affectedPaths {changed above path : List NodeId} {tree : Segment NodeId}
    (h : path ∈ affectedPaths changed above tree) :
    ∃ inner target, path = above ++ inner ++ [target] ∧ target ∈ changed ∧ target ∈ tree.ids ∧
      ∀ id ∈ inner, tree.StandsAbove id target := by
  induction tree generalizing above path with
  | missing =>
    rw [affectedPaths] at h
    cases h
  | leaf head =>
    rw [affectedPaths] at h
    split at h
    · rename_i hchanged
      rw [List.mem_singleton] at h
      exact ⟨[], head.id, by simp [h], hchanged, List.mem_singleton_self _, by simp⟩
    · cases h
  | branch head children ih =>
    rw [affectedPaths] at h
    have hself : head.id ∈ (branch head children).ids := mem_ids (mem_nodes_self _) rfl
    rcases List.mem_append.mp h with h | h
    · split at h
      · rename_i hchanged
        rw [List.mem_singleton] at h
        exact ⟨[], head.id, by simp [h], hchanged, hself, by simp⟩
      · cases h
    · rcases mem_affectedPathsList.mp h with ⟨child, hchild, hpath⟩
      rcases ih child hchild hpath with ⟨inner, target, rfl, hchanged, htarget, habove⟩
      have hmem : child ∈ (branch head children).nodes :=
        mem_nodes_branch.mpr (Or.inr ⟨child, hchild, mem_nodes_self child⟩)
      rcases List.mem_filterMap.mp htarget with ⟨last, hlast, hlastId⟩
      refine ⟨head.id :: inner, target, by simp, hchanged,
        Segment.mem_ids (mem_nodes_trans hmem hlast) hlastId, ?_⟩
      rw [List.forall_mem_cons]
      exact ⟨⟨_, mem_nodes_self _, child, hchild, last, hlast, rfl, hlastId⟩,
        fun id hid => (habove id hid).mono hmem⟩

end Segment

namespace Cache

/-! ## A compilation with room for all texts -/

/-- There is room for all texts, and what stands below a node with a text has one too. -/
structure Stocked (cache : Cache) (tree : Segment NodeId) (options : CompileOptions)
    (all : List CacheKey) : Prop where
  room : cache.Roomy all
  below : ∀ node ∈ tree.nodes, ∀ id, node.id? = some id → cache.text? (.of id options) ≠ none →
    ∀ other ∈ node.ids, cache.text? (.of other options) ≠ none

/-- A cache that is stocked has all texts of another, and those of some identifiers. -/
structure Fills (after before : Cache) (tree : Segment NodeId) (options : CompileOptions)
    (all : List CacheKey) (ids : List NodeId) : Prop where
  stocked : after.Stocked tree options all
  keeps : ∀ key, before.text? key ≠ none → after.text? key ≠ none
  texts : ∀ id ∈ ids, after.text? (.of id options) ≠ none

section Stocked

variable {tree node : Segment NodeId} {options : CompileOptions} {all : List CacheKey}

/-- With the same texts and room the cache is as stocked as it was. -/
theorem Stocked.of_text?_eq {cache after : Cache} (h : cache.Stocked tree options all)
    (hroom : after.Roomy all) (htexts : ∀ key, after.text? key = cache.text? key) :
    after.Stocked tree options all := by
  refine ⟨hroom, fun node hnode id hid hfound other hother => ?_⟩
  rw [htexts] at hfound ⊢
  exact h.below node hnode id hid hfound other hother

/-- A cache is stocked with the text of a node in addition if it has those of all nodes below. -/
theorem Stocked.set {cache : Cache} (h : cache.Stocked tree options all)
    (hdistinct : tree.ids.Nodup) (hall : ∀ id ∈ tree.ids, CacheKey.of id options ∈ all)
    (hnode : node ∈ tree.nodes) {id : NodeId} (hid : node.id? = some id) (text : Text)
    (hbelow : ∀ other ∈ node.ids, other ≠ id → cache.text? (.of other options) ≠ none) :
    (cache.set (.of id options) text).Fills cache tree options all node.ids := by
  have hkey := hall id (Segment.mem_ids hnode hid)
  have htexts := h.room.text?_set hkey text
  have hkeeps : ∀ key, cache.text? key ≠ none →
      (cache.set (.of id options) text).text? key ≠ none := by
    intro key hfound
    rw [htexts]
    split
    · exact Option.some_ne_none text
    · exact hfound
  have hnodes : ∀ other ∈ node.ids,
      (cache.set (.of id options) text).text? (.of other options) ≠ none := by
    intro other hother
    by_cases heq : other = id
    · rw [htexts, heq, if_pos rfl]
      exact Option.some_ne_none text
    · exact hkeeps _ (hbelow other hother heq)
  refine ⟨⟨h.room.set hkey text, fun found hfound foundId hfoundId htext other hother => ?_⟩,
    hkeeps, hnodes⟩
  by_cases heq : foundId = id
  · subst heq
    rw [Segment.eq_of_id?_eq hdistinct hfound hnode hfoundId hid] at hother
    exact hnodes other hother
  · have hne : CacheKey.of id options ≠ CacheKey.of foundId options := fun hsame =>
      heq (congrArg CacheKey.id hsame).symm
    rw [htexts, if_neg hne] at htext
    exact hkeeps _ (h.below found hfound foundId hfoundId htext other hother)

/-- What fills a cache fills one that has fewer texts. -/
theorem Fills.of_keeps {after before first : Cache} {ids : List NodeId}
    (h : after.Fills before tree options all ids)
    (hkeeps : ∀ key, first.text? key ≠ none → before.text? key ≠ none) :
    after.Fills first tree options all ids :=
  ⟨h.stocked, fun key hkey => h.keeps key (hkeeps key hkey), h.texts⟩

variable (hdistinct : tree.ids.Nodup) (hrenders : ∀ node ∈ tree.nodes, node.RendersItself)
  (hall : ∀ id ∈ tree.ids, CacheKey.of id options ∈ all)

include hrenders in
/-- The compilation of children leaves the texts of all their nodes, if that of each child does. -/
theorem Stocked.compileChildren (parent : NodeId) {children : List (Segment NodeId)}
    (hchildren : ∀ child ∈ children, child ∈ tree.nodes)
    (hcompile : ∀ child ∈ children, ∀ cache : Cache, cache.Stocked tree options all →
      (compileTree options child cache).2.Fills cache tree options all child.ids)
    {cache : Cache} (h : cache.Stocked tree options all) :
    (Cache.compileChildren options parent children cache).2.Fills cache tree options all
      ((Segment.nodesList children).filterMap Segment.id?) := by
  induction children generalizing cache with
  | nil =>
    rw [Cache.compileChildren]
    exact ⟨h, fun _ hkey => hkey, fun id hid => absurd hid List.not_mem_nil⟩
  | cons child rest ih =>
    rw [List.forall_mem_cons] at hchildren hcompile
    have hdepend : ∀ key, (cache.dependOn parent child).text? key = cache.text? key :=
      fun key => by rw [text?, entries_dependOn, text?]
    have hbefore := h.of_text?_eq (h.room.dependOn parent child) hdepend
    have hfirst := hcompile.1 _ hbefore
    rcases exists_compileTree options
      (fun node hnode => hrenders node (Segment.mem_nodes_trans hchildren.1 hnode))
      (cache.dependOn parent child) with ⟨text, middle, hresult⟩
    rw [hresult] at hfirst
    have hrest := ih hchildren.2 hcompile.2 hfirst.stocked
    have hafter : (Cache.compileChildren options parent (child :: rest) cache).2 =
        (Cache.compileChildren options parent rest middle).2 := by
      rw [Cache.compileChildren, hresult]
      dsimp only
      rcases Cache.compileChildren options parent rest middle with ⟨e | texts, last⟩ <;> rfl
    rw [hafter]
    refine ⟨hrest.stocked, fun key hkey => ?_, fun id hid => ?_⟩
    · exact hrest.keeps key (hfirst.keeps key (by rwa [hdepend]))
    · rw [Segment.nodesList, List.filterMap_append, List.mem_append] at hid
      rcases hid with hid | hid
      · exact hrest.keeps _ (hfirst.texts id hid)
      · exact hrest.texts id hid

include hall in
/-- A cache is as stocked after a look-up. -/
theorem Stocked.get {cache : Cache} (h : cache.Stocked tree options all) (hnode : node ∈ tree.nodes)
    {id : NodeId} (hid : node.id? = some id) :
    (cache.get (.of id options)).2.Stocked tree options all :=
  h.of_text?_eq (h.room.get (hall id (Segment.mem_ids hnode hid))) (text?_get cache _)

include hall in
/-- A node that is found has the texts of all nodes below it. -/
theorem Stocked.fills_get {cache : Cache} (h : cache.Stocked tree options all)
    (hnode : node ∈ tree.nodes) {id : NodeId} (hid : node.id? = some id)
    (hfound : cache.text? (.of id options) ≠ none) :
    (cache.get (.of id options)).2.Fills cache tree options all node.ids := by
  refine ⟨h.get hall hnode hid, fun key hkey => ?_, fun other hother => ?_⟩
  · rwa [text?_get]
  · rw [text?_get]
    exact h.below node hnode id hid hfound other hother

include hdistinct hrenders hall

/-- To finish a node, when those below it have their texts, leaves its text. -/
theorem Stocked.finish {cache : Cache} (h : cache.Stocked tree options all)
    (hnode : node ∈ tree.nodes) {head : Head NodeId} (hhead : node.head? = some head)
    (hbelow : ∀ other ∈ node.ids, other ≠ head.id → cache.text? (.of other options) ≠ none)
    (inner : Text) :
    (Cache.finish options head inner cache).2.Fills cache tree options all node.ids := by
  rcases hrenders node hnode head hhead inner with ⟨text, htext⟩
  have hid : node.id? = some head.id := by simp [Segment.id?, hhead]
  rw [Cache.finish, htext]
  exact h.set hdistinct hall hnode hid text hbelow

/-- Where there is room for all texts, a compilation leaves the text of each node. -/
theorem Stocked.compileTree (hnode : node ∈ tree.nodes) {cache : Cache}
    (h : cache.Stocked tree options all) :
    (Cache.compileTree options node cache).2.Fills cache tree options all node.ids := by
  induction node generalizing cache with
  | missing =>
    rw [Cache.compileTree]
    exact ⟨h, fun _ hkey => hkey, fun id hid => absurd hid List.not_mem_nil⟩
  | leaf head =>
    rw [Cache.compileTree, get_eq]
    cases hfound : cache.text? (.of head.id options) with
    | some text => exact h.fills_get hall hnode rfl (by simp [hfound])
    | none =>
      have hself : ∀ other ∈ (Segment.leaf head).ids, other = head.id :=
        fun other hother => List.mem_singleton.mp hother
      refine ((h.get hall hnode rfl).finish hdistinct hrenders hall hnode rfl ?_ []).of_keeps ?_
      · exact fun other hother hne => absurd (hself other hother) hne
      · exact fun key hkey => by rwa [text?_get]
  | branch head children ih =>
    rw [Cache.compileTree, get_eq]
    cases hfound : cache.text? (.of head.id options) with
    | some text => exact h.fills_get hall hnode rfl (by simp [hfound])
    | none =>
      have hmem : ∀ child ∈ children, child ∈ tree.nodes :=
        fun child hchild => Segment.mem_nodes_of_mem_children hnode hchild
      have hbelow := (h.get hall hnode rfl).compileChildren hrenders head.id hmem
        fun child hchild cache hcache => ih child hchild (hmem child hchild) hcache
      have hids : ∀ other ∈ (Segment.branch head children).ids, other ≠ head.id →
          other ∈ (Segment.nodesList children).filterMap Segment.id? :=
        fun other hother hne => (List.mem_cons.mp hother).resolve_left hne
      rcases hresult : Cache.compileChildren options head.id children
        (cache.get (.of head.id options)).2 with ⟨e | inner, after⟩
      · -- All nodes can be written, so the children have a text.
        rcases exists_compileTree options
          (fun below hbelow => hrenders below (Segment.mem_nodes_trans hnode hbelow)) cache with
          ⟨text, last, hok⟩
        rw [Cache.compileTree, get_eq, hfound] at hok
        simp only [hresult] at hok
        cases hok
      · rw [hresult] at hbelow
        simp only [hresult]
        refine (hbelow.stocked.finish hdistinct hrenders hall hnode rfl ?_ inner).of_keeps ?_
        · exact fun other hother hne => hbelow.texts other (hids other hother hne)
        · exact fun key hkey => hbelow.keeps key (by rwa [text?_get])

end Stocked

/-! ## The first request -/

/-- A cache has the texts of all nodes of a tree and room for others, and no dependencies but those
of nodes on their children. -/
structure Complete (cache : Cache) (tree : Segment NodeId) (options : CompileOptions)
    (all : List CacheKey) : Prop where
  serves : cache.Serves tree
  room : cache.Roomy all
  texts : ∀ id ∈ tree.ids, cache.text? (.of id options) ≠ none

/-- A request leaves in an empty cache the texts of all nodes, if there is room for them. -/
theorem complete_incremental {request : Request} (hregular : request.Regular)
    {options : CompileOptions}
    (hoptions : request.surroundings.optionsFor request.options = .ok options) {size : Int}
    {all : List CacheKey} (hall : ∀ id ∈ request.root.ids, CacheKey.of id options ∈ all)
    (hsize : (all.length : Int) ≤ size) :
    ((empty size).incremental request.surroundings request.options request.changed
      request.root).2.Complete request.root options all := by
  have hplain := hregular.expandWildcards_eq hoptions
  have hroot := Segment.mem_nodes_self request.root
  have hempty : (empty size).Stocked request.root options all := by
    refine ⟨⟨?_, fun key hkey => absurd hkey List.not_mem_nil, List.nodup_nil⟩, ?_⟩
    · show all.length ≤ max 1 size.toNat
      omega
    · exact fun node _ id _ hfound => absurd rfl hfound
  have hfills := hempty.compileTree hregular.distinct hregular.renders hall hroot
  rw [incremental_eq hoptions hplain hregular.whole, invalidateChanged_empty]
  exact ⟨(compilation_serves request.root options).compileTree _ hroot (serves_empty size _),
    hfills.stocked.room, hfills.texts⟩

/-! ## What an edit touches -/

/-- What an edit touches: what changed in the new tree, what stands above that, and what stood
below it in the old tree. -/
def Request.Touches (request earlier : Request) (id : NodeId) : Prop :=
  ∃ target ∈ request.changed, target ∈ request.root.ids ∧
    (id = target ∨ request.root.StandsAbove id target ∨ earlier.root.StandsAbove target id)

instance (request earlier : Request) : DecidablePred (request.Touches earlier) := fun id =>
  inferInstanceAs (Decidable (∃ target ∈ request.changed, target ∈ request.root.ids ∧
    (id = target ∨ request.root.StandsAbove id target ∨ earlier.root.StandsAbove target id)))

/-- Invalidation forgets the trees below the changes, and the texts of what stands above them. -/
theorem mem_invalidationSteps {request : Request} {op : Operation}
    (hop : op ∈ invalidationSteps request) :
    ∃ target ∈ request.changed, target ∈ request.root.ids ∧
      (op = .invalidateTree target ∨
        ∃ id, request.root.StandsAbove id target ∧ op = .invalidate id) := by
  rcases List.mem_flatMap.mp hop with ⟨path, hpath, hstep⟩
  rcases Segment.exists_of_mem_affectedPaths hpath with
    ⟨inner, target, rfl, hchanged, htarget, habove⟩
  refine ⟨target, hchanged, htarget, ?_⟩
  rw [pathSteps, List.nil_append, List.getLast?_concat, List.dropLast_concat] at hstep
  rcases List.mem_cons.mp hstep with rfl | hstep
  · exact Or.inl rfl
  · rcases List.mem_map.mp hstep with ⟨id, hid, rfl⟩
    exact Or.inr ⟨id, habove id hid, rfl⟩

/-- What a tree has and an edit does not touch was there before. -/
theorem Request.Reports.mem_ids {request earlier : Request} (h : request.Reports earlier)
    {id : NodeId} (hid : id ∈ request.root.ids) (huntouched : ¬request.Touches earlier id) :
    id ∈ earlier.root.ids := by
  rcases List.mem_filterMap.mp hid with ⟨node, hnode, hnodeId⟩
  have hunchanged : id ∉ request.changed := fun hchanged =>
    huntouched ⟨id, hchanged, hid, Or.inl rfl⟩
  rcases h node hnode id hnodeId hunchanged with ⟨former, hformer, hsame, -⟩
  exact Segment.mem_ids hformer (hsame.trans hnodeId)

/-! ## Invalidation -/

/-- A cache has room, and the texts that it had for what an edit does not touch. -/
structure KeepsUntouched (cache before : Cache) (request earlier : Request)
    (options : CompileOptions) (all : List CacheKey) : Prop where
  room : cache.Roomy all
  texts : ∀ id ∈ earlier.root.ids, ¬request.Touches earlier id →
    cache.text? (.of id options) = before.text? (.of id options)

section Invalidation

variable {cache before : Cache} {request earlier : Request} {options : CompileOptions}
  {all : List CacheKey} (h : cache.KeepsUntouched before request earlier options all)
  (hserves : cache.Serves earlier.root)

include h hserves

/-- The invalidation of a segment that is touched forgets no text of an untouched one. -/
theorem KeepsUntouched.invalidate {id : NodeId} (hid : request.Touches earlier id) :
    (cache.invalidate id).KeepsUntouched before request earlier options all := by
  refine ⟨invalidate_induction (motive := fun cache => cache.Roomy all)
    (fun _ key hcache => hcache.drop key) (fun _ id hcache => hcache.forget id) id h.room, ?_⟩
  intro other hother huntouched
  rw [← h.texts other hother huntouched]
  refine text?_invalidate hserves.filed ?_
  rintro rfl
  exact huntouched hid

/-- The invalidation of a tree forgets what stood below its root in the old tree, which is
touched where its root is a change. -/
theorem KeepsUntouched.invalidateTree (hdistinct : earlier.root.ids.Nodup) {target : NodeId}
    (hchanged : target ∈ request.changed) (htarget : target ∈ request.root.ids)
    (hnamed : target.isEmpty = false) :
    (cache.invalidateTree target).KeepsUntouched before request earlier options all := by
  refine ⟨invalidateTree_induction (motive := fun cache => cache.Roomy all)
    (fun _ key hcache => hcache.drop key) (fun _ id hcache => hcache.forget id) target h.room, ?_⟩
  intro id hid huntouched
  rw [← h.texts id hid huntouched]
  refine invalidateTree_of_not_reaches hserves.indexed hserves.filed hnamed ?_ rfl
  intro hreaches
  refine huntouched ⟨target, hchanged, htarget, ?_⟩
  rcases Relation.ReflTransGen.cases_head hreaches with rfl | ⟨first, hedge, -⟩
  · exact Or.inl rfl
  · -- Dependencies are those of the old tree, whatever stands below the change in the new one.
    rcases hserves.traced _ _ hedge with ⟨node, hnode, -, -, hnodeId, -⟩
    rcases List.mem_filterMap.mp hid with ⟨below, hbelow, hbelowId⟩
    have hin := hserves.mem_nodes_of_reaches hdistinct hnode hbelow hnodeId hbelowId hreaches
    rcases Segment.eq_or_standsAbove hnode hin hnodeId hbelowId with heq | habove
    · exact Or.inl heq.symm
    · exact Or.inr (Or.inr habove)

end Invalidation

/-- All steps of invalidation keep the texts of what is untouched. -/
theorem KeepsUntouched.apply_of_mem {cache before : Cache} {request earlier : Request}
    {options : CompileOptions} {all : List CacheKey}
    (h : cache.Serves earlier.root ∧ cache.KeepsUntouched before request earlier options all)
    (hdistinct : earlier.root.ids.Nodup) (hnamed : ∀ id ∈ request.root.ids, id.isEmpty = false)
    {op : Operation} (hop : op ∈ invalidationSteps request) :
    (cache.apply op).Serves earlier.root ∧
      (cache.apply op).KeepsUntouched before request earlier options all := by
  rcases mem_invalidationSteps hop with ⟨target, hchanged, htarget, rfl | ⟨id, habove, rfl⟩⟩
  · exact ⟨invalidateTree_induction (motive := fun cache => cache.Serves earlier.root)
      (fun _ key hcache => hcache.drop key) (fun _ id hcache => hcache.forget id) target h.1,
      h.2.invalidateTree h.1 hdistinct hchanged htarget (hnamed target htarget)⟩
  · exact ⟨invalidate_induction (motive := fun cache => cache.Serves earlier.root)
      (fun _ key hcache => hcache.drop key) (fun _ id hcache => hcache.forget id) id h.1,
      h.2.invalidate h.1 ⟨target, hchanged, htarget, Or.inr (Or.inl habove)⟩⟩

/-! ## The second request -/

/-- A step of the compilation keeps the texts of what is untouched, if it keeps none for them. -/
theorem KeepsUntouched.apply_of_compileStep {cache before : Cache} {request earlier : Request}
    {options : CompileOptions} {all : List CacheKey}
    (h : cache.KeepsUntouched before request earlier options all)
    (hall : ∀ id ∈ request.root.ids, CacheKey.of id options ∈ all) {op : Operation}
    (hop : CompileStep request.root options (request.Touches earlier) op) :
    (cache.apply op).KeepsUntouched before request earlier options all := by
  cases op with
  | get key =>
    rcases hop with ⟨id, hid, rfl⟩
    exact ⟨h.room.get (hall id hid), fun other hother huntouched => by
      rw [Cache.apply, text?_get, h.texts other hother huntouched]⟩
  | set key text =>
    rcases hop with ⟨id, hid, htouched, rfl⟩
    refine ⟨h.room.set (hall id hid) text, fun other hother huntouched => ?_⟩
    have hne : CacheKey.of id options ≠ CacheKey.of other options := by
      intro hsame
      have heq : id = other := congrArg CacheKey.id hsame
      exact huntouched (heq ▸ htouched)
    rw [Cache.apply, h.room.text?_set (hall id hid), if_neg hne, h.texts other hother huntouched]
  | depend parent child =>
    exact ⟨h.room.depend parent child, fun other hother huntouched => by
      rw [Cache.apply, text?_depend, h.texts other hother huntouched]⟩
  | invalidate id | invalidateTree id | clear => exact hop.elim

/-- A second request for an edited tree reuses what the edit does not touch. -/
structure Reuses (before : Cache) (request earlier : Request) (options : CompileOptions) :
    Prop where
  /-- What the request does with the cache are its steps. -/
  run : (before.incremental request.surroundings request.options request.changed
    request.root).2 = before.applyAll (requestSteps request before)
  /-- Only what is touched is looked up and not found. -/
  missed : ∀ key ∈ missed before (requestSteps request before), request.Touches earlier key.id
  /-- What is not touched has a text, which is there from the first step to the last. -/
  stays : ∀ id, id ∈ earlier.root.ids ∨ id ∈ request.root.ids → ¬request.Touches earlier id →
    ∃ text, ∀ done, done <+: requestSteps request before →
      (before.applyAll done).text? (.of id options) = some text
  /-- Only for what is touched a text is kept. -/
  kept : ∀ key text, .set key text ∈ requestSteps request before → request.Touches earlier key.id
  /-- So no more look-ups are in vain than there are nodes of the new tree that are touched. -/
  misses : (before.incremental request.surroundings request.options request.changed
      request.root).2.misses ≤
    before.misses + (request.root.ids.filter fun id => request.Touches earlier id).length

section Second

variable {before : Cache} {request earlier : Request} {options : CompileOptions}
  {all : List CacheKey} (hbefore : before.Complete earlier.root options all)
  (hearlier : earlier.Regular) (hregular : request.Regular) (hreports : request.Reports earlier)
  (hoptions : request.surroundings.optionsFor request.options = .ok options)
  (hall : ∀ id ∈ request.root.ids, CacheKey.of id options ∈ all)

include hbefore

/-- At first a complete cache has the texts that it has. -/
theorem Complete.keepsUntouched :
    before.Serves earlier.root ∧ before.KeepsUntouched before request earlier options all :=
  ⟨hbefore.serves, hbefore.room, fun _ _ _ => rfl⟩

/-- An untouched node of the new tree is found where the untouched have their texts. -/
theorem Complete.touches_of_text?_eq_none (hreports : request.Reports earlier) {cache : Cache}
    (h : cache.KeepsUntouched before request earlier options all) {id : NodeId}
    (hid : id ∈ request.root.ids) (hnone : cache.text? (.of id options) = none) :
    request.Touches earlier id := by
  by_contra huntouched
  have hold := hreports.mem_ids hid huntouched
  rw [h.texts id hold huntouched] at hnone
  exact hbefore.texts id hold hnone

include hearlier hregular

/-- What is untouched keeps its text throughout the invalidation. -/
theorem Complete.keepsUntouched_invalidation {done : List Operation}
    (hdone : done <+: invalidationSteps request) :
    (before.applyAll done).KeepsUntouched before request earlier options all :=
  (applyAll_induction (motive := fun cache => cache.Serves earlier.root ∧
      cache.KeepsUntouched before request earlier options all)
    (fun _ hop _ hcache => KeepsUntouched.apply_of_mem hcache hearlier.distinct hregular.named
      (hdone.subset hop)) hbefore.keepsUntouched).2

/-- What is untouched has its text where the compilation begins. -/
theorem Complete.keepsUntouched_invalidateChanged :
    (before.invalidateChanged request).KeepsUntouched before request earlier options all := by
  rw [← applyAll_invalidationSteps]
  exact hbefore.keepsUntouched_invalidation hearlier hregular (List.prefix_refl _)

include hreports hall

/-- The compilation keeps texts for what is touched only. -/
theorem Complete.compileStep {op : Operation}
    (hop : op ∈ treeSteps options request.root (before.invalidateChanged request)) :
    CompileStep request.root options (request.Touches earlier) op :=
  compileStep_treeSteps (fun _ hop _ hcache => KeepsUntouched.apply_of_compileStep hcache hall hop)
    (fun _ hid _ hcache hnone => hbefore.touches_of_text?_eq_none hreports hcache hid hnone)
    (Segment.mem_nodes_self request.root)
    (hbefore.keepsUntouched_invalidateChanged hearlier hregular) op hop

include hoptions

/-- What is untouched keeps its text throughout the request. -/
theorem Complete.keepsUntouched_requestSteps {done : List Operation}
    (hdone : done <+: requestSteps request before) :
    (before.applyAll done).KeepsUntouched before request earlier options all := by
  rw [hregular.requestSteps_eq hoptions] at hdone
  rcases List.prefix_or_prefix_of_prefix hdone (List.prefix_append _ _) with hearly | ⟨later, rfl⟩
  · exact hbefore.keepsUntouched_invalidation hearlier hregular hearly
  · -- The invalidation is over, and the rest is a part of the compilation.
    have hlater := (List.prefix_append_right_inj _).mp hdone
    rw [applyAll_append, applyAll_invalidationSteps]
    exact applyAll_induction
      (motive := fun cache => cache.KeepsUntouched before request earlier options all)
      (fun _ hop _ hcache => hcache.apply_of_compileStep hall
        (hbefore.compileStep hearlier hregular hreports hall (hlater.subset hop)))
      (hbefore.keepsUntouched_invalidateChanged hearlier hregular)

/-- What is looked up in vain is touched. -/
theorem Complete.touches_of_mem_missed {key : CacheKey}
    (hkey : key ∈ missed before (requestSteps request before)) :
    request.Touches earlier key.id := by
  have hinvalidation : missed before (invalidationSteps request) = [] := by
    have hsublist := missed_sublist before (invalidationSteps request)
    rwa [lookedUp_invalidationSteps, List.sublist_nil] at hsublist
  rw [hregular.requestSteps_eq hoptions, missed_append, hinvalidation, List.nil_append,
    applyAll_invalidationSteps] at hkey
  exact kept_of_mem_missed
    (fun _ hop _ hcache => KeepsUntouched.apply_of_compileStep hcache hall hop)
    (fun _ hid _ hcache hnone => hbefore.touches_of_text?_eq_none hreports hcache hid hnone)
    (fun _ hop => hbefore.compileStep hearlier hregular hreports hall hop)
    (hbefore.keepsUntouched_invalidateChanged hearlier hregular) hkey

/-- There are no more of them than nodes of the new tree that are touched. -/
theorem Complete.length_missed_le :
    (missed before (requestSteps request before)).length ≤
      (request.root.ids.filter fun id => request.Touches earlier id).length := by
  have hlooked := missed_sublist before (requestSteps request before)
  rw [hregular.requestSteps_eq hoptions, List.filterMap_append, lookedUp_invalidationSteps,
    List.nil_append, ← hregular.requestSteps_eq hoptions] at hlooked
  have hids : ((missed before (requestSteps request before)).map (·.id)).Sublist
      request.root.ids := by
    have hkeys := (hlooked.trans (lookedUp_treeSteps_sublist _ _ _)).map CacheKey.id
    simpa [CacheKey.of, Function.comp_def] using hkeys
  have htouched : ∀ id ∈ (missed before (requestSteps request before)).map (·.id),
      request.Touches earlier id := by
    intro id hid
    rcases List.mem_map.mp hid with ⟨key, hkey, rfl⟩
    exact hbefore.touches_of_mem_missed hearlier hregular hreports hoptions hall hkey
  have hfilter := hids.filter fun id => decide (request.Touches earlier id)
  rw [List.filter_eq_self.mpr (by simpa using htouched)] at hfilter
  simpa using hfilter.length_le

/-- A step of the request is one of invalidation, or one of the compilation, which keeps texts for
what is touched only. -/
theorem Complete.cases_of_mem_requestSteps {op : Operation}
    (hop : op ∈ requestSteps request before) :
    (∃ id, op = .invalidateTree id ∨ op = .invalidate id) ∨
      CompileStep request.root options (request.Touches earlier) op := by
  rw [hregular.requestSteps_eq hoptions] at hop
  rcases List.mem_append.mp hop with hop | hop
  · rcases mem_invalidationSteps hop with ⟨target, -, -, rfl | ⟨id, -, rfl⟩⟩
    · exact Or.inl ⟨target, Or.inl rfl⟩
    · exact Or.inl ⟨id, Or.inr rfl⟩
  · exact Or.inr (hbefore.compileStep hearlier hregular hreports hall hop)

/-- With a complete cache the second request reuses what the edit does not touch. -/
theorem Complete.reuses : before.Reuses request earlier options := by
  have hrun := (applyAll_requestSteps request before).symm
  have hcases : ∀ op ∈ requestSteps request before,
      (∃ id, op = .invalidateTree id ∨ op = .invalidate id) ∨
        CompileStep request.root options (request.Touches earlier) op :=
    fun op hop => hbefore.cases_of_mem_requestSteps hearlier hregular hreports hoptions hall hop
  refine ⟨hrun, fun key hkey => ?_, fun id hid huntouched => ?_, fun key text hop => ?_, ?_⟩
  · exact hbefore.touches_of_mem_missed hearlier hregular hreports hoptions hall hkey
  · have hold : id ∈ earlier.root.ids :=
      hid.elim (fun h => h) fun h => hreports.mem_ids h huntouched
    rcases Option.ne_none_iff_exists'.mp (hbefore.texts id hold) with ⟨text, htext⟩
    refine ⟨text, fun done hdone => ?_⟩
    have hkept := hbefore.keepsUntouched_requestSteps hearlier hregular hreports hoptions hall hdone
    rw [hkept.texts id hold huntouched, htext]
  · rcases hcases _ hop with ⟨id, hset | hset⟩ | ⟨id, -, htouched, rfl⟩
    · cases hset
    · cases hset
    · exact htouched
  · have hclear : ∀ op ∈ requestSteps request before, op.isClear = false := by
      intro op hop
      rcases hcases op hop with ⟨id, rfl | rfl⟩ | hstep
      · rfl
      · rfl
      · cases op with
        | clear => exact hstep.elim
        | get _ | set _ _ | depend _ _ | invalidate _ | invalidateTree _ => rfl
    rw [hrun, misses_applyAll before hclear]
    have hlength := hbefore.length_missed_le hearlier hregular hreports hoptions hall
    omega

end Second

/-- After a tree was compiled with an empty cache that has room for the texts of two trees, a
request for a second tree, which reports what changed, looks up in vain only what the edit touches:
the changed nodes with those above them in the second tree, and what stood below them in the first.
All other texts stay in the cache, and none of them is kept anew. -/
theorem incremental_reuses {earlier request : Request} (hearlier : earlier.Regular)
    (hregular : request.Regular) (hreports : request.Reports earlier) {options : CompileOptions}
    (hoptions : earlier.surroundings.optionsFor earlier.options = .ok options)
    (hoptions' : request.surroundings.optionsFor request.options = .ok options) {size : Int}
    (hsize : (earlier.root.nodes.length + request.root.nodes.length : Nat) ≤ size) :
    ((empty size).incremental earlier.surroundings earlier.options earlier.changed
      earlier.root).2.Reuses request earlier options := by
  have hall : ∀ id ∈ earlier.root.ids ++ request.root.ids, CacheKey.of id options ∈
      (earlier.root.ids ++ request.root.ids).map fun id => .of id options :=
    fun id hid => List.mem_map_of_mem hid
  have hroom : (((earlier.root.ids ++ request.root.ids).map fun id =>
      CacheKey.of id options).length : Int) ≤ size := by
    have hfirst : earlier.root.ids.length ≤ earlier.root.nodes.length :=
      List.length_filterMap_le _ _
    have hsecond : request.root.ids.length ≤ request.root.nodes.length :=
      List.length_filterMap_le _ _
    rw [List.length_map, List.length_append]
    omega
  have hcomplete := complete_incremental hearlier hoptions
    (fun id hid => hall id (List.mem_append_left _ hid)) hroom
  exact hcomplete.reuses hearlier hregular hreports hoptions'
    fun id hid => hall id (List.mem_append_right _ hid)

/-- A text moves from one span to another beside it: what they touch are the spans, the root above
them and the text, but not the text after them. -/
theorem incremental_reuses_moved :
    let text (id : String) : Segment NodeId := .leaf ⟨.named id, .text (some ['a']), none⟩
    let span (id : String) (children : List (Segment NodeId)) : Segment NodeId :=
      .branch ⟨.named id, .weighted (.valid .increase) (.valid 2), none⟩ children
    let root (first second : List (Segment NodeId)) : Segment NodeId :=
      .branch ⟨.named "r", .text (some []), none⟩ [span "v" first, span "w" second, text "u"]
    let request (root : Segment NodeId) (changed : List NodeId) : Request :=
      ⟨⟨.ok {}, 0⟩, root, changed, some ⟨false, none, 50⟩⟩
    let earlier := request (root [text "t"] []) []
    let later := request (root [] [text "t"]) [.named "v", .named "w"]
    earlier.Regular ∧ later.Regular ∧ later.Reports earlier ∧
      (later.root.ids.filter fun id => later.Touches earlier id) =
        [.named "r", .named "v", .named "w", .named "t"] ∧
      ((empty 10).incremental earlier.surroundings earlier.options earlier.changed
        earlier.root).2.Reuses later earlier ⟨false, none, 50⟩ := by
  intro text span root request earlier later
  have hregular : ∀ request ∈ [earlier, later], request.Regular := by
    intro request hrequest
    rcases List.mem_pair.mp hrequest with rfl | rfl
    all_goals
      refine ⟨by decide, by decide, by decide, ?_, ⟨_, rfl, rfl⟩⟩
      intro node hnode head hhead inner
      simp only [earlier, later, request, root, span, text, Segment.nodes, Segment.nodesList,
        List.append_nil, List.cons_append, List.nil_append, List.mem_cons, List.not_mem_nil,
        or_false] at hnode
      rcases hnode with rfl | rfl | rfl | rfl | rfl
      all_goals
        cases hhead
        exact ⟨_, rfl⟩
  have hearlier := hregular earlier List.mem_cons_self
  have hlater := hregular later (List.mem_cons_of_mem _ List.mem_cons_self)
  have hreports : later.Reports earlier := by
    intro node hnode id hid hunchanged
    simp only [later, request, root, span, text, Segment.nodes, Segment.nodesList,
      List.append_nil, List.cons_append, List.nil_append, List.mem_cons, List.not_mem_nil,
      or_false] at hnode
    rcases hnode with rfl | rfl | rfl | rfl | rfl
    · exact ⟨earlier.root, Segment.mem_nodes_self _, rfl, rfl, rfl⟩
    · cases hid
      exact absurd hunchanged (by decide)
    · cases hid
      exact absurd hunchanged (by decide)
    · exact ⟨text "t", by simp [earlier, request, root, span, Segment.nodes, Segment.nodesList],
        rfl, rfl, rfl⟩
    · exact ⟨text "u", by simp [earlier, request, root, Segment.nodes, Segment.nodesList],
        rfl, rfl, rfl⟩
  exact ⟨hearlier, hlater, hreports, by decide +kernel,
    incremental_reuses hearlier hlater hreports rfl rfl (by decide)⟩

end Cache

end PromptMarkup
