import Mathlib.Logic.Function.Iterate
import PromptMarkup.Proofs.DependencyEntries
import PromptMarkup.Proofs.RecordedDependencies

/-!
# What the invalidation of a tree removes

The invalidation of a tree is a search that takes the graph apart while it follows it.  Before an
identifier is forgotten its dependencies are in the queue, and forgetting it takes no dependencies
but its own; so what the search still comes to is what the queue reaches past the visited
identifiers.  Every dependency is followed once at most, which bounds the search also where
dependencies run in a circle.

Main statements:

- {lit}`Search.exists_iterate_next`: the search ends after no more steps than there are identifiers
  in the queue and dependencies to follow.
- {lit}`entries_invalidateFrom` and {lit}`dependencies_invalidateFrom`: it removes the entries of
  what it visits, and leaves all others in their order.
- {lit}`invalidateTree_removesReached`: so after any run of operations and requests the
  invalidation of a tree removes what its root reaches, and nothing else.
-/

namespace PromptMarkup

namespace Cache

/-! ## The search -/

/-- A search under way: the identifiers that have been visited, those in the queue, and what is
left of the cache. -/
structure Search where
  seen : List NodeId
  queue : List NodeId
  cache : Cache

/-- Take the next identifier from the queue.  It is passed over if it has been visited; else its
dependencies that have not been visited go to the end of the queue, and it is invalidated. -/
def Search.next (search : Search) : Search :=
  match search.queue with
  | [] => search
  | id :: queue =>
    if id ∈ search.seen then { search with queue }
    else
      let children := (search.cache.dependenciesOf id).filter fun child =>
        child ∉ id :: search.seen
      ⟨id :: search.seen, queue ++ children, search.cache.invalidate id⟩

/-- The search empties its queue, after no more steps than there are identifiers in the queue and
dependencies of what has not been visited, and leaves what the invalidation leaves. -/
theorem Search.exists_iterate_next (seen queue : List NodeId) (cache : Cache) :
    ∃ count ≤ queue.length + openEdges seen cache.dependencies, ∃ visited,
      Search.next^[count] ⟨seen, queue, cache⟩ =
        ⟨visited, [], invalidateFrom seen queue cache⟩ := by
  fun_induction invalidateFrom seen queue cache with
  | case1 seen cache => exact ⟨0, Nat.zero_le _, seen, rfl⟩
  | case2 seen cache id queue hseen ih =>
    rcases ih with ⟨count, hcount, visited, hsteps⟩
    refine ⟨count + 1, ?_, visited, ?_⟩
    · rw [List.length_cons]
      omega
    · rw [Function.iterate_succ_apply, ← hsteps, Search.next]
      simp [hseen]
  | case3 seen cache id queue hseen children ih =>
    rcases ih with ⟨count, hcount, visited, hsteps⟩
    refine ⟨count + 1, ?_, visited, ?_⟩
    · -- The dependencies that come to the queue are no longer to be followed.
      have hvisit := openEdges_visit hseen cache.dependencies
      have hless := openEdges_le_of_sublist (id :: seen) (invalidate_dependencies_sublist cache id)
      have hfilter : children.length ≤ ((cache.dependencies.get? id).getD []).length :=
        List.length_filter_le _ _
      simp only [List.length_append, List.length_cons] at *
      omega
    · rw [Function.iterate_succ_apply, ← hsteps, Search.next]
      simp only [hseen, if_false]
      rfl

/-! ## Caches that can be searched -/

/-- A cache with an exact index, in which no identifier that another one depends on is empty. -/
structure Searchable (cache : Cache) : Prop where
  exact : cache.Exact
  named : ∀ parent child, cache.DependsOn parent child → child.isEmpty = false

/-- A cache that holds nothing can be searched. -/
theorem searchable_nil (capacity : Nat) : Searchable ⟨capacity, [], [], [], 0, 0⟩ :=
  ⟨exact_nil capacity, fun _ _ hedge => absurd hedge List.not_mem_nil⟩

namespace Searchable

variable {cache : Cache} (h : cache.Searchable)

include h

/-- It can be searched after a look-up. -/
theorem get (key : CacheKey) : (cache.get key).2.Searchable :=
  ⟨h.exact.get key, fun parent child hedge =>
    h.named parent child (by rwa [DependsOn, dependenciesOf_get] at hedge)⟩

/-- It can be searched after a dependency on an identifier that is not empty was recorded. -/
theorem depend (parent : NodeId) {child : NodeId} (hchild : child.isEmpty = false) :
    (cache.depend parent child).Searchable := by
  refine ⟨h.exact.depend parent child, fun above below hedge => ?_⟩
  rcases dependsOn_depend_iff.mp hedge with hold | ⟨-, rfl⟩
  · exact h.named above below hold
  · exact hchild

/-- It can be searched after a key was dropped. -/
theorem drop (key : CacheKey) : (cache.drop key).Searchable :=
  ⟨h.exact.drop key, fun parent child hedge => h.named parent child hedge.of_drop⟩

/-- It can be searched without the dependencies of a segment. -/
theorem forget (id : NodeId) :
    Searchable { cache with dependencies := cache.dependencies.erase id } :=
  ⟨h.exact.of_index_eq rfl fun _ => Iff.rfl, fun parent child hedge =>
    h.named parent child hedge.of_erase⟩

/-- It can be searched after a text was kept. -/
theorem set (key : CacheKey) (text : Text) : (cache.set key text).Searchable := by
  refine ⟨h.exact.set key text, fun parent child hedge => ?_⟩
  have hroom : cache.makeRoom.Searchable :=
    dropOldest_induction (motive := Searchable) (fun _ key _ _ _ hcache => hcache.drop key) _ h
  rcases set_cases cache key text with ⟨-, hset⟩ | ⟨-, hset⟩
  · rw [hset] at hedge
    exact h.named parent child hedge
  · rw [hset] at hedge
    exact hroom.named parent child hedge

/-- It can be searched after a segment was invalidated. -/
theorem invalidate (id : NodeId) : (cache.invalidate id).Searchable :=
  invalidate_induction (motive := Searchable) (fun _ key hcache => hcache.drop key)
    (fun _ id hcache => hcache.forget id) id h

/-- It can be searched after a tree was invalidated. -/
theorem invalidateTree (id : NodeId) : (cache.invalidateTree id).Searchable :=
  invalidateTree_induction (motive := Searchable) (fun _ key hcache => hcache.drop key)
    (fun _ id hcache => hcache.forget id) id h

/-- The dependencies of an identifier can come to a queue without an empty identifier. -/
theorem forall_mem_append_dependencies {queue : List NodeId}
    (hqueue : ∀ id ∈ queue, id.isEmpty = false) (id : NodeId) (p : NodeId → Bool) :
    ∀ child ∈ queue ++ (cache.dependenciesOf id).filter p, child.isEmpty = false := by
  intro child hchild
  rcases List.mem_append.mp hchild with hold | hnew
  · exact hqueue child hold
  · exact h.named id child (List.mem_filter.mp hnew).1

/-- It can be searched after the changes of a request were invalidated. -/
theorem invalidateChanged (request : Request) : (cache.invalidateChanged request).Searchable :=
  invalidateChanged_induction (motive := Searchable) (fun _ key hcache => hcache.drop key)
    (fun _ id hcache => hcache.forget id) request h

end Searchable

/-- The compilation of a tree without empty identifiers leaves a cache that can be searched. -/
theorem compilation_searchable {tree : Segment NodeId}
    (hnamed : ∀ id ∈ tree.ids, id.isEmpty = false) (options : CompileOptions) :
    Compilation tree options (fun _ cache => cache.Searchable)
      (fun _ cache => cache.Searchable) where
  hit _ _ _ _ _ h _ := h.get _
  miss _ _ _ _ _ h _ := h.get _
  enter node hnode child hchild id cache _ h := by
    unfold dependOn
    split
    · exact h
    · rename_i childId hchildId
      have hmem := Segment.mem_nodes_of_mem_children hnode hchild
      exact h.depend id (hnamed childId (Segment.mem_ids hmem hchildId))
  leave _ _ _ _ _ h := h
  keep _ _ _ _ text _ h := h.set _ text
  fail _ _ _ h := h

/-! ## Runs -/

/-- A use of a cache that makes nothing depend on an empty identifier: no operation does, and no
identifier of a tree is empty. -/
def Use.Named : Use → Prop
  | .operate (.depend _ child) => child.isEmpty = false
  | .operate _ => True
  | .compile request => ∀ id ∈ request.root.ids, id.isEmpty = false

instance : DecidablePred Use.Named
  | .operate (.depend _ child) => inferInstanceAs (Decidable (child.isEmpty = false))
  | .operate (.get _) | .operate (.set ..) | .operate (.invalidate _)
  | .operate (.invalidateTree _) | .operate .clear => inferInstanceAs (Decidable True)
  | .compile request => inferInstanceAs (Decidable (∀ id ∈ request.root.ids, id.isEmpty = false))

/-- A use leaves a cache that can be searched. -/
theorem Searchable.use {cache : Cache} (h : cache.Searchable) {item : Use} (hitem : item.Named) :
    (cache.use item).Searchable := by
  cases item with
  | compile request =>
    rw [Cache.use]
    rcases incremental_cases request cache with hsame | ⟨options, hoptions, hplain, hwhole⟩
    · rw [hsame]
      exact h
    · rw [incremental_eq hoptions hplain hwhole]
      exact (compilation_searchable hitem options).compileTree request.root
        (Segment.mem_nodes_self _) (h.invalidateChanged request)
  | operate op =>
    cases op with
    | get key => exact h.get key
    | set key text => exact h.set key text
    | depend parent child => exact h.depend parent hitem
    | invalidate id => exact h.invalidate id
    | invalidateTree id => exact h.invalidateTree id
    | clear => exact searchable_nil cache.capacity

/-- A run leaves a cache that can be searched. -/
theorem Searchable.useAll {cache : Cache} (h : cache.Searchable) {uses : List Use}
    (hnamed : ∀ item ∈ uses, item.Named) : (cache.useAll uses).Searchable := by
  induction uses generalizing cache with
  | nil => exact h
  | cons first rest ih =>
    rw [List.forall_mem_cons] at hnamed
    exact ih (h.use hnamed.1) hnamed.2

/-! ## What is removed -/

/-- The invalidation of a segment removes its dependencies and no others. -/
theorem Filed.dependencies_invalidate {cache : Cache} (h : cache.Filed) {id : NodeId}
    (hid : id.isEmpty = false) :
    (cache.invalidate id).dependencies = cache.dependencies.filter fun entry => entry.1 ≠ id := by
  have hfold : ∀ (keys : List CacheKey) (cache : Cache), (∀ key ∈ keys, key.id = id) →
      (keys.foldl Cache.drop cache).dependencies.erase id = cache.dependencies.erase id := by
    intro keys
    induction keys with
    | nil => exact fun _ _ => rfl
    | cons key rest ih =>
      intro cache hkeys
      rw [List.forall_mem_cons] at hkeys
      rw [List.foldl_cons, ih _ hkeys.2, Cache.drop]
      split
      · rfl
      · split
        · simp [Assoc.erase, hkeys.1]
        · rfl
  have hkeys := hfold (cache.keysOf id) cache (h id)
  simpa [Cache.invalidate, hid, keysOf, Assoc.erase] using hkeys

/-- What is not visited is neither the first in the queue nor visited after it. -/
theorem not_visits_cons_iff {cache : Cache} (hfiled : cache.Filed) {seen queue : List NodeId}
    {id other : NodeId} (hseen : id ∉ seen) :
    ¬cache.Visits seen (id :: queue) other ↔
      ¬(cache.invalidate id).Visits (id :: seen)
        (queue ++ (cache.dependenciesOf id).filter fun child => child ∉ id :: seen) other ∧
      other ≠ id := by
  rw [visits_cons_of_not_mem hfiled hseen, not_or, and_comm]

section Reached

open Classical

variable {cache : Cache} (h : cache.Searchable) {queue : List NodeId}
  (hqueue : ∀ id ∈ queue, id.isEmpty = false) (seen : List NodeId)

include h hqueue

/-- A search removes the entries of what it visits, and leaves all others in their order. -/
theorem entries_invalidateFrom :
    (invalidateFrom seen queue cache).entries =
      cache.entries.filter fun entry => ¬cache.Visits seen queue entry.1.id := by
  fun_induction invalidateFrom seen queue cache with
  | case1 seen cache => simp [Visits]
  | case2 seen cache id queue hseen ih =>
    rw [List.forall_mem_cons] at hqueue
    simp only [ih h hqueue.2, visits_cons_of_mem hseen]
  | case3 seen cache id queue hseen children ih =>
    rw [List.forall_mem_cons] at hqueue
    have hchildren := h.forall_mem_append_dependencies hqueue.2 id fun child => child ∉ id :: seen
    rw [ih (h.invalidate id) hchildren, h.exact.entries_invalidate hqueue.1, List.filter_filter]
    refine List.filter_congr fun entry _ => ?_
    rw [← Bool.decide_and, decide_eq_decide]
    exact (not_visits_cons_iff h.exact.filed hseen).symm

/-- A search removes the dependencies of what it visits, and leaves all others in their order. -/
theorem dependencies_invalidateFrom :
    (invalidateFrom seen queue cache).dependencies =
      cache.dependencies.filter fun entry => ¬cache.Visits seen queue entry.1 := by
  fun_induction invalidateFrom seen queue cache with
  | case1 seen cache => simp [Visits]
  | case2 seen cache id queue hseen ih =>
    rw [List.forall_mem_cons] at hqueue
    simp only [ih h hqueue.2, visits_cons_of_mem hseen]
  | case3 seen cache id queue hseen children ih =>
    rw [List.forall_mem_cons] at hqueue
    have hchildren := h.forall_mem_append_dependencies hqueue.2 id fun child => child ∉ id :: seen
    rw [ih (h.invalidate id) hchildren, h.exact.filed.dependencies_invalidate hqueue.1,
      List.filter_filter]
    refine List.filter_congr fun entry _ => ?_
    rw [← Bool.decide_and, decide_eq_decide]
    exact (not_visits_cons_iff h.exact.filed hseen).symm

end Reached

open Classical in
/-- One cache is what is left of another when all is removed that an identifier reaches, and
nothing else. -/
structure RemovesReached (cache : Cache) (root : NodeId) (after : Cache) : Prop where
  /-- The search for it ends, after one step for its root and one for each dependency at most. -/
  ends : ∃ count ≤ 1 + openEdges [] cache.dependencies, ∃ visited,
    Search.next^[count] ⟨[], [root], cache⟩ = ⟨visited, [], after⟩
  /-- Nothing that is reached has a text, under whatever options, or a list of dependencies. -/
  removes : ∀ id, Relation.ReflTransGen cache.DependsOn root id →
    after.Lacks id ∧ id ∉ after.dependencies.keys
  /-- All other texts are there, in the order of their last uses. -/
  entries : after.entries = cache.entries.filter fun entry =>
    ¬Relation.ReflTransGen cache.DependsOn root entry.1.id
  /-- All other dependencies are there. -/
  dependencies : after.dependencies = cache.dependencies.filter fun entry =>
    ¬Relation.ReflTransGen cache.DependsOn root entry.1
  /-- The size is as it was, and nothing was counted. -/
  counters : cache.SameCounters after

/-- The invalidation of a tree removes all that its root reaches, and nothing else. -/
theorem Searchable.removesReached {cache : Cache} (h : cache.Searchable) {root : NodeId}
    (hroot : root.isEmpty = false) : cache.RemovesReached root (cache.invalidateTree root) := by
  classical
  have hfrom : cache.invalidateTree root = invalidateFrom [] [root] cache := by
    rw [Cache.invalidateTree, hroot, if_neg Bool.false_ne_true]
  have hqueue : ∀ id ∈ [root], id.isEmpty = false := by simpa using hroot
  have hentries := entries_invalidateFrom h hqueue []
  have hdependencies := dependencies_invalidateFrom h hqueue []
  simp only [visits_root_iff, ← hfrom] at hentries hdependencies
  refine ⟨?_, fun id hreached => ⟨fun key hkey => ?_, fun hmem => ?_⟩, hentries, hdependencies,
    sameCounters_invalidateTree cache root⟩
  · rw [hfrom]
    exact Search.exists_iterate_next [] [root] cache
  · by_contra htext
    rw [← ne_eq, ← mem_keys_iff, hentries] at htext
    obtain ⟨entry, hentry, rfl⟩ := List.mem_map.mp htext
    simp [hkey, hreached] at hentry
  · rw [hdependencies] at hmem
    obtain ⟨entry, hentry, rfl⟩ := List.mem_map.mp hmem
    simp [hreached] at hentry

/-- After any run of operations and requests the invalidation of a tree removes all that its root
reaches, and nothing else. -/
theorem invalidateTree_removesReached (size : Int) {uses : List Use}
    (hnamed : ∀ item ∈ uses, item.Named) {root : NodeId} (hroot : root.isEmpty = false) :
    ((empty size).useAll uses).RemovesReached root
      (((empty size).useAll uses).invalidateTree root) :=
  ((searchable_nil _).useAll hnamed).removesReached hroot

/-- A tree is compiled, two segments depend on each other, and one that they do not reach depends
on one of them. -/
def circularUses : List Use :=
  let tree : Segment NodeId :=
    .branch ⟨.named "r", .text (some []), none⟩ [.leaf ⟨.named "a", .text (some ['x']), none⟩]
  [.compile ⟨⟨.ok {}, 0⟩, tree, [], some ⟨false, none, 50⟩⟩,
    .operate (.set ⟨.named "d", false, 0⟩ ['z']), .operate (.set ⟨.named "a", true, 7⟩ ['y']),
    .operate (.depend (.named "a") (.named "r")), .operate (.depend (.named "d") (.named "a"))]

/-- The circle goes with all its texts, and the segment that depends on it keeps what it has. -/
theorem invalidateTree_removesReached_circularUses :
    (∀ item ∈ circularUses, item.Named) ∧ (NodeId.named "r").isEmpty = false ∧
      ((empty 8).useAll circularUses).size = 4 ∧
      ((empty 8).useAll circularUses).dependencies =
        [(.named "r", [.named "a"]), (.named "a", [.named "r"]), (.named "d", [.named "a"])] ∧
      (((empty 8).useAll circularUses).invalidateTree (.named "r")).entries =
        [(⟨.named "d", false, 0⟩, ['z'])] ∧
      ((empty 8).useAll circularUses).RemovesReached (.named "r")
        (((empty 8).useAll circularUses).invalidateTree (.named "r")) := by
  have hnamed : ∀ item ∈ circularUses, item.Named := by decide
  have hroot : (NodeId.named "r").isEmpty = false := by decide
  exact ⟨hnamed, hroot, by decide +kernel, by decide +kernel, by decide +kernel,
    invalidateTree_removesReached 8 hnamed hroot⟩

end Cache

end PromptMarkup
