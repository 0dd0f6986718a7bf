import Mathlib.Logic.Relation
import PromptMarkup.Proofs.CacheContents

/-!
# What the invalidation of a tree reaches

The invalidation of a tree follows the dependencies that are recorded when it begins.  It
forgets an identifier while its dependents are still in the queue, but only the dependencies
of that identifier, which are in the queue by then.  So the identifiers that are left to
visit are always those that the queue reaches past the visited ones.

Main statements:

- {lit}`visits_cons_of_not_mem`: to visit an identifier is to forget it and to go on with its
  dependencies.
- {lit}`invalidateFrom_spec`: what is visited has no text and no dependencies afterwards, and
  everything else has what it had.
- {lit}`invalidateTree_of_reaches` and {lit}`invalidateTree_of_not_reaches`: what a tree's root
  reaches is forgotten, and nothing else is.
-/

namespace PromptMarkup

namespace Cache

/-- The identifiers that an identifier is recorded to depend on. -/
def dependenciesOf (cache : Cache) (id : NodeId) : List NodeId :=
  (cache.dependencies.get? id).getD []

/-- One identifier is recorded to depend on another. -/
def DependsOn (cache : Cache) (parent child : NodeId) : Prop :=
  child ∈ cache.dependenciesOf parent

/-- The keys that the index has for an identifier are keys of that identifier. -/
def Filed (cache : Cache) : Prop :=
  ∀ id, ∀ key ∈ cache.keysOf id, key.id = id

/-- The index of an empty cache is in order. -/
theorem filed_empty (size : Int) : (empty size).Filed :=
  fun _ _ hkey => absurd hkey List.not_mem_nil

/-! ## Dependencies after an operation -/

/-- With a text of one identifier no other identifier loses its dependencies. -/
theorem dependenciesOf_drop (cache : Cache) {key : CacheKey} {id : NodeId} (hne : key.id ≠ id) :
    (cache.drop key).dependenciesOf id = cache.dependenciesOf id := by
  unfold drop dependenciesOf
  split
  · rfl
  · split
    · rw [Assoc.get?_erase, if_neg hne]
    · rfl

/-- Dropping a key records no dependency. -/
theorem DependsOn.of_drop {cache : Cache} {key : CacheKey} {parent child : NodeId}
    (h : (cache.drop key).DependsOn parent child) : cache.DependsOn parent child := by
  unfold DependsOn drop dependenciesOf at *
  split at h
  · exact h
  · split at h
    · rw [Assoc.get?_erase] at h
      split at h
      · cases h
      · exact h
    · exact h

/-- Forgetting the dependencies of a segment records none. -/
theorem DependsOn.of_erase {cache : Cache} {id parent child : NodeId}
    (h : DependsOn { cache with dependencies := cache.dependencies.erase id } parent child) :
    cache.DependsOn parent child := by
  rw [DependsOn, dependenciesOf, Assoc.get?_erase] at h
  split at h
  · cases h
  · exact h

/-- The index has no new keys after one was dropped. -/
theorem mem_keysOf_of_drop {cache : Cache} {key other : CacheKey} {id : NodeId}
    (h : other ∈ (cache.drop key).keysOf id) : other ∈ cache.keysOf id := by
  rw [keysOf_drop] at h
  split at h
  · exact (List.mem_filter.mp h).1
  · exact h

/-- The index is in order after a key was dropped. -/
theorem Filed.drop {cache : Cache} (h : cache.Filed) (key : CacheKey) : (cache.drop key).Filed :=
  fun id _ hother => h id _ (mem_keysOf_of_drop hother)

/-- The index is in order after an invalidation. -/
theorem Filed.invalidate {cache : Cache} (h : cache.Filed) (id : NodeId) :
    (cache.invalidate id).Filed :=
  invalidate_induction (motive := Filed) (fun _ key hcache => hcache.drop key)
    (fun _ _ hcache => hcache) id h

/-- With texts of one identifier no other identifier loses its dependencies. -/
theorem dependenciesOf_foldl_drop {id : NodeId} {keys : List CacheKey}
    (hne : ∀ key ∈ keys, key.id ≠ id) (cache : Cache) :
    (keys.foldl Cache.drop cache).dependenciesOf id = cache.dependenciesOf id := by
  induction keys generalizing cache with
  | nil => rfl
  | cons key rest ih =>
    rw [List.foldl_cons, ih fun other hother => hne other (List.mem_cons_of_mem _ hother),
      dependenciesOf_drop cache (hne key List.mem_cons_self)]

/-- Looking a text up changes no dependency. -/
@[simp] theorem dependenciesOf_get (cache : Cache) (key : CacheKey) (id : NodeId) :
    (cache.get key).2.dependenciesOf id = cache.dependenciesOf id := by
  unfold get
  split <;> rfl

/-- To record a dependency adds it to the others. -/
theorem dependsOn_depend_iff {cache : Cache} {parent child other next : NodeId} :
    (cache.depend parent child).DependsOn other next ↔
      cache.DependsOn other next ∨ (other = parent ∧ next = child) := by
  unfold depend
  dsimp only
  split
  · rename_i hmem
    refine ⟨Or.inl, fun h => h.elim id ?_⟩
    rintro ⟨rfl, rfl⟩
    exact hmem
  · rw [DependsOn, DependsOn, dependenciesOf, dependenciesOf, Assoc.get?_set]
    by_cases hother : parent = other
    · subst hother
      simp
    · simp [hother, Ne.symm hother]

/-- An invalidated segment has no dependencies. -/
theorem dependenciesOf_invalidate_self (cache : Cache) {id : NodeId} (hid : id.isEmpty = false) :
    (cache.invalidate id).dependenciesOf id = [] := by
  simp [invalidate, hid, dependenciesOf, Assoc.get?_erase]

section Filed

variable {cache : Cache} (hfiled : cache.Filed)

include hfiled

/-- The invalidation of a segment leaves the dependencies of all others alone. -/
theorem dependenciesOf_invalidate {id other : NodeId} (hne : id ≠ other) :
    (cache.invalidate id).dependenciesOf other = cache.dependenciesOf other := by
  have hkeys : ∀ key ∈ cache.keysOf id, key.id ≠ other :=
    fun key hkey heq => hne ((hfiled id key hkey).symm.trans heq)
  have hfold := dependenciesOf_foldl_drop hkeys cache
  unfold invalidate
  split
  · rfl
  · rw [dependenciesOf, Assoc.get?_erase, if_neg hne]
    exact hfold

/-- The invalidation of a segment leaves the texts of all others alone. -/
theorem text?_invalidate {id : NodeId} {key : CacheKey} (hne : id ≠ key.id) :
    (cache.invalidate id).text? key = cache.text? key := by
  have hkey : key ∉ cache.keysOf id := fun hmem => hne (hfiled id key hmem).symm
  have hfold := text?_foldl_drop (cache.keysOf id) cache key
  rw [if_neg hkey] at hfold
  unfold invalidate
  split
  · rfl
  · exact hfold

end Filed

/-! ## Visits -/

/-- A recorded dependency on an identifier that has not been visited. -/
def OpenEdge (cache : Cache) (seen : List NodeId) (parent child : NodeId) : Prop :=
  cache.DependsOn parent child ∧ child ∉ seen

/-- An identifier that a queue reaches, along recorded dependencies and past those that have
been visited. -/
def Visits (cache : Cache) (seen queue : List NodeId) (id : NodeId) : Prop :=
  ∃ start ∈ queue, start ∉ seen ∧ Relation.ReflTransGen (cache.OpenEdge seen) start id

/-- What was visited is not visited again. -/
theorem Visits.not_mem {cache : Cache} {seen queue : List NodeId} {id : NodeId}
    (h : cache.Visits seen queue id) : id ∉ seen := by
  rcases h with ⟨start, -, hstart, hpath⟩
  cases hpath with
  | refl => exact hstart
  | tail _ hedge => exact hedge.2

/-- An identifier that has been visited makes no difference in the queue. -/
theorem visits_cons_of_mem {cache : Cache} {seen queue : List NodeId} {id other : NodeId}
    (hseen : id ∈ seen) :
    cache.Visits seen (id :: queue) other ↔ cache.Visits seen queue other := by
  constructor
  · rintro ⟨start, hstart, hnot, hpath⟩
    rcases List.mem_cons.mp hstart with rfl | hstart
    · exact absurd hseen hnot
    · exact ⟨start, hstart, hnot, hpath⟩
  · rintro ⟨start, hstart, hnot, hpath⟩
    exact ⟨start, List.mem_cons_of_mem _ hstart, hnot, hpath⟩

/-- A way past the visited identifiers ends at an identifier, or goes past that one too from
its start, or from one of its dependencies on. -/
theorem openPath_split {cache : Cache} {seen : List NodeId} (id : NodeId) {start last : NodeId}
    (hpath : Relation.ReflTransGen (cache.OpenEdge seen) start last) :
    last = id ∨ (start ≠ id ∧ Relation.ReflTransGen (cache.OpenEdge (id :: seen)) start last) ∨
      ∃ next, cache.OpenEdge (id :: seen) id next ∧
        Relation.ReflTransGen (cache.OpenEdge (id :: seen)) next last := by
  induction hpath with
  | refl =>
    by_cases hid : start = id
    · exact Or.inl hid
    · exact Or.inr (Or.inl ⟨hid, .refl⟩)
  | tail _ hedge ih =>
    rename_i middle last _
    by_cases hlast : last = id
    · exact Or.inl hlast
    · have hopen : cache.OpenEdge (id :: seen) middle last :=
        ⟨hedge.1, fun hmem => (List.mem_cons.mp hmem).elim hlast hedge.2⟩
      rcases ih with rfl | ⟨hstart, hbefore⟩ | ⟨next, hnext, hbefore⟩
      · exact Or.inr (Or.inr ⟨last, hopen, .refl⟩)
      · exact Or.inr (Or.inl ⟨hstart, hbefore.tail hopen⟩)
      · exact Or.inr (Or.inr ⟨next, hnext, hbefore.tail hopen⟩)

/-- An open dependency of the forgotten cache is one of the cache, past fewer identifiers. -/
theorem openEdge_invalidate_iff {cache : Cache} (hfiled : cache.Filed) {seen : List NodeId}
    {id parent child : NodeId} (hparent : parent ≠ id) :
    (cache.invalidate id).OpenEdge (id :: seen) parent child ↔
      cache.OpenEdge (id :: seen) parent child := by
  rw [OpenEdge, OpenEdge, DependsOn, DependsOn, dependenciesOf_invalidate hfiled hparent.symm]

/-- Past an identifier the ways are the same after it was forgotten. -/
theorem openPath_invalidate_iff {cache : Cache} (hfiled : cache.Filed) {seen : List NodeId}
    {id start last : NodeId} (hstart : start ≠ id) :
    Relation.ReflTransGen ((cache.invalidate id).OpenEdge (id :: seen)) start last ↔
      Relation.ReflTransGen (cache.OpenEdge (id :: seen)) start last := by
  -- A way past the identifier never comes to it.
  have hend : ∀ {cache : Cache} {last : NodeId},
      Relation.ReflTransGen (cache.OpenEdge (id :: seen)) start last → last ≠ id := by
    intro cache last hpath
    cases hpath with
    | refl => exact hstart
    | tail _ hedge => exact fun heq => hedge.2 (heq ▸ List.mem_cons_self)
  constructor
  · intro hpath
    induction hpath with
    | refl => exact .refl
    | tail hbefore hedge ih =>
      exact ih.tail ((openEdge_invalidate_iff hfiled (hend hbefore)).mp hedge)
  · intro hpath
    induction hpath with
    | refl => exact .refl
    | tail hbefore hedge ih =>
      exact ih.tail ((openEdge_invalidate_iff hfiled (hend hbefore)).mpr hedge)

/-- To visit an identifier is to forget it, and to go on with the dependencies that have not
been visited. -/
theorem visits_cons_of_not_mem {cache : Cache} (hfiled : cache.Filed) {seen queue : List NodeId}
    {id other : NodeId} (hseen : id ∉ seen) :
    cache.Visits seen (id :: queue) other ↔
      other = id ∨ (cache.invalidate id).Visits (id :: seen)
        (queue ++ (cache.dependenciesOf id).filter fun child => child ∉ id :: seen) other := by
  constructor
  · rintro ⟨start, hstart, hnot, hpath⟩
    rcases openPath_split id hpath with hlast | ⟨hne, hpast⟩ | ⟨next, hnext, hpast⟩
    · exact Or.inl hlast
    · refine Or.inr ⟨start, ?_, ?_, (openPath_invalidate_iff hfiled hne).mpr hpast⟩
      · exact List.mem_append_left _ ((List.mem_cons.mp hstart).resolve_left hne)
      · exact fun hmem => (List.mem_cons.mp hmem).elim hne hnot
    · have hne : next ≠ id := fun heq => hnext.2 (heq ▸ List.mem_cons_self)
      refine Or.inr ⟨next, ?_, hnext.2, (openPath_invalidate_iff hfiled hne).mpr hpast⟩
      exact List.mem_append_right _ (List.mem_filter.mpr ⟨hnext.1, by simpa using hnext.2⟩)
  · rintro (rfl | ⟨start, hstart, hnot, hpath⟩)
    · exact ⟨other, List.mem_cons_self, hseen, .refl⟩
    · rw [List.mem_cons, not_or] at hnot
      have hpast := (openPath_invalidate_iff hfiled hnot.1).mp hpath
      have hmono : Relation.ReflTransGen (cache.OpenEdge seen) start other :=
        Relation.ReflTransGen.mono
          (fun _ _ hedge => ⟨hedge.1, fun hmem => hedge.2 (List.mem_cons_of_mem _ hmem)⟩) _ _ hpast
      rcases List.mem_append.mp hstart with hqueue | hchild
      · exact ⟨start, List.mem_cons_of_mem _ hqueue, hnot.2, hmono⟩
      · have hedge : cache.OpenEdge seen id start := ⟨(List.mem_filter.mp hchild).1, hnot.2⟩
        exact ⟨id, List.mem_cons_self, hseen, hmono.head hedge⟩

/-! ## What is forgotten -/

/-- What is visited has no text and no dependencies afterwards, and everything else has what
it had. -/
theorem invalidateFrom_spec (seen queue : List NodeId) (cache : Cache) (hindexed : cache.Indexed)
    (hfiled : cache.Filed) (id : NodeId) :
    (cache.Visits seen queue id → id.isEmpty = false →
      (invalidateFrom seen queue cache).Lacks id ∧
        (invalidateFrom seen queue cache).dependenciesOf id = []) ∧
    (¬cache.Visits seen queue id →
      (∀ key : CacheKey, key.id = id →
        (invalidateFrom seen queue cache).text? key = cache.text? key) ∧
        (invalidateFrom seen queue cache).dependenciesOf id = cache.dependenciesOf id) := by
  fun_induction invalidateFrom seen queue cache with
  | case1 seen cache =>
    refine ⟨?_, fun _ => ⟨fun _ _ => rfl, rfl⟩⟩
    rintro ⟨start, hstart, -⟩
    cases hstart
  | case2 seen cache first queue hseen ih =>
    rw [visits_cons_of_mem hseen]
    exact ih hindexed hfiled
  | case3 seen cache first queue hseen children ih =>
    rw [visits_cons_of_not_mem hfiled hseen]
    have hrest := ih (invalidate_forgets cache first hindexed).2 (hfiled.invalidate first)
    by_cases hfirst : id = first
    · subst hfirst
      -- It is not visited a second time, so it stays forgotten.
      have hkept := hrest.2 fun hvisit => hvisit.not_mem List.mem_cons_self
      refine ⟨fun _ hid => ⟨fun key hkey => ?_, ?_⟩, fun hnot => absurd (Or.inl rfl) hnot⟩
      · rw [hkept.1 key hkey]
        exact invalidate_lacks hindexed hid key hkey
      · rw [hkept.2, dependenciesOf_invalidate_self cache hid]
    · refine ⟨fun hvisit => hrest.1 (hvisit.resolve_left hfirst), fun hnot => ?_⟩
      have hkept := hrest.2 fun hvisit => hnot (Or.inr hvisit)
      refine ⟨fun key hkey => ?_, ?_⟩
      · rw [hkept.1 key hkey]
        exact text?_invalidate hfiled fun heq => hfirst (hkey.symm.trans heq.symm)
      · rw [hkept.2, dependenciesOf_invalidate hfiled (Ne.symm hfirst)]

/-- From the root of a tree everything is visited that it reaches. -/
theorem visits_root_iff {cache : Cache} {root id : NodeId} :
    cache.Visits [] [root] id ↔ Relation.ReflTransGen cache.DependsOn root id := by
  have hedge : cache.OpenEdge [] = cache.DependsOn := by
    funext parent child
    exact propext (and_iff_left List.not_mem_nil)
  rw [Visits, hedge]
  constructor
  · rintro ⟨start, hstart, -, hpath⟩
    rw [List.mem_singleton.mp hstart] at hpath
    exact hpath
  · exact fun hpath => ⟨root, List.mem_singleton_self root, List.not_mem_nil, hpath⟩

section Tree

variable {cache : Cache} (hindexed : cache.Indexed) (hfiled : cache.Filed) {root id : NodeId}
  (hroot : root.isEmpty = false)

include hindexed hfiled hroot

/-- What the root of a tree reaches has no text after the invalidation of the tree. -/
theorem invalidateTree_of_reaches (hid : id.isEmpty = false)
    (hreaches : Relation.ReflTransGen cache.DependsOn root id) :
    (cache.invalidateTree root).Lacks id := by
  rw [invalidateTree, hroot, if_neg Bool.false_ne_true]
  exact ((invalidateFrom_spec [] [root] cache hindexed hfiled id).1
    (visits_root_iff.mpr hreaches) hid).1

/-- What the root of a tree does not reach has its texts after the invalidation of the
tree. -/
theorem invalidateTree_of_not_reaches
    (hreaches : ¬Relation.ReflTransGen cache.DependsOn root id) {key : CacheKey}
    (hkey : key.id = id) : (cache.invalidateTree root).text? key = cache.text? key := by
  rw [invalidateTree, hroot, if_neg Bool.false_ne_true]
  exact ((invalidateFrom_spec [] [root] cache hindexed hfiled id).2
    (fun hvisit => hreaches (visits_root_iff.mp hvisit))).1 key hkey

end Tree

end Cache

end PromptMarkup
