import Mathlib.Data.List.Perm.Basic
import PromptMarkup.Proofs.CacheIndex
import PromptMarkup.Proofs.LeastRecentlyUsed

/-!
# The cache follows the map that forgets what was used longest ago

Beside its texts the cache has an index, dependencies and counters, and a run may use all of its
operations in any order.  The cache and the reference stay in step: they hold the same texts and
dependencies, and the entries of the cache stand in the order of the last uses in the log of the
reference.

Main statements:

- {lit}`Refines.apply`: one operation keeps the cache and the reference in step.
- {lit}`refines_applyAll`: so does a run of operations.
- {lit}`lookups_applyAll`: the counters of the cache count the look-ups since it was last cleared.
- {lit}`applyAll_isLeastRecentlyUsed`: what a cache holds and does after a run.
-/

namespace PromptMarkup

namespace Cache

/-- No segment that is to be invalidated, now or later as a dependency, has an empty
identifier. -/
def Operation.Named : Operation → Prop
  | .depend _ child => child.isEmpty = false
  | .invalidate id | .invalidateTree id => id.isEmpty = false
  | .get _ | .set _ _ | .clear => True

instance : DecidablePred Operation.Named := fun op => by
  cases op <;> unfold Operation.Named <;> infer_instance

/-- The cache after an operation. -/
def apply (cache : Cache) : Operation → Cache
  | .get key => (cache.get key).2
  | .set key text => cache.set key text
  | .depend parent child => cache.depend parent child
  | .invalidate id => cache.invalidate id
  | .invalidateTree id => cache.invalidateTree id
  | .clear => cache.clear

/-- The cache after a run of operations. -/
def applyAll (cache : Cache) (ops : List Operation) : Cache :=
  ops.foldl apply cache

/-- Whether the operation is a look-up. -/
def Operation.isGet : Operation → Bool
  | .get _ => true
  | _ => false

/-- Whether the operation clears the cache. -/
def Operation.isClear : Operation → Bool
  | .clear => true
  | _ => false

/-- The look-ups of a run after it cleared the cache for the last time. -/
def lookupsSinceClear (ops : List Operation) : Nat :=
  (ops.reverse.takeWhile fun op => !op.isClear).countP Operation.isGet

/-! ## What operations leave alone -/

/-- The look-ups that the cache has counted. -/
def lookups (cache : Cache) : Nat :=
  cache.hits + cache.misses

/-- A cache with the same counters has counted as many look-ups. -/
theorem SameCounters.lookups_eq {cache after : Cache} (h : cache.SameCounters after) :
    after.lookups = cache.lookups := by
  rw [lookups, h.hits, h.misses, lookups]

/-- No operation makes a cache larger or smaller. -/
theorem capacity_apply (cache : Cache) (op : Operation) :
    (cache.apply op).capacity = cache.capacity := by
  cases op with
  | get key => exact capacity_get cache key
  | set key text => exact (sameCounters_set cache key text).capacity
  | depend parent child =>
    rw [apply, depend_eq]
  | invalidate id => exact (sameCounters_invalidate cache id).capacity
  | invalidateTree id => exact (sameCounters_invalidateTree cache id).capacity
  | clear => rfl

/-- Every look-up is counted, and nothing else is. -/
theorem lookups_apply (cache : Cache) (op : Operation) :
    (cache.apply op).lookups =
      match op with
      | .get _ => cache.lookups + 1
      | .clear => 0
      | _ => cache.lookups := by
  cases op with
  | get key =>
    rw [apply, get]
    split
    · exact Nat.add_right_comm _ _ _
    · rfl
  | set key text => exact (sameCounters_set cache key text).lookups_eq
  | depend parent child =>
    rw [apply, depend_eq]
    rfl
  | invalidate id => exact (sameCounters_invalidate cache id).lookups_eq
  | invalidateTree id => exact (sameCounters_invalidateTree cache id).lookups_eq
  | clear => rfl

/-- A run makes a cache neither larger nor smaller. -/
theorem capacity_applyAll (cache : Cache) (ops : List Operation) :
    (cache.applyAll ops).capacity = cache.capacity := by
  induction ops generalizing cache with
  | nil => rfl
  | cons op rest ih => exact (ih _).trans (capacity_apply cache op)

/-- The last operation of a run comes after the others. -/
theorem applyAll_append_singleton (cache : Cache) (ops : List Operation) (op : Operation) :
    cache.applyAll (ops ++ [op]) = (cache.applyAll ops).apply op :=
  List.foldl_append

/-- A cache has counted the look-ups since it was last cleared. -/
theorem lookups_applyAll (size : Int) (ops : List Operation) :
    ((empty size).applyAll ops).lookups = lookupsSinceClear ops := by
  induction ops using List.reverseRecOn with
  | nil => rfl
  | append_singleton ops op ih =>
    rw [applyAll_append_singleton, lookups_apply, ih]
    cases op <;> simp [lookupsSinceClear, List.countP_cons, Operation.isClear, Operation.isGet]

/-! ## Room and what is left -/

/-- In a full cache the oldest text makes room. -/
theorem makeRoom_of_eq {cache : Cache} (h : cache.size = cache.capacity) {oldest : CacheKey}
    {text : Text} {rest : Assoc CacheKey Text} (hentries : cache.entries = (oldest, text) :: rest) :
    cache.makeRoom = cache.drop oldest := by
  have hone : cache.size + 1 - cache.capacity = 1 := by omega
  rw [makeRoom, hone, dropOldest, hentries]
  rfl

/-- A sublist of distinct items is what a condition leaves of them if it holds of the items of the
sublist and of no others. -/
theorem eq_filter_of_sublist {α : Type} {items part : List α} (hnodup : items.Nodup)
    (hsub : part.Sublist items) (p : α → Bool) (hpart : ∀ item ∈ items, item ∈ part ↔ p item) :
    part = items.filter p := by
  have hleft : part.Sublist (items.filter p) := by
    have hfilter := hsub.filter p
    rwa [List.filter_eq_self.mpr fun item h => (hpart item (hsub.subset h)).mp h] at hfilter
  have hperm : part.Perm (items.filter p) := by
    refine (List.perm_ext_iff_of_nodup (hnodup.sublist hsub) (hnodup.filter p)).mpr fun item => ?_
    rw [List.mem_filter]
    exact ⟨fun h => ⟨hsub.subset h, (hpart item (hsub.subset h)).mp h⟩,
      fun h => (hpart item h.1).mpr h.2⟩
  exact hleft.eq_of_length hperm.length_eq

/-- The entries that are left are those whose keys are left. -/
theorem entries_eq_filter {cache after : Cache} (hnodup : cache.entries.keys.Nodup)
    (hsub : after.entries.Sublist cache.entries) (kept : CacheKey → Prop) [DecidablePred kept]
    (htexts : ∀ key, after.text? key ≠ none ↔ cache.text? key ≠ none ∧ kept key) :
    after.entries = cache.entries.filter (fun entry => kept entry.1) := by
  refine eq_filter_of_sublist (List.Nodup.of_map _ hnodup) hsub _ fun entry hentry => ?_
  have hmem : entry.1 ∈ cache.entries.keys := List.mem_map_of_mem hentry
  have hkey : entry.1 ∈ after.entries.keys ↔ kept entry.1 := by
    rw [mem_keys_iff, htexts, and_iff_right (mem_keys_iff.mp hmem)]
  rw [decide_eq_true_eq, ← hkey]
  refine ⟨fun h => List.mem_map_of_mem h, fun h => ?_⟩
  -- The entry with this key that is left is the same one, as keys are distinct.
  obtain ⟨other, hother, heq⟩ := List.mem_map.mp h
  exact List.inj_on_of_nodup_map hnodup (hsub.subset hother) hentry heq ▸ hother

/-! ## The cache and the reference in step -/

/-- A cache and the reference hold the same. -/
structure Refines (cache : Cache) (ref : Reference) : Prop where
  capacity : cache.capacity = ref.capacity
  texts : cache.text? = ref.texts
  order : cache.entries.keys = ref.held
  depends : cache.DependsOn = ref.depends
  exact : cache.Exact
  roomy : 0 < cache.capacity
  fits : cache.size ≤ cache.capacity
  named : ∀ parent child, ref.depends parent child → child.isEmpty = false

/-- A cache and the reference that hold nothing are in step. -/
theorem refines_nil {capacity : Nat} (hroomy : 0 < capacity) :
    Refines ⟨capacity, [], [], [], 0, 0⟩ ⟨capacity, fun _ => none, [], fun _ _ => False⟩ where
  capacity := rfl
  texts := rfl
  order := rfl
  depends := by
    funext parent child
    exact eq_false List.not_mem_nil
  exact := exact_nil capacity
  roomy := hroomy
  fits := Nat.zero_le _
  named := fun _ _ => False.elim

/-- The empty cache for a number of texts is in step with the empty reference. -/
theorem refines_empty (size : Int) : (empty size).Refines (Reference.empty size) :=
  refines_nil (Nat.lt_of_lt_of_le Nat.one_pos (Nat.le_max_left _ _))

namespace Refines

variable {cache : Cache} {ref : Reference} (h : cache.Refines ref)

include h

/-- The keys of the texts are distinct. -/
theorem nodup_keys : cache.entries.keys.Nodup :=
  h.order ▸ ref.nodup_held

/-- As many keys are held as there are texts. -/
theorem length_held : ref.held.length = cache.size := by
  rw [← h.order, Assoc.keys, List.length_map, size]

/-- A key has a text in the cache or in neither. -/
theorem text?_eq (key : CacheKey) : cache.text? key = ref.texts key :=
  congrFun h.texts key

/-- A segment depends on another in both or in neither. -/
theorem dependsOn_iff (parent child : NodeId) :
    cache.DependsOn parent child ↔ ref.depends parent child :=
  iff_of_eq (congrFun (congrFun h.depends parent) child)

/-- The counters of the cache make no difference. -/
theorem counts (hits misses : Nat) : { cache with hits, misses }.Refines ref :=
  { h with exact := h.exact.of_index_eq rfl fun _ => Iff.rfl }

/-- They stay in step where a text replaces the one under its key. -/
theorem replace {key : CacheKey} (hfound : cache.text? key ≠ none) (text : Text) :
    (cache.set key text).Refines (ref.keep key text) := by
  have hcapacity : (cache.set key text).capacity = cache.capacity :=
    (sameCounters_set cache key text).capacity
  have hkeys := keys_set_of_ne_none hfound text
  refine ⟨hcapacity.trans h.capacity, ?_, ?_, ?_, h.exact.set key text, hcapacity ▸ h.roomy, ?_,
    h.named⟩
  · funext other
    rw [text?_set_of_ne_none hfound, h.text?_eq, ref.texts_keep]
  · rw [hkeys, h.order, ref.held_keep]
  · rcases set_cases cache key text with ⟨-, hset⟩ | ⟨hnone, -⟩
    · rw [hset]
      exact h.depends
    · exact absurd hnone hfound
  · rw [hcapacity]
    exact Nat.le_trans (size_set_of_ne_none_le hfound text) h.fits

/-- They stay in step where a key is looked up. -/
theorem get (key : CacheKey) : (cache.get key).2.Refines (ref.apply (.get key)) := by
  rw [Reference.apply, ← h.text?_eq]
  cases htext : cache.text? key with
  | none =>
    rw [get_of_eq_none htext]
    exact h.counts _ _
  | some text =>
    have hkeep : ref.keep key text = { ref with uses := ref.uses ++ [key] } := by
      rw [Reference.keep, ← htext, h.text?_eq, Function.update_eq_self]
    have hfound : cache.text? key ≠ none := by simp [htext]
    have hreplace := (h.replace hfound text).counts (cache.hits + 1) (cache.set key text).misses
    rw [hkeep] at hreplace
    rw [get_of_eq_some htext]
    exact hreplace

/-- They stay in step where a new text is kept and there is room for it. -/
theorem insertNew {key : CacheKey} (hnew : cache.text? key = none)
    (hroom : cache.size < cache.capacity) (text : Text) :
    (cache.insertNew key text).Refines (ref.keep key text) where
  capacity := h.capacity
  texts := by
    funext other
    rw [text?_insertNew hnew, h.text?_eq, ref.texts_keep]
  order := by
    rw [keys_insertNew, ref.held_keep, ← h.order, keys_filter_of_eq_none hnew]
  depends := h.depends
  exact := h.exact.insertNew hnew text
  roomy := h.roomy
  fits := by
    rw [size, Cache.insertNew, List.length_append]
    exact hroom
  named := h.named

/-- They stay in step where the text goes that was used longest ago. -/
theorem evict {oldest : CacheKey} {text : Text} {rest : Assoc CacheKey Text}
    (hentries : cache.entries = (oldest, text) :: rest) :
    (cache.drop oldest).Refines ref.evict := by
  have hheld : ref.held = oldest :: Assoc.keys rest := by
    rw [← h.order, hentries]
    rfl
  have hfound : cache.text? oldest ≠ none := by simp [text?, hentries, Assoc.get?]
  have hcapacity : (cache.drop oldest).capacity = cache.capacity :=
    ((SameCounters.refl cache).drop oldest).capacity
  rw [Reference.evict_of_held hheld]
  refine ⟨hcapacity.trans h.capacity, ?_, ?_, ?_, h.exact.drop oldest, hcapacity ▸ h.roomy, ?_,
    fun parent child hedge => h.named parent child hedge.1⟩
  · funext key
    rw [text?_drop, h.text?_eq]
    simp only [Function.update_apply, eq_comm]
  · rw [keys_drop, h.order]
    refine Eq.symm (ref.held_of_forgets ?_ (· ≠ oldest) fun key => ?_)
    · rfl
    · by_cases heq : key = oldest <;> simp [heq]
  · funext parent child
    refine propext ((h.exact.dependsOn_drop_iff hfound).trans ?_)
    simp only [h.dependsOn_iff, ← h.order, mem_keys_iff]
  · rw [size, entries_drop, hcapacity]
    exact Nat.le_trans (List.length_filter_le _ _) h.fits

/-- The entries that are left without the oldest one. -/
theorem entries_drop_oldest {oldest : CacheKey} {text : Text} {rest : Assoc CacheKey Text}
    (hentries : cache.entries = (oldest, text) :: rest) :
    (cache.drop oldest).entries = rest := by
  have hnodup := h.nodup_keys
  rw [hentries, Assoc.keys, List.map_cons, List.nodup_cons] at hnodup
  rw [entries_drop, hentries, Assoc.erase_cons, if_pos rfl]
  refine List.filter_eq_self.mpr fun entry hentry => ?_
  simpa using fun heq : entry.1 = oldest => hnodup.1 (heq ▸ List.mem_map.mpr ⟨entry, hentry, rfl⟩)

/-- Where a new text is kept in a full cache, only the oldest entry goes. -/
theorem entries_set_of_full {key : CacheKey} (hnew : cache.text? key = none)
    (hfull : cache.size = cache.capacity) (text : Text) :
    ∃ oldest rest, cache.entries = oldest :: rest ∧
      (cache.set key text).entries = rest ++ [(key, text)] := by
  obtain ⟨⟨oldest, old⟩, rest, hentries⟩ := List.exists_cons_of_length_pos (hfull ▸ h.roomy)
  refine ⟨_, rest, hentries, ?_⟩
  rw [set_of_new hnew, Cache.insertNew, makeRoom_of_eq hfull hentries, h.entries_drop_oldest hentries]

/-- They stay in step where a text is kept. -/
theorem set (key : CacheKey) (text : Text) :
    (cache.set key text).Refines (ref.apply (.set key text)) := by
  rw [Reference.apply, ← h.text?_eq, ← h.capacity, h.length_held]
  by_cases hnone : cache.text? key = none
  · rw [set_of_new hnone, hnone]
    by_cases hfull : cache.size < cache.capacity
    · rw [if_neg fun hfull' => Nat.not_le_of_lt hfull hfull'.2, makeRoom_of_lt hfull]
      exact h.insertNew hnone hfull text
    · have hsize : cache.size = cache.capacity := Nat.le_antisymm h.fits (Nat.le_of_not_lt hfull)
      obtain ⟨⟨oldest, old⟩, rest, hentries⟩ := List.exists_cons_of_length_pos (hsize ▸ h.roomy)
      have hevict := h.evict hentries
      rw [if_pos ⟨rfl, Nat.le_of_not_lt hfull⟩, makeRoom_of_eq hsize hentries]
      refine hevict.insertNew ?_ ?_ text
      · rw [text?_drop, hnone, ite_self]
      · rw [((SameCounters.refl cache).drop oldest).capacity, ← hsize, size, h.entries_drop_oldest hentries, size,
          hentries]
        exact Nat.lt_succ_self _
  · rw [if_neg fun hfull => hnone (Option.isNone_iff_eq_none.mp hfull.1)]
    exact h.replace hnone text

/-- They stay in step where a dependency is recorded. -/
theorem depend {child : NodeId} (hchild : child.isEmpty = false) (parent : NodeId) :
    (cache.depend parent child).Refines (ref.apply (.depend parent child)) where
  capacity := by
    rw [depend_eq]
    exact h.capacity
  texts := by
    funext key
    rw [text?_depend]
    exact h.text?_eq key
  order := by
    rw [depend_eq]
    exact h.order
  depends := by
    funext above below
    exact propext (dependsOn_depend_iff.trans (or_congr_left (h.dependsOn_iff above below)))
  exact := h.exact.depend parent child
  roomy := by
    rw [depend_eq]
    exact h.roomy
  fits := by
    rw [depend_eq]
    exact h.fits
  named := by
    rintro above below (hedge | ⟨-, rfl⟩)
    · exact h.named above below hedge
    · exact hchild

/-- They stay in step where all texts and dependencies of some segments are forgotten. -/
theorem forget {after : Cache} (hcapacity : after.capacity = cache.capacity)
    (hsub : after.entries.Sublist cache.entries) (hexact : after.Exact) (gone : NodeId → Prop)
    (hgone : ∀ id, gone id → after.Lacks id ∧ after.dependenciesOf id = [])
    (hkept : ∀ id, ¬gone id → (∀ key : CacheKey, key.id = id → after.text? key = cache.text? key) ∧
      after.dependenciesOf id = cache.dependenciesOf id) :
    after.Refines (ref.forget gone) := by
  classical
  have htexts : ∀ key, after.text? key = if gone key.id then none else ref.texts key := by
    intro key
    split
    · exact (hgone key.id ‹_›).1 key rfl
    · exact ((hkept key.id ‹_›).1 key rfl).trans (h.text?_eq key)
  refine ⟨hcapacity.trans h.capacity, ?_, ?_, ?_, hexact, hcapacity ▸ h.roomy,
    hcapacity ▸ Nat.le_trans hsub.length_le h.fits,
    fun parent child hedge => h.named parent child hedge.1⟩
  · funext key
    rw [htexts, Reference.forget]
  · have hentries : after.entries = cache.entries.filter fun entry => ¬gone entry.1.id := by
      refine entries_eq_filter h.nodup_keys hsub (fun key => ¬gone key.id) fun key => ?_
      by_cases hkey : gone key.id <;> simp [htexts, hkey, h.text?_eq]
    rw [hentries, Assoc.keys_filter fun key : CacheKey => ¬gone key.id, h.order]
    refine Eq.symm (ref.held_of_forgets ?_ (fun key => ¬gone key.id) fun key => ?_)
    · rfl
    · by_cases hkey : gone key.id <;> simp [Reference.forget, hkey]
  · funext parent child
    rw [Reference.forget, ← h.depends]
    by_cases hparent : gone parent
    · rw [DependsOn, (hgone parent hparent).2]
      exact propext (iff_of_false List.not_mem_nil fun hedge => hedge.2 hparent)
    · rw [DependsOn, (hkept parent hparent).2]
      exact propext (and_iff_left hparent).symm

/-- They stay in step where a segment is invalidated. -/
theorem invalidate {id : NodeId} (hid : id.isEmpty = false) :
    (cache.invalidate id).Refines (ref.apply (.invalidate id)) := by
  have htexts := h.exact.text?_invalidate hid
  refine h.forget (sameCounters_invalidate cache id).capacity ?_ (h.exact.invalidate id) (· = id)
    ?_ ?_
  · exact invalidate_entries_sublist cache id
  · rintro other rfl
    refine ⟨fun key hkey => ?_, dependenciesOf_invalidate_self cache hid⟩
    rw [htexts key, if_pos hkey]
  · intro other hother
    refine ⟨fun key hkey => ?_, dependenciesOf_invalidate h.exact.filed (Ne.symm hother)⟩
    rw [htexts key, if_neg (hkey ▸ hother)]

/-- They stay in step where a tree is invalidated. -/
theorem invalidateTree {id : NodeId} (hid : id.isEmpty = false) :
    (cache.invalidateTree id).Refines (ref.apply (.invalidateTree id)) := by
  have hspec := invalidateFrom_spec [] [id] cache h.exact.indexed h.exact.filed
  simp only [visits_root_iff, h.depends] at hspec
  have hfrom : cache.invalidateTree id = invalidateFrom [] [id] cache := by
    rw [Cache.invalidateTree, hid, if_neg Bool.false_ne_true]
  -- What is reached is the root or a dependency, and has an identifier that is not empty.
  have hreached : ∀ other, Relation.ReflTransGen ref.depends id other → other.isEmpty = false := by
    intro other hpath
    cases hpath with
    | refl => exact hid
    | tail _ hedge => exact h.named _ other hedge
  refine h.forget (sameCounters_invalidateTree cache id).capacity (invalidateTree_entries_sublist cache id)
    (h.exact.invalidateTree id) _ (fun other hother => ?_) fun other hother => ?_
  · rw [hfrom]
    exact (hspec other).1 hother (hreached other hother)
  · rw [hfrom]
    exact (hspec other).2 hother

/-- One operation keeps the cache and the reference in step. -/
theorem apply {op : Operation} (hop : op.Named) : (cache.apply op).Refines (ref.apply op) := by
  cases op with
  | get key => exact h.get key
  | set key text => exact h.set key text
  | depend parent child => exact h.depend hop parent
  | invalidate id => exact h.invalidate hop
  | invalidateTree id => exact h.invalidateTree hop
  | clear =>
    rw [Reference.apply, ← h.capacity]
    exact refines_nil h.roomy

end Refines

/-- A run of operations keeps the cache and the reference in step. -/
theorem refines_applyAll {cache : Cache} {ref : Reference} (h : cache.Refines ref)
    {ops : List Operation} (hnamed : ∀ op ∈ ops, op.Named) :
    (cache.applyAll ops).Refines (ref.applyAll ops) := by
  induction ops generalizing cache ref with
  | nil => exact h
  | cons op rest ih =>
    rw [List.forall_mem_cons] at hnamed
    exact ih (h.apply hnamed.1) hnamed.2

/-! ## What a cache does -/

/-- What a cache of a size holds and does after a run of operations, next to the reference after
the same run. -/
structure IsLeastRecentlyUsed (size : Int) (ops : List Operation) (cache : Cache)
    (ref : Reference) : Prop where
  /-- There are as many texts as fit at most, and one fits always. -/
  fits : (cache.size : Int) ≤ max 1 size
  /-- The entries stand in the order of the last uses of their keys. -/
  order : cache.entries.keys = ref.held
  /-- What is looked up has the text that it has in the reference. -/
  answers : ∀ key, (cache.get key).1 = ref.texts key
  /-- That is a text that was kept for it, and that no later operation took from it. -/
  latest : ∀ key text, (cache.get key).1 = some text ↔
    ∃ before after, ops = before ++ .set key text :: after ∧
      ∀ middle op, middle ++ [op] <+: after →
        ¬((Reference.empty size).applyAll (before ++ .set key text :: middle)).Overrides key op
  /-- Where a new text has to have room, only the entry goes that was used longest ago. -/
  evicts : ∀ key text, cache.text? key = none → (cache.size : Int) = max 1 size →
    ∃ oldest rest, cache.entries = oldest :: rest ∧
      (cache.set key text).entries = rest ++ [(key, text)]
  /-- The index lists the keys that have a text, and no list is empty. -/
  exact : cache.Exact
  /-- Invalidation removes the entries of a segment and no others. -/
  invalidates : ∀ id, id.isEmpty = false →
    (cache.invalidate id).entries = cache.entries.filter fun entry => entry.1.id ≠ id
  /-- Look-ups are counted from when the cache was last cleared. -/
  counts : cache.hits + cache.misses = lookupsSinceClear ops

/-- A cache follows the reference through every run of operations. -/
theorem applyAll_isLeastRecentlyUsed (size : Int) {ops : List Operation}
    (hnamed : ∀ op ∈ ops, op.Named) :
    IsLeastRecentlyUsed size ops ((empty size).applyAll ops)
      ((Reference.empty size).applyAll ops) := by
  have h : ((empty size).applyAll ops).Refines ((Reference.empty size).applyAll ops) :=
    refines_applyAll (refines_empty size) hnamed
  have hcapacity : ((empty size).applyAll ops).capacity = max 1 size.toNat :=
    capacity_applyAll (empty size) ops
  have hanswers : ∀ key, (((empty size).applyAll ops).get key).1 =
      ((Reference.empty size).applyAll ops).texts key :=
    fun key => by rw [get_eq, h.text?_eq]
  refine ⟨?_, h.order, hanswers, fun key text => ?_, fun key text hnew hfull => ?_, h.exact,
    fun id hid => h.exact.entries_invalidate hid, lookups_applyAll size ops⟩
  · have hfits := h.fits
    omega
  · rw [hanswers]
    exact Reference.texts_applyAll_iff size ops key text
  · exact h.entries_set_of_full hnew (by omega) text

/-- A text is looked up before a third one needs its room or that of another. -/
def crowdedRun : List Operation :=
  [.set ⟨.named "a", false, 0⟩ ['x'], .set ⟨.named "b", false, 0⟩ ['y'],
    .get ⟨.named "a", false, 0⟩, .depend (.named "a") (.named "b"),
    .set ⟨.named "c", false, 1⟩ ['z']]

/-- In a cache for two texts the one that was not looked up makes room. -/
theorem applyAll_isLeastRecentlyUsed_crowdedRun :
    (∀ op ∈ crowdedRun, op.Named) ∧
      ((empty 2).applyAll crowdedRun).entries =
        [(⟨.named "a", false, 0⟩, ['x']), (⟨.named "c", false, 1⟩, ['z'])] ∧
      IsLeastRecentlyUsed 2 crowdedRun ((empty 2).applyAll crowdedRun)
        ((Reference.empty 2).applyAll crowdedRun) := by
  have hnamed : ∀ op ∈ crowdedRun, op.Named := by decide
  exact ⟨hnamed, by decide, applyAll_isLeastRecentlyUsed 2 hnamed⟩

end Cache

end PromptMarkup
