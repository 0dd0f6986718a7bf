import Mathlib.Data.List.Dedup
import PromptMarkup.Proofs.DependencyReach

/-!
# The index of the cache

The index is exact: for each identifier it lists the keys that have a text, each once, and it
has no list without a key.  All operations keep it so.  The invalidation of a segment drops the
keys that the index lists for it, which are all keys of that segment and no others.

Main statements:

- {lit}`Exact.set`, {lit}`Exact.invalidateTree` and those beside them: the index stays exact.
- {lit}`Exact.text?_invalidate`: invalidation forgets the texts of a segment and no others.
- {lit}`Exact.dependsOn_drop_iff`: with the last text of a segment go its dependencies.
-/

namespace PromptMarkup

namespace Cache

/-- For each identifier the index lists the keys that have a text, each once, and no list is
empty. -/
structure Exact (cache : Cache) : Prop where
  listed : ∀ id key, key ∈ cache.keysOf id ↔ key.id = id ∧ cache.text? key ≠ none
  once : ∀ id, (cache.keysOf id).Nodup
  nonempty : ∀ id, cache.index.get? id ≠ some []

/-- The index of a cache without texts is exact. -/
theorem exact_nil (capacity : Nat) : Exact ⟨capacity, [], [], [], 0, 0⟩ :=
  ⟨fun _ _ => iff_of_false List.not_mem_nil fun h => h.2 rfl, fun _ => List.nodup_nil,
    fun _ => nofun⟩

namespace Exact

variable {cache : Cache} (h : cache.Exact)

include h

/-- An exact index lists every key that has a text. -/
theorem indexed : cache.Indexed :=
  fun key htext => (h.listed key.id key).mpr ⟨rfl, htext⟩

/-- The keys that an exact index has for an identifier are keys of that identifier. -/
theorem filed : cache.Filed :=
  fun id key hkey => ((h.listed id key).mp hkey).1

/-- Without a change of the index the same texts have to be there. -/
theorem of_index_eq {after : Cache} (hindex : after.index = cache.index)
    (htexts : ∀ key, after.text? key ≠ none ↔ cache.text? key ≠ none) : after.Exact := by
  have hkeys : ∀ id, after.keysOf id = cache.keysOf id := by
    intro id
    rw [keysOf, hindex]
    rfl
  refine ⟨fun id key => ?_, fun id => ?_, fun id => ?_⟩
  · rw [hkeys, htexts]
    exact h.listed id key
  · rw [hkeys]
    exact h.once id
  · rw [hindex]
    exact h.nonempty id

/-- The index is exact after a look-up. -/
theorem get (key : CacheKey) : (cache.get key).2.Exact := by
  apply h.of_index_eq
  · unfold Cache.get
    split <;> rfl
  · exact fun other => by rw [text?_get]

/-- The index is exact after a dependency was recorded. -/
theorem depend (parent child : NodeId) : (cache.depend parent child).Exact := by
  apply h.of_index_eq
  · rw [depend_eq]
  · exact fun key => by rw [text?_depend]

/-- The index is exact after a key was dropped. -/
theorem drop (key : CacheKey) : (cache.drop key).Exact := by
  refine ⟨fun id other => ?_, fun id => ?_, fun id => ?_⟩
  · rw [keysOf_drop, text?_drop]
    by_cases hother : key = other
    · subst hother
      by_cases hid : key.id = id
      · simp [hid]
      · rw [if_neg hid, h.listed]
        exact iff_of_false (fun hkey => hid hkey.1) fun hkey => hid hkey.1
    · rw [if_neg hother, ← h.listed]
      split
      · simp [Ne.symm hother]
      · rfl
  · rw [keysOf_drop]
    split
    · exact (h.once id).filter _
    · exact h.once id
  · unfold Cache.drop
    split
    · exact h.nonempty id
    · split
      · rw [Assoc.get?_erase]
        split
        · exact nofun
        · exact h.nonempty id
      · rename_i hne
        rw [Assoc.get?_set]
        split
        · exact fun hnil => hne (Option.some.inj hnil)
        · exact h.nonempty id

/-- The index is exact after room was made. -/
theorem makeRoom : cache.makeRoom.Exact :=
  dropOldest_induction (motive := Exact) (fun _ key _ _ _ hcache => hcache.drop key) _ h

/-- The index is exact with a text under a new key. -/
theorem insertNew {key : CacheKey} (hnew : cache.text? key = none) (text : Text) :
    (cache.insertNew key text).Exact := by
  refine ⟨fun id other => ?_, fun id => ?_, fun id => ?_⟩
  · rw [keysOf_insertNew, text?_insertNew hnew]
    by_cases hother : key = other
    · subst hother
      by_cases hid : key.id = id
      · simp [hid]
      · rw [if_neg hid, h.listed]
        exact iff_of_false (fun hkey => hid hkey.1) fun hkey => hid hkey.1
    · rw [if_neg hother, ← h.listed]
      split
      · simp [Ne.symm hother]
      · rfl
  · rw [keysOf_insertNew]
    split
    · have hnot : key ∉ cache.keysOf id := fun hkey => ((h.listed id key).mp hkey).2 hnew
      refine List.nodup_append.mpr ⟨h.once id, List.nodup_singleton key, ?_⟩
      rintro other hother _ hlast rfl
      exact hnot (List.mem_singleton.mp hlast ▸ hother)
    · exact h.once id
  · rw [Cache.insertNew, Assoc.get?_set]
    split
    · simp
    · exact h.nonempty id

/-- The index is exact with a text that is kept. -/
theorem set (key : CacheKey) (text : Text) : (cache.set key text).Exact := by
  rcases set_cases cache key text with ⟨hfound, hset⟩ | ⟨hnone, hset⟩
  · apply h.of_index_eq
    · rw [hset]
    · intro other
      rw [text?_set_of_ne_none hfound]
      split
      · rename_i heq
        exact iff_of_true nofun (heq ▸ hfound)
      · rfl
  · rw [hset]
    exact h.makeRoom.insertNew (text?_makeRoom_eq_none h.indexed hnone) text

/-- The index is exact after an invalidation. -/
theorem invalidate (id : NodeId) : (cache.invalidate id).Exact :=
  invalidate_induction (motive := Exact) (fun _ key hcache => hcache.drop key)
    (fun _ _ hcache => hcache.of_index_eq rfl fun _ => Iff.rfl) id h

/-- The index is exact after the invalidation of a tree. -/
theorem invalidateTree (id : NodeId) : (cache.invalidateTree id).Exact :=
  invalidateTree_induction (motive := Exact) (fun _ key hcache => hcache.drop key)
    (fun _ _ hcache => hcache.of_index_eq rfl fun _ => Iff.rfl) id h

/-! ## What is forgotten -/

/-- Invalidation forgets the texts of a segment and no others. -/
theorem text?_invalidate {id : NodeId} (hid : id.isEmpty = false) (key : CacheKey) :
    (cache.invalidate id).text? key = if key.id = id then none else cache.text? key := by
  split
  · exact invalidate_lacks h.indexed hid key ‹_›
  · exact Cache.text?_invalidate h.filed (Ne.symm ‹_›)

/-- Invalidation removes the entries of a segment and leaves all others in their order. -/
theorem entries_invalidate {id : NodeId} (hid : id.isEmpty = false) :
    (cache.invalidate id).entries = cache.entries.filter fun entry => entry.1.id ≠ id := by
  have hfold : ∀ (keys : List CacheKey) (cache : Cache),
      (keys.foldl Cache.drop cache).entries = cache.entries.filter fun entry => entry.1 ∉ keys := by
    intro keys
    induction keys with
    | nil => simp
    | cons key rest ih =>
      intro cache
      rw [List.foldl_cons, ih, entries_drop, Assoc.erase, List.filter_filter]
      exact List.filter_congr fun entry _ => by simp [Bool.and_comm]
  have hkeys : (cache.invalidate id).entries =
      cache.entries.filter fun entry => entry.1 ∉ cache.keysOf id := by
    simpa [Cache.invalidate, hid, keysOf] using hfold (cache.keysOf id) cache
  rw [hkeys]
  refine List.filter_congr fun entry hentry => ?_
  have htext : cache.text? entry.1 ≠ none := mem_keys_iff.mp (List.mem_map_of_mem hentry)
  simp [h.listed, htext]

/-- With the last key of a segment go its dependencies. -/
theorem dependenciesOf_drop_self {key : CacheKey} (hfound : cache.text? key ≠ none) :
    (cache.drop key).dependenciesOf key.id =
      if (cache.keysOf key.id).filter (· ≠ key) = [] then [] else cache.dependenciesOf key.id := by
  have hlisted := (h.listed key.id key).mpr ⟨rfl, hfound⟩
  unfold keysOf at hlisted ⊢
  unfold dependenciesOf Cache.drop
  split
  · rename_i hnone
    rw [hnone] at hlisted
    cases hlisted
  · rename_i keys hkeys
    rw [hkeys, Option.getD_some]
    split
    · rename_i hnil
      rw [if_pos hnil, Assoc.get?_erase, if_pos rfl]
      rfl
    · rename_i hne
      rw [if_neg hne]

/-- With a text that is dropped the dependencies of its segment go if no other text of the
segment is left, and no other dependencies. -/
theorem dependsOn_drop_iff {key : CacheKey} (hfound : cache.text? key ≠ none)
    {parent child : NodeId} :
    (cache.drop key).DependsOn parent child ↔
      cache.DependsOn parent child ∧
        (parent = key.id → ∃ other, cache.text? other ≠ none ∧ other ≠ key ∧ other.id = key.id) := by
  by_cases hparent : key.id = parent
  · subst hparent
    have hleft : (cache.keysOf key.id).filter (· ≠ key) = [] ↔
        ¬∃ other, cache.text? other ≠ none ∧ other ≠ key ∧ other.id = key.id := by
      simp only [List.filter_eq_nil_iff, h.listed, decide_eq_true_eq, not_exists]
      exact forall_congr' fun other =>
        ⟨fun hnone hsome => hnone ⟨hsome.2.2, hsome.1⟩ hsome.2.1,
          fun hnone hlisted hne => hnone ⟨hlisted.2, hne, hlisted.1⟩⟩
    rw [DependsOn, DependsOn, h.dependenciesOf_drop_self hfound]
    split
    · rename_i hnil
      exact iff_of_false List.not_mem_nil fun hedge => hleft.mp hnil (hedge.2 rfl)
    · rename_i hne
      exact (and_iff_left fun _ => not_not.mp fun hnone => hne (hleft.mpr hnone)).symm
  · rw [DependsOn, DependsOn, dependenciesOf_drop cache hparent]
    exact (and_iff_left fun heq => absurd heq.symm hparent).symm

end Exact

/-! ## What is left -/

/-- Where a key is dropped the other entries are left in their order. -/
theorem drop_entries_sublist {cache : Cache} {entries : Assoc CacheKey Text}
    (h : cache.entries.Sublist entries) (key : CacheKey) :
    (cache.drop key).entries.Sublist entries := by
  rw [entries_drop]
  exact (Assoc.erase_sublist key _).trans h

/-- The invalidation of a segment leaves entries in their order. -/
theorem invalidate_entries_sublist (cache : Cache) (id : NodeId) :
    (cache.invalidate id).entries.Sublist cache.entries :=
  invalidate_induction (motive := fun after => after.entries.Sublist cache.entries)
    (fun _ key h => drop_entries_sublist h key) (fun _ _ h => h) id (List.Sublist.refl _)

/-- The invalidation of a tree leaves entries in their order. -/
theorem invalidateTree_entries_sublist (cache : Cache) (id : NodeId) :
    (cache.invalidateTree id).entries.Sublist cache.entries :=
  invalidateTree_induction (motive := fun after => after.entries.Sublist cache.entries)
    (fun _ key h => drop_entries_sublist h key) (fun _ _ h => h) id (List.Sublist.refl _)

end Cache

end PromptMarkup
