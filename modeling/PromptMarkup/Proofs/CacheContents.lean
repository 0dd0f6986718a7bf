import PromptMarkup.Cache.Basic
import PromptMarkup.Proofs.MapKeys

/-!
# What a cache holds

Every operation of the cache is described by the texts that can be looked up after
it.  All but {lit}`set` only forget texts, and {lit}`set` adds one.  The index has to
list every key that has a text, or invalidation would miss it; every operation keeps
that up.

Main statements:

- {lit}`text?_set_cases`: a text that is found after {lit}`set` is the new one or was
  there before.
- {lit}`invalidate_induction` and {lit}`invalidateTree_induction`: what is kept where a key
  is dropped, or the dependencies of a segment, is kept by invalidation.
- {lit}`invalidate_lacks` and {lit}`invalidateTree_lacks`: after its invalidation a
  segment has no text, under whatever options.
-/

namespace PromptMarkup

namespace Cache

/-- The text under a key. -/
def text? (cache : Cache) (key : CacheKey) : Option Text :=
  cache.entries.get? key

/-- The keys that the index has for an identifier. -/
def keysOf (cache : Cache) (id : NodeId) : List CacheKey :=
  (cache.index.get? id).getD []

/-- The index lists every key that has a text. -/
def Indexed (cache : Cache) : Prop :=
  ∀ key, cache.text? key ≠ none → key ∈ cache.keysOf key.id

/-- Every text of one cache stands under the same key in another. -/
def ForgetsFrom (after before : Cache) : Prop :=
  ∀ key text, after.text? key = some text → before.text? key = some text

/-- Forgetting nothing. -/
theorem ForgetsFrom.refl (cache : Cache) : cache.ForgetsFrom cache :=
  fun _ _ h => h

/-- Forgetting in two steps. -/
theorem ForgetsFrom.trans {last middle first : Cache} (h : last.ForgetsFrom middle)
    (h' : middle.ForgetsFrom first) : last.ForgetsFrom first :=
  fun key text hlast => h' key text (h key text hlast)

/-- What was forgotten once stays forgotten. -/
theorem ForgetsFrom.text?_eq_none {after before : Cache} (h : after.ForgetsFrom before)
    {key : CacheKey} (hnone : before.text? key = none) : after.text? key = none := by
  cases htext : after.text? key with
  | none => rfl
  | some text => exact absurd (h key text htext) (by simp [hnone])

/-- No text is kept for an identifier, under whatever options. -/
def Lacks (cache : Cache) (id : NodeId) : Prop :=
  ∀ key : CacheKey, key.id = id → cache.text? key = none

/-- Forgetting more keeps away what was forgotten. -/
theorem Lacks.mono {after before : Cache} {id : NodeId} (h : before.Lacks id)
    (hforgets : after.ForgetsFrom before) : after.Lacks id :=
  fun key hkey => hforgets.text?_eq_none (h key hkey)

/-- An empty cache holds no text. -/
@[simp] theorem text?_empty (size : Int) (key : CacheKey) : (empty size).text? key = none :=
  rfl

/-- The index of an empty cache misses nothing. -/
theorem indexed_empty (size : Int) : (empty size).Indexed :=
  fun _ h => absurd (text?_empty size _) h

/-! ## Looking up -/

/-- Looking a text up gives what is there. -/
theorem get_eq (cache : Cache) (key : CacheKey) :
    cache.get key = (cache.text? key, (cache.get key).2) := by
  unfold get text?
  split <;> simp_all

/-- Looking a text up changes no text. -/
@[simp] theorem text?_get (cache : Cache) (key other : CacheKey) :
    (cache.get key).2.text? other = cache.text? other := by
  unfold get
  split
  · rename_i text htext
    rw [text?, Assoc.get?_append, Assoc.get?_erase]
    by_cases h : key = other
    · simp [h, Assoc.get?, text?, ← htext]
    · simp [h, Assoc.get?, text?]
  · rfl

/-- Looking a text up leaves the index alone. -/
@[simp] theorem keysOf_get (cache : Cache) (key : CacheKey) (id : NodeId) :
    (cache.get key).2.keysOf id = cache.keysOf id := by
  unfold get
  split <;> rfl

/-- Looking a text up leaves a cache as large as it is. -/
@[simp] theorem capacity_get (cache : Cache) (key : CacheKey) :
    (cache.get key).2.capacity = cache.capacity := by
  unfold get
  split <;> rfl

/-- The index still lists all keys after a look-up. -/
theorem Indexed.get {cache : Cache} (h : cache.Indexed) (key : CacheKey) :
    (cache.get key).2.Indexed := by
  intro other hother
  rw [text?_get] at hother
  rw [keysOf_get]
  exact h other hother

/-! ## Forgetting -/

/-- Dropping a key removes its text. -/
theorem entries_drop (cache : Cache) (key : CacheKey) :
    (cache.drop key).entries = cache.entries.erase key := by
  unfold drop
  split
  · rfl
  · split <;> rfl

/-- After dropping a key it has no text, and every other key has what it had. -/
theorem text?_drop (cache : Cache) (key other : CacheKey) :
    (cache.drop key).text? other = if key = other then none else cache.text? other := by
  rw [text?, entries_drop, Assoc.get?_erase]
  rfl

/-- Dropping a key strikes it from the index and no other. -/
theorem keysOf_drop (cache : Cache) (key : CacheKey) (id : NodeId) :
    (cache.drop key).keysOf id =
      if key.id = id then (cache.keysOf id).filter (· ≠ key) else cache.keysOf id := by
  unfold keysOf drop
  split
  · rename_i hnone
    by_cases hid : key.id = id
    · subst hid
      simp [hnone]
    · rw [if_neg hid]
  · rename_i keys hkeys
    split
    · rename_i hnil
      by_cases hid : key.id = id
      · subst hid
        rw [Assoc.get?_erase, if_pos rfl, if_pos rfl, hkeys, Option.getD_some, hnil]
        rfl
      · rw [Assoc.get?_erase, if_neg hid, if_neg hid]
    · by_cases hid : key.id = id
      · subst hid
        rw [Assoc.get?_set, if_pos rfl, if_pos rfl, hkeys]
        rfl
      · rw [Assoc.get?_set, if_neg hid, if_neg hid]

/-- A key stays in the index where another one is dropped. -/
theorem mem_keysOf_drop {cache : Cache} {key other : CacheKey} (hne : key ≠ other)
    (hmem : other ∈ cache.keysOf other.id) : other ∈ (cache.drop key).keysOf other.id := by
  rw [keysOf_drop]
  split
  · simp [hmem, hne.symm]
  · exact hmem

/-- Dropping a key only forgets. -/
theorem forgetsFrom_drop (cache : Cache) (key : CacheKey) :
    (cache.drop key).ForgetsFrom cache := by
  intro other text h
  rw [text?_drop] at h
  split at h
  · cases h
  · exact h

/-- The index still lists all keys after one was dropped. -/
theorem Indexed.drop {cache : Cache} (h : cache.Indexed) (key : CacheKey) :
    (cache.drop key).Indexed := by
  intro other hother
  rw [text?_drop] at hother
  split at hother
  · exact absurd rfl hother
  · rename_i hne
    exact mem_keysOf_drop hne (h other hother)

/-- Making room only forgets, and the index still lists all keys. -/
theorem dropOldest_forgets (count : Nat) (cache : Cache) (h : cache.Indexed) :
    (dropOldest count cache).ForgetsFrom cache ∧ (dropOldest count cache).Indexed := by
  induction count generalizing cache with
  | zero => exact ⟨ForgetsFrom.refl cache, h⟩
  | succ count ih =>
    unfold dropOldest
    split
    · exact ⟨ForgetsFrom.refl cache, h⟩
    · rename_i key _ _ _
      rcases ih (cache.drop key) (h.drop key) with ⟨hforgets, hindexed⟩
      exact ⟨hforgets.trans (forgetsFrom_drop cache key), hindexed⟩

/-- A condition that is kept where the oldest text is dropped is kept where room is made. -/
theorem dropOldest_induction {motive : Cache → Prop}
    (drop : ∀ cache key text rest, cache.entries = (key, text) :: rest → motive cache →
      motive (cache.drop key)) (count : Nat) {cache : Cache} (h : motive cache) :
    motive (dropOldest count cache) := by
  induction count generalizing cache with
  | zero => exact h
  | succ count ih =>
    unfold dropOldest
    split
    · exact h
    · rename_i key text rest hentries
      exact ih (drop cache key text rest hentries h)

/-- Where there is room no text makes room. -/
theorem makeRoom_of_lt {cache : Cache} (h : cache.size < cache.capacity) :
    cache.makeRoom = cache := by
  rw [makeRoom, Nat.sub_eq_zero_of_le h]
  rfl

/-! ## Forgetting step by step -/

section Fold

variable {α : Type} {step : Cache → α → Cache}

/-- If every step only forgets and keeps the index, so do many. -/
theorem foldl_forgets
    (hstep : ∀ cache item, cache.Indexed →
      (step cache item).ForgetsFrom cache ∧ (step cache item).Indexed)
    (items : List α) {cache : Cache} (h : cache.Indexed) :
    (items.foldl step cache).ForgetsFrom cache ∧ (items.foldl step cache).Indexed := by
  induction items generalizing cache with
  | nil => exact ⟨ForgetsFrom.refl cache, h⟩
  | cons item rest ih =>
    rcases hstep cache item h with ⟨hforgets, hindexed⟩
    rcases ih hindexed with ⟨hrest, hrestIndexed⟩
    exact ⟨hrest.trans hforgets, hrestIndexed⟩

/-- What one of the steps clears is gone after all of them. -/
theorem foldl_lacks
    (hstep : ∀ cache item, cache.Indexed →
      (step cache item).ForgetsFrom cache ∧ (step cache item).Indexed)
    {items : List α} {item : α} (hmem : item ∈ items) {id : NodeId}
    (hclears : ∀ cache, cache.Indexed → (step cache item).Lacks id)
    {cache : Cache} (h : cache.Indexed) : (items.foldl step cache).Lacks id := by
  induction items generalizing cache with
  | nil => cases hmem
  | cons first rest ih =>
    have hindexed := (hstep cache first h).2
    rcases List.mem_cons.mp hmem with heq | hmem
    · subst heq
      exact (hclears cache h).mono (foldl_forgets hstep rest hindexed).1
    · exact ih hmem hindexed

end Fold

/-! ## Keeping -/

/-- A text kept under a key without one is found there, and all others as before. -/
theorem text?_insertNew {cache : Cache} {key : CacheKey} (hnew : cache.text? key = none)
    (text : Text) (other : CacheKey) :
    (cache.insertNew key text).text? other =
      if key = other then some text else cache.text? other := by
  rw [insertNew, text?, Assoc.get?_append]
  by_cases h : key = other
  · subst h
    rw [text?] at hnew
    simp [hnew, Assoc.get?]
  · simp [h, Assoc.get?, text?]

/-- A new key comes last in the index of its identifier. -/
theorem keysOf_insertNew (cache : Cache) (key : CacheKey) (text : Text) (id : NodeId) :
    (cache.insertNew key text).keysOf id =
      if key.id = id then cache.keysOf id ++ [key] else cache.keysOf id := by
  rw [keysOf, insertNew, Assoc.get?_set]
  by_cases hid : key.id = id
  · simp [hid, keysOf]
  · rw [if_neg hid, if_neg hid, keysOf]

/-- A new text comes with its key in the index. -/
theorem Indexed.insertNew {cache : Cache} (h : cache.Indexed) {key : CacheKey}
    (hnew : cache.text? key = none) (text : Text) : (cache.insertNew key text).Indexed := by
  intro other hother
  rw [text?_insertNew hnew] at hother
  rw [keysOf_insertNew]
  by_cases heq : key = other
  · simp [heq]
  · rw [if_neg heq] at hother
    have hmem := h other hother
    split
    · exact List.mem_append_left _ hmem
    · exact hmem

/-- A text replaces the one under its key, or room is made for it. -/
theorem set_cases (cache : Cache) (key : CacheKey) (text : Text) :
    (cache.text? key ≠ none ∧ cache.set key text =
        { cache with entries := cache.entries.erase key ++ [(key, text)] }) ∨
      (cache.text? key = none ∧ cache.set key text = cache.makeRoom.insertNew key text) := by
  unfold set text?
  split
  · rename_i old hold
    exact Or.inl ⟨by rw [hold]; exact nofun, rfl⟩
  · rename_i hnone
    exact Or.inr ⟨hnone, rfl⟩

/-- Room is made for a text under a new key. -/
theorem set_of_new {cache : Cache} {key : CacheKey} (hnew : cache.text? key = none) (text : Text) :
    cache.set key text = cache.makeRoom.insertNew key text :=
  ((set_cases cache key text).resolve_left fun hold => hold.1 hnew).2

/-- A text that replaces another is found under its key, and all others as before. -/
theorem text?_set_of_ne_none {cache : Cache} {key : CacheKey} (hfound : cache.text? key ≠ none)
    (text : Text) (other : CacheKey) :
    (cache.set key text).text? other = if key = other then some text else cache.text? other := by
  rcases set_cases cache key text with ⟨-, hset⟩ | ⟨hnone, -⟩
  · rw [hset, text?, Assoc.get?_append, Assoc.get?_erase]
    by_cases heq : key = other
    · simp [heq, Assoc.get?]
    · simp [heq, Assoc.get?, text?]
  · exact absurd hnone hfound

/-- To look a text up that is there is to keep it once more, and to count it. -/
theorem get_of_eq_some {cache : Cache} {key : CacheKey} {text : Text}
    (htext : cache.text? key = some text) :
    (cache.get key).2 = { cache.set key text with hits := cache.hits + 1 } := by
  rw [text?] at htext
  rw [get, set, htext]

/-- To look a text up that is not there is only counted. -/
theorem get_of_eq_none {cache : Cache} {key : CacheKey} (hnone : cache.text? key = none) :
    (cache.get key).2 = { cache with misses := cache.misses + 1 } := by
  rw [text?] at hnone
  rw [get, hnone]

/-- A text that is found after one was kept is that one or was there before; the index
still lists all keys. -/
theorem text?_set_cases {cache : Cache} (h : cache.Indexed) (key : CacheKey) (text : Text) :
    (cache.set key text).Indexed ∧
      ∀ other found, (cache.set key text).text? other = some found →
        (other = key ∧ found = text) ∨ cache.text? other = some found := by
  have hcases : ∀ {before : Option Text} {other : CacheKey} {found : Text},
      (if key = other then some text else before) = some found →
        (other = key ∧ found = text) ∨ before = some found := by
    intro before other found hfound
    split at hfound
    · rename_i heq
      exact Or.inl ⟨heq.symm, (Option.some.inj hfound).symm⟩
    · exact Or.inr hfound
  rcases set_cases cache key text with ⟨hold, hset⟩ | ⟨hnone, hset⟩
  · have htext := text?_set_of_ne_none hold text
    refine ⟨fun other hother => ?_, fun other found hfound => ?_⟩
    · have hkeys : (cache.set key text).keysOf other.id = cache.keysOf other.id := by
        rw [hset]
        rfl
      rw [hkeys]
      rw [htext] at hother
      split at hother
      · rename_i heq
        exact heq ▸ h key hold
      · exact h other hother
    · rw [htext] at hfound
      exact hcases hfound
  · rcases dropOldest_forgets (cache.size + 1 - cache.capacity) cache h with ⟨hforgets, hindexed⟩
    have hnew : cache.makeRoom.text? key = none := hforgets.text?_eq_none hnone
    rw [hset]
    refine ⟨hindexed.insertNew hnew text, fun other found hfound => ?_⟩
    rw [text?_insertNew hnew] at hfound
    exact (hcases hfound).imp_right (hforgets other found)

/-- What has no text has none after room was made. -/
theorem text?_makeRoom_eq_none {cache : Cache} (h : cache.Indexed) {key : CacheKey}
    (hnone : cache.text? key = none) : cache.makeRoom.text? key = none :=
  (dropOldest_forgets (cache.size + 1 - cache.capacity) cache h).1.text?_eq_none hnone

/-- A text that was kept is found. -/
theorem text?_set_self {cache : Cache} (h : cache.Indexed) (key : CacheKey) (text : Text) :
    (cache.set key text).text? key = some text := by
  rcases set_cases cache key text with ⟨-, hset⟩ | ⟨hnone, hset⟩
  · rw [hset, text?, Assoc.get?_append, Assoc.get?_erase]
    simp [Assoc.get?]
  · rw [hset, text?_insertNew (text?_makeRoom_eq_none h hnone), if_pos rfl]

/-! ## Keys in the order of their use -/

/-- The keys with a text are those that can be looked up. -/
theorem mem_keys_iff {cache : Cache} {key : CacheKey} :
    key ∈ cache.entries.keys ↔ cache.text? key ≠ none :=
  Assoc.mem_keys_iff

/-- A key without a text is none of the keys that have one. -/
theorem keys_filter_of_eq_none {cache : Cache} {key : CacheKey} (hnone : cache.text? key = none) :
    cache.entries.keys.filter (· ≠ key) = cache.entries.keys := by
  refine List.filter_eq_self.mpr fun other hother => ?_
  have hne : other ≠ key := fun heq => mem_keys_iff.mp (heq ▸ hother) hnone
  simpa using hne

/-- A key that is looked up and found was used last. -/
theorem keys_get {cache : Cache} {key : CacheKey} (hfound : cache.text? key ≠ none) :
    (cache.get key).2.entries.keys = cache.entries.keys.filter (· ≠ key) ++ [key] := by
  unfold Cache.get
  split
  · rw [Assoc.keys, List.map_append, ← Assoc.keys, Assoc.keys_erase]
    rfl
  · rename_i hnone
    exact absurd hnone hfound

/-- A key that is looked up and not found changes none. -/
theorem entries_get_of_eq_none {cache : Cache} {key : CacheKey} (hnone : cache.text? key = none) :
    (cache.get key).2.entries = cache.entries := by
  rw [get_of_eq_none hnone]

/-- A dropped key is no key any more. -/
theorem keys_drop (cache : Cache) (key : CacheKey) :
    (cache.drop key).entries.keys = cache.entries.keys.filter (· ≠ key) := by
  rw [entries_drop, Assoc.keys_erase]

/-- A new key was used last. -/
theorem keys_insertNew (cache : Cache) (key : CacheKey) (text : Text) :
    (cache.insertNew key text).entries.keys = cache.entries.keys ++ [key] := by
  rw [Cache.insertNew, Assoc.keys, List.map_append]
  rfl

/-- A key that was kept was used last. -/
theorem keys_set_of_ne_none {cache : Cache} {key : CacheKey} (hfound : cache.text? key ≠ none)
    (text : Text) :
    (cache.set key text).entries.keys = cache.entries.keys.filter (· ≠ key) ++ [key] := by
  rcases set_cases cache key text with ⟨-, hset⟩ | ⟨hnone, -⟩
  · rw [hset, Assoc.keys, List.map_append, ← Assoc.keys, Assoc.keys_erase]
    rfl
  · exact absurd hnone hfound

/-- Where a text replaces another there are no more of them. -/
theorem size_set_of_ne_none_le {cache : Cache} {key : CacheKey} (hfound : cache.text? key ≠ none)
    (text : Text) : (cache.set key text).size ≤ cache.size := by
  -- The key is moved, so the keys are no more than before.
  have hless : (cache.entries.keys.filter (· ≠ key)).length < cache.entries.keys.length :=
    List.length_filter_lt_length_iff_exists.mpr ⟨key, mem_keys_iff.mpr hfound, by simp⟩
  have hlength := congrArg List.length (keys_set_of_ne_none hfound text)
  rw [List.length_append, List.length_singleton] at hlength
  simp only [Assoc.keys, List.length_map] at hless hlength
  rw [size, hlength]
  exact hless

/-! ## Dependencies and invalidation -/

/-- Recording a dependency changes nothing but the dependencies. -/
theorem depend_eq (cache : Cache) (parent child : NodeId) :
    cache.depend parent child =
      { cache with dependencies := (cache.depend parent child).dependencies } := by
  unfold depend
  dsimp only
  split <;> rfl

/-- Recording a dependency changes no text. -/
@[simp] theorem text?_depend (cache : Cache) (parent child : NodeId) (key : CacheKey) :
    (cache.depend parent child).text? key = cache.text? key := by
  rw [depend_eq]
  rfl

/-- Recording a dependency leaves the index alone. -/
@[simp] theorem keysOf_depend (cache : Cache) (parent child id : NodeId) :
    (cache.depend parent child).keysOf id = cache.keysOf id := by
  rw [depend_eq]
  rfl

/-- The index still lists all keys after a dependency was recorded. -/
theorem Indexed.depend {cache : Cache} (h : cache.Indexed) (parent child : NodeId) :
    (cache.depend parent child).Indexed := by
  intro key hkey
  rw [text?_depend] at hkey
  rw [keysOf_depend]
  exact h key hkey

/-- After dropping some keys none of them has a text, and every other key has what it
had. -/
theorem text?_foldl_drop (keys : List CacheKey) (cache : Cache) (key : CacheKey) :
    (keys.foldl Cache.drop cache).text? key =
      if key ∈ keys then none else cache.text? key := by
  induction keys generalizing cache with
  | nil => rfl
  | cons first rest ih =>
    rw [List.foldl_cons, ih, text?_drop]
    by_cases hrest : key ∈ rest
    · simp [hrest]
    · by_cases hfirst : first = key
      · simp [hfirst]
      · simp [hrest, hfirst, Ne.symm hfirst]

/-- After the invalidation of a segment it has no text, under whatever options. -/
theorem invalidate_lacks {cache : Cache} (h : cache.Indexed) {id : NodeId}
    (hid : id.isEmpty = false) : (cache.invalidate id).Lacks id := by
  intro key hkey
  have hfold : (cache.invalidate id).text? key =
      ((cache.keysOf id).foldl Cache.drop cache).text? key := by
    simp [invalidate, hid, text?, keysOf]
  rw [hfold, text?_foldl_drop]
  split
  · rfl
  · rename_i hmem
    -- A key that the index does not list has no text to begin with.
    exact Classical.byContradiction fun htext => hmem (hkey ▸ h key htext)

/-! ## Invalidation step by step -/

section Induction

variable {motive : Cache → Prop}
  (drop : ∀ cache key, motive cache → motive (cache.drop key))
  (forget : ∀ cache id, motive cache →
    motive { cache with dependencies := cache.dependencies.erase id })

include drop forget

/-- What is kept where a key is dropped, or the dependencies of a segment, is kept by the
invalidation of a segment. -/
theorem invalidate_induction (id : NodeId) {cache : Cache} (h : motive cache) :
    motive (cache.invalidate id) := by
  have hfold : ∀ (keys : List CacheKey) (cache : Cache), motive cache →
      motive (keys.foldl Cache.drop cache) := by
    intro keys
    induction keys with
    | nil => exact fun _ hcache => hcache
    | cons key rest ih => exact fun cache hcache => ih _ (drop cache key hcache)
  unfold invalidate
  split
  · exact h
  · exact forget _ id (hfold _ cache h)

/-- It is kept by the invalidation of all segments that a queue reaches. -/
theorem invalidateFrom_induction (seen queue : List NodeId) {cache : Cache} (h : motive cache) :
    motive (invalidateFrom seen queue cache) := by
  fun_induction invalidateFrom seen queue cache with
  | case1 seen cache => exact h
  | case2 seen cache id queue hseen ih => exact ih h
  | case3 seen cache id queue hseen children ih => exact ih (invalidate_induction drop forget id h)

/-- It is kept by the invalidation of a tree. -/
theorem invalidateTree_induction (id : NodeId) {cache : Cache} (h : motive cache) :
    motive (cache.invalidateTree id) := by
  unfold invalidateTree
  split
  · exact h
  · exact invalidateFrom_induction drop forget [] [id] h

end Induction

/-! ## Counters -/

/-- One cache is as large as another, and has counted as much. -/
structure SameCounters (cache after : Cache) : Prop where
  capacity : after.capacity = cache.capacity
  hits : after.hits = cache.hits
  misses : after.misses = cache.misses

/-- A cache is as large as itself, and has counted as much. -/
theorem SameCounters.refl (cache : Cache) : cache.SameCounters cache :=
  ⟨rfl, rfl, rfl⟩

/-- Dropping a key changes no counter. -/
theorem SameCounters.drop {cache after : Cache} (h : cache.SameCounters after) (key : CacheKey) :
    cache.SameCounters (after.drop key) := by
  rcases h with ⟨hcapacity, hhits, hmisses⟩
  unfold Cache.drop
  split
  · exact ⟨hcapacity, hhits, hmisses⟩
  · split <;> exact ⟨hcapacity, hhits, hmisses⟩

/-- Keeping a text changes no counter. -/
theorem sameCounters_set (cache : Cache) (key : CacheKey) (text : Text) :
    cache.SameCounters (cache.set key text) := by
  have hroom : cache.SameCounters cache.makeRoom :=
    dropOldest_induction (motive := cache.SameCounters) (fun _ key _ _ _ h => h.drop key) _
      (SameCounters.refl cache)
  rcases set_cases cache key text with ⟨-, hset⟩ | ⟨-, hset⟩
  · rw [hset]
    exact ⟨rfl, rfl, rfl⟩
  · rw [hset]
    exact ⟨hroom.capacity, hroom.hits, hroom.misses⟩

/-- Invalidation changes no counter. -/
theorem sameCounters_invalidate (cache : Cache) (id : NodeId) :
    cache.SameCounters (cache.invalidate id) :=
  invalidate_induction (motive := cache.SameCounters) (fun _ key h => h.drop key)
    (fun _ _ h => ⟨h.capacity, h.hits, h.misses⟩) id (SameCounters.refl cache)

/-- The invalidation of a tree changes no counter. -/
theorem sameCounters_invalidateTree (cache : Cache) (id : NodeId) :
    cache.SameCounters (cache.invalidateTree id) :=
  invalidateTree_induction (motive := cache.SameCounters) (fun _ key h => h.drop key)
    (fun _ _ h => ⟨h.capacity, h.hits, h.misses⟩) id (SameCounters.refl cache)

/-! ## What is forgotten -/

section Forgets

variable (cache : Cache) (id : NodeId) (h : cache.Indexed)

/-- Dropping a key only forgets more. -/
theorem drop_forgets {before : Cache} (cache : Cache) (key : CacheKey)
    (h : cache.ForgetsFrom before ∧ cache.Indexed) :
    (cache.drop key).ForgetsFrom before ∧ (cache.drop key).Indexed :=
  ⟨(forgetsFrom_drop cache key).trans h.1, h.2.drop key⟩

include h

/-- Invalidation only forgets, and the index still lists all keys. -/
theorem invalidate_forgets :
    (cache.invalidate id).ForgetsFrom cache ∧ (cache.invalidate id).Indexed :=
  invalidate_induction drop_forgets (fun _ _ h => h) id ⟨ForgetsFrom.refl cache, h⟩

/-- Invalidating along a queue only forgets, and the index still lists all keys. -/
theorem invalidateFrom_forgets (seen queue : List NodeId) :
    (invalidateFrom seen queue cache).ForgetsFrom cache ∧
      (invalidateFrom seen queue cache).Indexed :=
  invalidateFrom_induction drop_forgets (fun _ _ h => h) seen queue ⟨ForgetsFrom.refl cache, h⟩

/-- Invalidating a tree only forgets, and the index still lists all keys. -/
theorem invalidateTree_forgets :
    (cache.invalidateTree id).ForgetsFrom cache ∧ (cache.invalidateTree id).Indexed :=
  invalidateTree_induction drop_forgets (fun _ _ h => h) id ⟨ForgetsFrom.refl cache, h⟩

end Forgets

/-- After the invalidation of a tree its root has no text, under whatever options. -/
theorem invalidateTree_lacks {cache : Cache} (h : cache.Indexed) {id : NodeId}
    (hid : id.isEmpty = false) : (cache.invalidateTree id).Lacks id := by
  have hfirst := invalidate_lacks h hid
  have hindexed := (invalidate_forgets cache id h).2
  rw [invalidateTree, hid, if_neg Bool.false_ne_true, invalidateFrom, if_neg List.not_mem_nil]
  exact hfirst.mono (invalidateFrom_forgets _ hindexed _ _).1

end Cache

end PromptMarkup
