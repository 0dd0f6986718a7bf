import PromptMarkup.Assoc
import PromptMarkup.Options.Compile
import PromptMarkup.Segment.Basic

/-!
# The cache of compiled texts

The cache holds the text of segments under their identifier and the options that
tell texts apart.  When it is full, the text that was used longest ago makes room.
Beside the texts it keeps an index of the keys of each identifier, and the
dependencies of segments on their children, which live as long as a text of the
segment does.

Main statements:

- {lit}`invalidate_dependencies_sublist`: invalidation only forgets dependencies.
- {lit}`openEdges_visit`: visiting a segment in the invalidation of a tree uses up
  its dependencies, so that the visits come to an end even where segments depend on
  each other in a circle.
-/

namespace PromptMarkup

/-- What the text of a segment is kept under. -/
structure CacheKey where
  id : NodeId
  expand : Bool
  seed : Int
deriving DecidableEq

/-- The key for a segment and options: the depth does not count, and no seed is the
seed zero. -/
def CacheKey.of (id : NodeId) (options : CompileOptions) : CacheKey :=
  ⟨id, options.expandWildcards, options.seed.getD 0⟩

/-- A cache of compiled texts. -/
structure Cache where
  /-- The greatest number of texts, one at least. -/
  capacity : Nat
  /-- The texts, the one used longest ago first. -/
  entries : Assoc CacheKey Text
  /-- The keys of the texts of each identifier that has any. -/
  index : Assoc NodeId (List CacheKey)
  /-- The identifiers that each identifier depends on. -/
  dependencies : Assoc NodeId (List NodeId)
  hits : Nat
  misses : Nat

namespace Cache

/-- The empty cache for a number of texts; it holds one at least. -/
def empty (size : Int) : Cache :=
  ⟨max 1 size.toNat, [], [], [], 0, 0⟩

/-- The number of texts. -/
def size (cache : Cache) : Nat :=
  cache.entries.length

/-! ## Texts -/

/-- Look a text up.  A text that is found was used last. -/
def get (cache : Cache) (key : CacheKey) : Option Text × Cache :=
  match cache.entries.get? key with
  | some text =>
    (some text,
      { cache with
        entries := cache.entries.erase key ++ [(key, text)]
        hits := cache.hits + 1 })
  | none => (none, { cache with misses := cache.misses + 1 })

/-- Forget a text.  With the last text of an identifier go its dependencies. -/
def drop (cache : Cache) (key : CacheKey) : Cache :=
  let entries := cache.entries.erase key
  match cache.index.get? key.id with
  | none => { cache with entries }
  | some keys =>
    match keys.filter (· ≠ key) with
    | [] =>
      { cache with
        entries
        index := cache.index.erase key.id
        dependencies := cache.dependencies.erase key.id }
    | keys => { cache with entries, index := cache.index.set key.id keys }

/-- Forget the texts used longest ago, a number of them. -/
def dropOldest : Nat → Cache → Cache
  | 0, cache => cache
  | count + 1, cache =>
    match cache.entries with
    | [] => cache
    | (key, _) :: _ => dropOldest count (cache.drop key)

/-- Forget as many texts as it takes to have room for one more. -/
def makeRoom (cache : Cache) : Cache :=
  dropOldest (cache.size + 1 - cache.capacity) cache

/-- Keep a new text under a key that has none. -/
def insertNew (cache : Cache) (key : CacheKey) (text : Text) : Cache :=
  let keys := (cache.index.get? key.id).getD []
  { cache with
    entries := cache.entries ++ [(key, text)]
    index := cache.index.set key.id (keys ++ [key]) }

/-- Keep a text, which was used last. -/
def set (cache : Cache) (key : CacheKey) (text : Text) : Cache :=
  match cache.entries.get? key with
  | some _ => { cache with entries := cache.entries.erase key ++ [(key, text)] }
  | none => cache.makeRoom.insertNew key text

/-! ## Dependencies and invalidation -/

/-- Record that one segment depends on another. -/
def depend (cache : Cache) (parent child : NodeId) : Cache :=
  let children := (cache.dependencies.get? parent).getD []
  if child ∈ children then cache
  else { cache with dependencies := cache.dependencies.set parent (children ++ [child]) }

/-- Forget all texts of a segment and its dependencies. -/
def invalidate (cache : Cache) (id : NodeId) : Cache :=
  if id.isEmpty then cache
  else
    let cache := ((cache.index.get? id).getD []).foldl drop cache
    { cache with dependencies := cache.dependencies.erase id }

/-- Forgetting a text forgets no dependencies but those of its segment. -/
theorem drop_dependencies_sublist (cache : Cache) (key : CacheKey) :
    (cache.drop key).dependencies.Sublist cache.dependencies := by
  unfold drop
  split
  · exact List.Sublist.refl _
  · split
    · exact Assoc.erase_sublist _ _
    · exact List.Sublist.refl _

/-- Invalidation forgets dependencies and adds none. -/
theorem invalidate_dependencies_sublist (cache : Cache) (id : NodeId) :
    (cache.invalidate id).dependencies.Sublist cache.dependencies := by
  have hfold : ∀ (keys : List CacheKey) (cache : Cache),
      (keys.foldl drop cache).dependencies.Sublist cache.dependencies := by
    intro keys
    induction keys with
    | nil => exact fun cache => List.Sublist.refl _
    | cons key keys ih =>
      exact fun cache => (ih (cache.drop key)).trans (drop_dependencies_sublist cache key)
  unfold invalidate
  split
  · exact List.Sublist.refl _
  · exact (Assoc.erase_sublist _ _).trans (hfold _ cache)

/-- The dependencies that are still to be followed, when some segments have been
visited. -/
def openEdges (seen : List NodeId) : Assoc NodeId (List NodeId) → Nat
  | [] => 0
  | (id, children) :: rest =>
    (if id ∈ seen then 0 else children.length) + openEdges seen rest

/-- Fewer dependencies leave fewer to follow. -/
theorem openEdges_le_of_sublist (seen : List NodeId) {few many : Assoc NodeId (List NodeId)}
    (h : few.Sublist many) : openEdges seen few ≤ openEdges seen many := by
  induction h with
  | slnil => exact Nat.le_refl _
  | cons entry _ ih =>
    simp only [openEdges] at *
    omega
  | cons_cons entry _ ih =>
    simp only [openEdges] at *
    omega

/-- Visiting a segment uses up its dependencies. -/
theorem openEdges_visit {seen : List NodeId} {id : NodeId} (h : id ∉ seen)
    (dependencies : Assoc NodeId (List NodeId)) :
    openEdges (id :: seen) dependencies + ((dependencies.get? id).getD []).length ≤
      openEdges seen dependencies := by
  have hmono : ∀ dependencies : Assoc NodeId (List NodeId),
      openEdges (id :: seen) dependencies ≤ openEdges seen dependencies := by
    intro dependencies
    induction dependencies with
    | nil => exact Nat.le_refl _
    | cons entry rest ih =>
      simp only [openEdges, List.mem_cons] at *
      split <;> split <;> grind
  induction dependencies with
  | nil => simp [openEdges, Assoc.get?]
  | cons entry rest ih =>
    obtain ⟨other, children⟩ := entry
    by_cases heq : other = id
    · subst heq
      have := hmono rest
      simp only [openEdges, List.mem_cons, true_or,
        ↓reduceIte, h, Assoc.get?, Option.getD_some] at *
      omega
    · simp only [openEdges, List.mem_cons, heq, false_or,
        Assoc.get?, ↓reduceIte] at *
      omega

/-- Invalidate the segments in a queue and all that they depend on, breadth first,
with some segments visited already. -/
def invalidateFrom (seen queue : List NodeId) (cache : Cache) : Cache :=
  match queue with
  | [] => cache
  | id :: queue =>
    if id ∈ seen then invalidateFrom seen queue cache
    else
      let children := ((cache.dependencies.get? id).getD []).filter fun child =>
        child ∉ id :: seen
      invalidateFrom (id :: seen) (queue ++ children) (cache.invalidate id)
termination_by queue.length + openEdges seen cache.dependencies
decreasing_by
  · simp only [List.length_cons]
    omega
  · have hvisit := openEdges_visit ‹_› cache.dependencies
    have hless := openEdges_le_of_sublist (id :: seen)
      (invalidate_dependencies_sublist cache id)
    have hfilter := List.length_filter_le (fun child => decide (child ∉ id :: seen))
      ((cache.dependencies.get? id).getD [])
    simp only [List.length_append, List.length_cons] at *
    omega

/-- Invalidate a segment and all that it depends on. -/
def invalidateTree (cache : Cache) (id : NodeId) : Cache :=
  if id.isEmpty then cache
  else invalidateFrom [] [id] cache

/-! ## Counters -/

/-- Forget everything, the counters included. -/
def clear (cache : Cache) : Cache :=
  ⟨cache.capacity, [], [], [], 0, 0⟩

/-- The share of look-ups that found a text. -/
def hitRate (cache : Cache) : Binary64 :=
  if cache.hits + cache.misses = 0 then .zero false
  else .ofQuotient false cache.hits (cache.hits + cache.misses)

end Cache

end PromptMarkup
