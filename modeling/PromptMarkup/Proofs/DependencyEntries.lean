import PromptMarkup.Proofs.CacheRefinement
import PromptMarkup.Proofs.IncrementalRuns

/-!
# Dependencies live as long as texts

The dependencies of a segment are recorded while it is compiled, before it has a text, and they
go with its last text.  In the middle of a compilation the segments from the root down to the one
that is compiled have dependencies but no text as yet, and room that is made for others may take
their last old text and with it what was recorded of them.  So the invariant names the segments
that are busy: every other segment with dependencies has a text.  A compilation that gives a text
leaves no more segments busy than it found; one that breaks off leaves those on the way down to
the segment that cannot be written.

Main statements:

- {lit}`Anchored.drop` and {lit}`Anchored.set`: the invariant is kept where a text is dropped, and
  keeping a text of a busy segment makes it busy no more.
- {lit}`Anchored.compileTree`: what a compilation leaves.
- {lit}`dependencies_bounded`: in a run without broken compilations every segment with dependencies
  has a text, so that no more segments have dependencies than there are texts.
-/

namespace PromptMarkup

/-- A tree breaks off at a segment that cannot be written.  The path has the identifiers of the
segments with children on the way from the root down to that segment. -/
inductive Segment.BreaksAlong : Segment NodeId → List NodeId → Prop where
  | here {node : Segment NodeId} {head : Head NodeId} {inner : Text} {fault : RenderError}
      (hhead : node.head? = some head) (hfault : head.kind.render inner = .error fault) :
      BreaksAlong node (if node.children = [] then [] else [head.id])
  | inside {node child : Segment NodeId} {head : Head NodeId} {path : List NodeId}
      (hhead : node.head? = some head) (hchild : child ∈ node.children)
      (hpath : BreaksAlong child path) : BreaksAlong node (head.id :: path)

namespace Cache

/-- Some text is kept for an identifier, under some options. -/
def HasText (cache : Cache) (id : NodeId) : Prop :=
  ∃ key : CacheKey, key.id = id ∧ cache.text? key ≠ none

/-- A cache for some number of texts in which every identifier with dependencies has a text or is
busy. -/
structure Anchored (cache : Cache) (room : Nat) (busy : NodeId → Prop) : Prop where
  exact : cache.Exact
  capacity : cache.capacity = room
  roomy : 0 < room
  fits : cache.size ≤ room
  once : cache.dependencies.keys.Nodup
  texts : ∀ id ∈ cache.dependencies.keys, busy id ∨ cache.HasText id

/-- An empty cache has no dependencies. -/
theorem anchored_nil {room : Nat} (hroomy : 0 < room) (busy : NodeId → Prop) :
    Anchored ⟨room, [], [], [], 0, 0⟩ room busy :=
  ⟨exact_nil room, rfl, hroomy, Nat.zero_le _, List.nodup_nil, nofun⟩

/-- With the last text of a segment go its dependencies, so while it has them it has a text. -/
theorem Exact.hasText_drop {cache : Cache} (h : cache.Exact) {key : CacheKey} {id : NodeId}
    (hid : id ∈ (cache.drop key).dependencies.keys) (htext : cache.HasText id) :
    (cache.drop key).HasText id := by
  rcases htext with ⟨found, rfl, hfound⟩
  by_cases hkey : key = found
  · subst hkey
    have hlisted := (h.listed key.id key).mpr ⟨rfl, hfound⟩
    -- The index has another key of the segment, or the dependencies would be gone.
    have hother : (cache.keysOf key.id).filter (· ≠ key) ≠ [] := by
      intro hnil
      unfold keysOf at hlisted hnil
      unfold Cache.drop at hid
      split at hid
      · rename_i hnone
        simp [hnone] at hlisted
      · rename_i keys hkeys
        rw [hkeys, Option.getD_some] at hnil
        rw [hnil, Assoc.keys_erase] at hid
        simp at hid
    rcases List.exists_mem_of_ne_nil _ hother with ⟨other, hmem⟩
    rcases List.mem_filter.mp hmem with ⟨hmem, hne⟩
    rcases (h.listed key.id other).mp hmem with ⟨hsame, hkept⟩
    refine ⟨other, hsame, ?_⟩
    rw [text?_drop, if_neg (by simpa using Ne.symm (of_decide_eq_true hne))]
    exact hkept
  · exact ⟨found, rfl, by rwa [text?_drop, if_neg hkey]⟩

namespace Anchored

variable {cache : Cache} {room : Nat} {busy : NodeId → Prop}

/-- More segments may be busy. -/
theorem mono (h : cache.Anchored room busy) {more : NodeId → Prop}
    (hmore : ∀ id, busy id → more id) : cache.Anchored room more :=
  { h with texts := fun id hid => (h.texts id hid).imp_left (hmore id) }

section Operations

variable (h : cache.Anchored room busy)

include h

/-- Every identifier that is not busy and has dependencies is that of a text, so that there are no
more of them than texts. -/
theorem length_dependencies_le (path : List NodeId) (hbusy : ∀ id, busy id → id ∈ path) :
    cache.dependencies.length ≤ cache.size + path.length := by
  have hsub : cache.dependencies.keys ⊆ cache.entries.keys.map CacheKey.id ++ path := by
    intro id hid
    rcases h.texts id hid with hid | ⟨key, rfl, htext⟩
    · exact List.mem_append_right _ (hbusy id hid)
    · exact List.mem_append_left _ (List.mem_map_of_mem (mem_keys_iff.mpr htext))
  have hlength := (List.subperm_of_subset h.once hsub).length_le
  simpa [Assoc.keys, size] using hlength

/-- It is kept where a text is dropped. -/
theorem drop (key : CacheKey) : (cache.drop key).Anchored room busy := by
  have hsub := drop_dependencies_sublist cache key
  refine ⟨h.exact.drop key, ?_, h.roomy, ?_, h.once.sublist (hsub.map _), fun id hid => ?_⟩
  · exact ((SameCounters.refl cache).drop key).capacity.trans h.capacity
  · exact Nat.le_trans (drop_entries_sublist (List.Sublist.refl _) key).length_le h.fits
  · exact (h.texts id ((hsub.map _).subset hid)).imp_right (h.exact.hasText_drop hid)

/-- It is kept where the dependencies of a segment are forgotten. -/
theorem forget (id : NodeId) :
    Anchored { cache with dependencies := cache.dependencies.erase id } room busy := by
  have hsub := Assoc.erase_sublist id cache.dependencies
  exact ⟨h.exact.of_index_eq rfl fun _ => Iff.rfl, h.capacity, h.roomy, h.fits,
    h.once.sublist (hsub.map _), fun other hother => h.texts other ((hsub.map _).subset hother)⟩

/-- It is kept where a segment is invalidated. -/
theorem invalidate (id : NodeId) : (cache.invalidate id).Anchored room busy :=
  invalidate_induction (motive := fun cache => cache.Anchored room busy)
    (fun _ key hcache => hcache.drop key) (fun _ id hcache => hcache.forget id) id h

/-- It is kept where a tree is invalidated. -/
theorem invalidateTree (id : NodeId) : (cache.invalidateTree id).Anchored room busy :=
  invalidateTree_induction (motive := fun cache => cache.Anchored room busy)
    (fun _ key hcache => hcache.drop key) (fun _ id hcache => hcache.forget id) id h

/-- It is kept along all paths to changes. -/
theorem invalidateChanged (request : Request) :
    (cache.invalidateChanged request).Anchored room busy :=
  invalidateChanged_induction (motive := fun cache => cache.Anchored room busy)
    (fun _ key hcache => hcache.drop key) (fun _ id hcache => hcache.forget id) request h

/-- The counters make no difference. -/
theorem counts (hits misses : Nat) : Anchored { cache with hits, misses } room busy :=
  { h with exact := h.exact.of_index_eq rfl fun _ => Iff.rfl }

/-- It is kept where a dependency of a busy segment is recorded. -/
theorem depend {parent : NodeId} (hparent : busy parent) (child : NodeId) :
    (cache.depend parent child).Anchored room busy := by
  unfold Cache.depend
  dsimp only
  split
  · exact h
  · refine ⟨h.exact.of_index_eq rfl fun _ => Iff.rfl, h.capacity, h.roomy, h.fits,
      Assoc.nodup_keys_set h.once _ _, fun id hid => ?_⟩
    rcases Assoc.mem_keys_set hid with rfl | hold
    · exact Or.inl hparent
    · exact h.texts id hold

/-- It is kept where the dependency of a busy segment on a child is recorded. -/
theorem dependOn {parent : NodeId} (hparent : busy parent) (child : Segment NodeId) :
    (cache.dependOn parent child).Anchored room busy := by
  unfold Cache.dependOn
  split
  · exact h
  · exact h.depend hparent _

/-- It is kept where room is made, and then there is room. -/
theorem makeRoom : cache.makeRoom.Anchored room busy ∧ cache.makeRoom.size < room := by
  refine ⟨dropOldest_induction (motive := fun cache => cache.Anchored room busy)
    (fun _ key _ _ _ hcache => hcache.drop key) _ h, ?_⟩
  by_cases hroom : cache.size < cache.capacity
  · rw [makeRoom_of_lt hroom]
    exact h.capacity ▸ hroom
  · have hfull : cache.size = cache.capacity :=
      Nat.le_antisymm (h.capacity ▸ h.fits) (Nat.le_of_not_lt hroom)
    have hsome : 0 < cache.entries.length := by
      rw [← size, hfull, h.capacity]
      exact h.roomy
    obtain ⟨⟨oldest, text⟩, rest, hentries⟩ := List.exists_cons_of_length_pos hsome
    have hdropped : (cache.drop oldest).entries.length ≤ rest.length := by
      rw [entries_drop, hentries, Assoc.erase_cons, if_pos rfl]
      exact (Assoc.erase_sublist oldest rest).length_le
    rw [makeRoom_of_eq hfull hentries, size, ← h.capacity, ← hfull, size, hentries]
    exact Nat.lt_succ_of_le hdropped

/-- It is kept with the same dependencies where nothing loses its texts. -/
theorem of_hasText {after : Cache} (hexact : after.Exact) (hcapacity : after.capacity = room)
    (hfits : after.size ≤ room) (hdependencies : after.dependencies = cache.dependencies)
    (htexts : ∀ id, cache.HasText id → after.HasText id) : after.Anchored room busy :=
  ⟨hexact, hcapacity, h.roomy, hfits, hdependencies ▸ h.once,
    fun id hid => (h.texts id (hdependencies ▸ hid)).imp_right (htexts id)⟩

/-- It is kept with a text under a new key where there is room. -/
theorem insertNew {key : CacheKey} (hnew : cache.text? key = none) (hroom : cache.size < room)
    (text : Text) : (cache.insertNew key text).Anchored room busy := by
  refine h.of_hasText (h.exact.insertNew hnew text) h.capacity ?_ rfl ?_
  · rw [size, Cache.insertNew, List.length_append]
    exact hroom
  · rintro id ⟨other, hother, htext⟩
    refine ⟨other, hother, ?_⟩
    rw [text?_insertNew hnew]
    split
    · exact Option.some_ne_none text
    · exact htext

/-- It is kept where a text is kept. -/
theorem keep (key : CacheKey) (text : Text) : (cache.set key text).Anchored room busy := by
  by_cases hfound : cache.text? key = none
  · rw [set_of_new hfound]
    exact h.makeRoom.1.insertNew (text?_makeRoom_eq_none h.exact.indexed hfound) h.makeRoom.2 text
  · have hdependencies : (cache.set key text).dependencies = cache.dependencies := by
      rcases set_cases cache key text with ⟨-, hset⟩ | ⟨hnone, -⟩
      · rw [hset]
      · exact absurd hnone hfound
    refine h.of_hasText (h.exact.set key text) ?_ ?_ hdependencies ?_
    · exact (sameCounters_set cache key text).capacity.trans h.capacity
    · exact Nat.le_trans (size_set_of_ne_none_le hfound text) h.fits
    · rintro id ⟨other, hother, htext⟩
      refine ⟨other, hother, ?_⟩
      rw [text?_set_of_ne_none hfound]
      split
      · exact Option.some_ne_none text
      · exact htext

/-- It is kept where a key is looked up. -/
theorem get (key : CacheKey) : (cache.get key).2.Anchored room busy := by
  cases htext : cache.text? key with
  | none =>
    rw [get_of_eq_none htext]
    exact h.counts _ _
  | some text =>
    rw [get_of_eq_some htext]
    exact (h.keep key text).counts _ _

end Operations

/-- Where a text of a busy segment is kept the segment is busy no more. -/
theorem set {key : CacheKey} (h : cache.Anchored room fun id => id = key.id ∨ busy id)
    (text : Text) : (cache.set key text).Anchored room busy := by
  refine { h.keep key text with texts := fun id hid => ?_ }
  rcases (h.keep key text).texts id hid with (rfl | hbusy) | htext
  · refine Or.inr ⟨key, rfl, ?_⟩
    rw [text?_set_self h.exact.indexed]
    exact Option.some_ne_none text
  · exact Or.inl hbusy
  · exact Or.inr htext

end Anchored

/-! ## Compilations -/

/-- What the compilation of a tree leaves: no segment is busy that was not before, except on the
way down to one that cannot be written. -/
def LeavesAnchored (node : Segment NodeId) (room : Nat) (busy : NodeId → Prop) :
    Except RenderError Text × Cache → Prop
  | (.ok _, after) => after.Anchored room busy
  | (.error _, after) =>
    ∃ path, node.BreaksAlong path ∧ after.Anchored room fun id => id ∈ path ∨ busy id

section Compilation

variable (options : CompileOptions) {room : Nat}

/-- A node is finished with its text, or breaks off by itself. -/
theorem Anchored.finish {node : Segment NodeId} {head : Head NodeId} {busy : NodeId → Prop}
    (hhead : node.head? = some head) (inner : Text) {cache : Cache}
    (h : cache.Anchored room fun id =>
      id ∈ (if node.children = [] then [] else [head.id]) ∨ busy id) :
    LeavesAnchored node room busy (finish options head inner cache) := by
  unfold Cache.finish
  split
  · refine Anchored.set (h.mono fun id hid => hid.imp_left fun hmem => ?_) _
    split at hmem
    · cases hmem
    · exact List.mem_singleton.mp hmem
  · exact ⟨_, .here hhead ‹_›, h⟩

/-- While children are compiled one after the other their parent is busy. -/
theorem Anchored.compileChildren (parent : NodeId) {children : List (Segment NodeId)}
    (hcompile : ∀ child ∈ children, ∀ (busy : NodeId → Prop) (cache : Cache),
      cache.Anchored room busy →
        LeavesAnchored child room busy (compileTree options child cache))
    {busy : NodeId → Prop} (hparent : busy parent) {cache : Cache} (h : cache.Anchored room busy) :
    match compileChildren options parent children cache with
    | (.ok _, after) => after.Anchored room busy
    | (.error _, after) => ∃ child ∈ children, ∃ path, child.BreaksAlong path ∧
        after.Anchored room fun id => id ∈ path ∨ busy id := by
  induction children generalizing cache with
  | nil =>
    rw [Cache.compileChildren]
    exact h
  | cons child rest ih =>
    have hchild := hcompile child List.mem_cons_self busy _ (h.dependOn hparent child)
    rw [Cache.compileChildren]
    cases hresult : compileTree options child (cache.dependOn parent child) with
    | mk answer after =>
      rw [hresult] at hchild
      cases answer with
      | error e =>
        rcases hchild with ⟨path, hpath, hafter⟩
        exact ⟨child, List.mem_cons_self, path, hpath, hafter⟩
      | ok text =>
        have hrest := ih (fun other hother => hcompile other (List.mem_cons_of_mem _ hother)) hchild
        cases hlast : Cache.compileChildren options parent rest after with
        | mk answer last =>
          rw [hlast] at hrest
          cases answer with
          | error e =>
            rcases hrest with ⟨other, hother, hbreaks⟩
            simp only [hlast]
            exact ⟨other, List.mem_cons_of_mem _ hother, hbreaks⟩
          | ok texts =>
            simp only [hlast]
            exact hrest

/-- A compilation leaves no segment busy that was not before, unless it breaks off. -/
theorem Anchored.compileTree (node : Segment NodeId) {busy : NodeId → Prop} {cache : Cache}
    (h : cache.Anchored room busy) :
    LeavesAnchored node room busy (compileTree options node cache) := by
  induction node generalizing busy cache with
  | missing =>
    rw [Cache.compileTree]
    exact h
  | leaf head =>
    have hget := h.get (.of head.id options)
    rw [Cache.compileTree, get_eq]
    cases hfound : cache.text? (.of head.id options) with
    | some text => exact hget
    | none => exact Anchored.finish options rfl [] (hget.mono fun _ => Or.inr)
  | branch head children ih =>
    have hget := h.get (.of head.id options)
    rw [Cache.compileTree, get_eq]
    cases hfound : cache.text? (.of head.id options) with
    | some text => exact hget
    | none =>
      by_cases hnone : children = []
      · subst hnone
        exact Anchored.finish options rfl [] (hget.mono fun _ => Or.inr)
      · have hbusy : (cache.get (.of head.id options)).2.Anchored room
            fun id => id = head.id ∨ busy id := hget.mono fun _ => Or.inr
        have hchildren := Anchored.compileChildren options head.id
          (fun child hchild _ _ hcache => ih child hchild hcache) (Or.inl rfl) hbusy
        cases hresult : Cache.compileChildren options head.id children
            (cache.get (.of head.id options)).2 with
        | mk answer after =>
          rw [hresult] at hchildren
          cases answer with
          | ok inner =>
            simp only [hresult]
            refine Anchored.finish options rfl inner (hchildren.mono fun id hid => hid.imp_left ?_)
            rintro rfl
            simp [Segment.children, hnone]
          | error e =>
            rcases hchildren with ⟨child, hchild, path, hpath, hafter⟩
            simp only [hresult]
            refine ⟨head.id :: path, .inside rfl hchild hpath, hafter.mono fun id hid => ?_⟩
            rcases hid with hpath | heq | hbusy
            · exact Or.inl (List.mem_cons_of_mem _ hpath)
            · exact Or.inl (heq ▸ List.mem_cons_self)
            · exact Or.inr hbusy

/-- A request that is answered with a text leaves no segment busy that was not before. -/
theorem Anchored.incremental {request : Request} {busy : NodeId → Prop} {cache : Cache}
    (h : cache.Anchored room busy) {text : Text}
    (hanswer : (cache.incremental request.surroundings request.options request.changed
      request.root).1 = .ok text) :
    (cache.incremental request.surroundings request.options request.changed
      request.root).2.Anchored room busy := by
  rcases incremental_cases request cache with hsame | ⟨options, hoptions, hplain, hwhole⟩
  · rw [hsame]
    exact h
  · have hcompiled := Anchored.compileTree options request.root
      (h.invalidateChanged request)
    rw [incremental_eq hoptions hplain hwhole] at hanswer ⊢
    cases hresult : Cache.compileTree options request.root (cache.invalidateChanged request) with
    | mk answer after =>
      rw [hresult] at hcompiled hanswer
      cases answer with
      | ok found => exact hcompiled
      | error e => cases hanswer

end Compilation

/-! ## Runs -/

/-- One way to use a cache: an operation on it, or a request to compile a tree. -/
inductive Use where
  | operate (op : Operation)
  | compile (request : Request)

/-- The cache after it was used. -/
def use (cache : Cache) : Use → Cache
  | .operate op => cache.apply op
  | .compile request =>
    (cache.incremental request.surroundings request.options request.changed request.root).2

/-- The cache after it was used several times. -/
def useAll (cache : Cache) (uses : List Use) : Cache :=
  uses.foldl use cache

/-- A use that records no dependency by itself, and that gives a text if it is a request. -/
def Use.Succeeds (cache : Cache) : Use → Prop
  | .operate (.depend _ _) => False
  | .operate _ => True
  | .compile request => ∃ text, (cache.incremental request.surroundings request.options
      request.changed request.root).1 = .ok text

/-- Each use of a run succeeds with the cache that the uses before it leave. -/
def AllSucceed : Cache → List Use → Prop
  | _, [] => True
  | cache, first :: rest => first.Succeeds cache ∧ AllSucceed (cache.use first) rest

/-- A use that succeeds leaves no segment busy. -/
theorem Anchored.use {room : Nat} {busy : NodeId → Prop} {cache : Cache}
    (h : cache.Anchored room busy) {item : Use} (hsucceeds : item.Succeeds cache) :
    (cache.use item).Anchored room busy := by
  cases item with
  | compile request =>
    rcases hsucceeds with ⟨text, hanswer⟩
    exact h.incremental hanswer
  | operate op =>
    cases op with
    | get key => exact h.get key
    | set key text => exact h.keep key text
    | depend parent child => exact hsucceeds.elim
    | invalidate id => exact h.invalidate id
    | invalidateTree id => exact h.invalidateTree id
    | clear =>
      have hnil := anchored_nil h.roomy busy
      rwa [← h.capacity] at hnil ⊢

/-- A run that succeeds leaves no segment busy. -/
theorem Anchored.useAll {room : Nat} {busy : NodeId → Prop} {cache : Cache}
    (h : cache.Anchored room busy) {uses : List Use} (hsucceed : AllSucceed cache uses) :
    (cache.useAll uses).Anchored room busy := by
  induction uses generalizing cache with
  | nil => exact h
  | cons first rest ih => exact ih (h.use hsucceed.1) hsucceed.2

/-- The uses that a run begins with succeed if all do. -/
theorem AllSucceed.of_isPrefix {cache : Cache} {done uses : List Use} (hdone : done <+: uses)
    (h : AllSucceed cache uses) : AllSucceed cache done := by
  induction done generalizing cache uses with
  | nil => trivial
  | cons first rest ih =>
    rcases hdone with ⟨later, rfl⟩
    exact ⟨h.1, ih ⟨later, rfl⟩ h.2⟩

/-- Throughout a run of operations that record no dependency and requests that give a text, with a
cache that is empty at first, each identifier with dependencies has a text.  So no more of them
have dependencies than there are texts, and these are no more than the cache has room for. -/
theorem dependencies_bounded (size : Int) {uses : List Use}
    (hsucceed : AllSucceed (empty size) uses) {done : List Use} (hdone : done <+: uses) :
    (∀ id ∈ ((empty size).useAll done).dependencies.keys, ((empty size).useAll done).HasText id) ∧
      ((empty size).useAll done).dependencies.length ≤ ((empty size).useAll done).size ∧
      (((empty size).useAll done).size : Int) ≤ max 1 size := by
  have hroomy : 0 < max 1 size.toNat := Nat.lt_of_lt_of_le Nat.one_pos (Nat.le_max_left _ _)
  have h : ((empty size).useAll done).Anchored (max 1 size.toNat) fun _ => False :=
    (anchored_nil hroomy _).useAll (hsucceed.of_isPrefix hdone)
  refine ⟨fun id hid => (h.texts id hid).resolve_left not_false, ?_, ?_⟩
  · exact h.length_dependencies_le [] fun _ => False.elim
  · have hfits := h.fits
    omega

/-- A run with a cache for two texts: a tree is compiled under two seeds, edited with its choices
made, reported and invalidated. -/
def crowdedUses : List Use :=
  let tree (content : Text) : Segment NodeId :=
    .branch ⟨.named "r", .text (some []), none⟩ [.leaf ⟨.named "a", .text (some content), none⟩]
  [.compile ⟨⟨.ok {}, 0⟩, tree ['x'], [], some ⟨false, some 1, 50⟩⟩,
    .compile ⟨⟨.ok {}, 0⟩, tree ['x'], [], some ⟨false, some 2, 50⟩⟩,
    .compile ⟨⟨.ok {}, 0⟩, tree ['y'], [.named "a"], some ⟨true, some 2, 50⟩⟩,
    .operate (.get ⟨.named "a", false, 2⟩),
    .compile ⟨⟨.ok {}, 0⟩, tree ['y'], [.named "a"], some ⟨false, some 2, 50⟩⟩,
    .operate (.set ⟨.named "b", false, 0⟩ ['z']), .operate (.invalidateTree (.named "r"))]

/-- Before the last two uses the root has dependencies and a text, and so it is bounded. -/
theorem dependencies_bounded_crowdedUses :
    AllSucceed (empty 2) crowdedUses ∧ crowdedUses.take 5 <+: crowdedUses ∧
      ((empty 2).useAll (crowdedUses.take 5)).dependencies = [(.named "r", [.named "a"])] ∧
      (∀ id ∈ ((empty 2).useAll (crowdedUses.take 5)).dependencies.keys,
        ((empty 2).useAll (crowdedUses.take 5)).HasText id) ∧
      ((empty 2).useAll (crowdedUses.take 5)).dependencies.length ≤
        ((empty 2).useAll (crowdedUses.take 5)).size ∧
      (((empty 2).useAll (crowdedUses.take 5)).size : Int) ≤ max 1 2 := by
  have hsucceed : AllSucceed (empty 2) crowdedUses :=
    ⟨⟨['x'], by decide +kernel⟩, ⟨['x'], by decide +kernel⟩, ⟨['y'], by decide +kernel⟩, trivial,
      ⟨['y'], by decide +kernel⟩, trivial, trivial, trivial⟩
  have hdone := List.take_prefix 5 crowdedUses
  exact ⟨hsucceed, hdone, by decide +kernel, dependencies_bounded 2 hsucceed hdone⟩

end Cache

end PromptMarkup
