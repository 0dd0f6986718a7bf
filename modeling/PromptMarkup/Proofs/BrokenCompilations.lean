import PromptMarkup.Proofs.DependencyEntries
import PromptMarkup.Proofs.RecordedDependencies

/-!
# Compilations that break off

The dependency on a child is recorded before the child is compiled, and nothing takes it back when
the compilation breaks off at a segment that cannot be written.  So the segments on the way down to
that one have dependencies, and they have no text unless they have an old one under other options.
All other segments with dependencies have a text.

Main statements:

- {lit}`Stranded.compilation`: while other segments are compiled a segment that has dependencies
  and no text stays so.
- {lit}`incremental_breaksOff`: what a compilation that breaks off leaves, and when it leaves no
  dependencies without a text.
-/

namespace PromptMarkup

/-- Where a segment without children breaks off there is no segment above. -/
theorem Segment.BreaksAlong.eq_nil {node : Segment NodeId} {path : List NodeId}
    (h : node.BreaksAlong path) (hnone : node.children = []) : path = [] := by
  cases h with
  | here hhead hfault => exact if_pos hnone
  | inside hhead hchild hpath =>
    rw [hnone] at hchild
    cases hchild

namespace Cache

/-- An identifier has dependencies, and no text under whatever options. -/
structure Stranded (cache : Cache) (id : NodeId) : Prop where
  lacks : cache.Lacks id
  entered : id ∈ cache.dependencies.keys

namespace Stranded

variable {cache : Cache} {id : NodeId} (h : cache.Stranded id)

include h

/-- A stranded identifier has no text. -/
theorem not_hasText : ¬cache.HasText id := by
  rintro ⟨key, hkey, htext⟩
  exact htext (h.lacks key hkey)

/-- It stays stranded where something is looked up. -/
theorem get (key : CacheKey) : (cache.get key).2.Stranded id := by
  refine ⟨fun other hother => ?_, ?_⟩
  · rw [text?_get]
    exact h.lacks other hother
  · unfold Cache.get
    split <;> exact h.entered

/-- It stays stranded where a dependency is recorded. -/
theorem depend (parent child : NodeId) : (cache.depend parent child).Stranded id := by
  refine ⟨fun key hkey => ?_, ?_⟩
  · rw [text?_depend]
    exact h.lacks key hkey
  · unfold Cache.depend
    dsimp only
    split
    · exact h.entered
    · rw [Assoc.keys_set]
      split
      · exact h.entered
      · exact List.mem_append_left _ h.entered

/-- It stays stranded where the dependency on a child is recorded. -/
theorem dependOn (parent : NodeId) (child : Segment NodeId) :
    (cache.dependOn parent child).Stranded id := by
  unfold Cache.dependOn
  split
  · exact h
  · exact h.depend parent _

/-- It stays stranded where a text of another segment is dropped. -/
theorem drop {key : CacheKey} (hne : key.id ≠ id) : (cache.drop key).Stranded id := by
  refine ⟨h.lacks.mono (forgetsFrom_drop cache key), ?_⟩
  unfold Cache.drop
  split
  · exact h.entered
  · split
    · rw [Assoc.keys_erase]
      exact List.mem_filter.mpr ⟨h.entered, by simpa using Ne.symm hne⟩
    · exact h.entered

/-- It stays stranded where room is made. -/
theorem makeRoom : cache.makeRoom.Stranded id := by
  refine dropOldest_induction (motive := fun cache => cache.Stranded id) ?_ _ h
  intro before key text rest hentries hbefore
  refine hbefore.drop fun heq => ?_
  -- What is dropped has a text.
  have hnone := hbefore.lacks key heq
  simp [text?, hentries, Assoc.get?] at hnone

/-- It stays stranded where a text of another segment is kept. -/
theorem set (hindexed : cache.Indexed) {key : CacheKey} (hne : key.id ≠ id) (text : Text) :
    (cache.set key text).Stranded id := by
  refine ⟨fun other hother => ?_, ?_⟩
  · cases hfound : (cache.set key text).text? other with
    | none => rfl
    | some found =>
      rcases (text?_set_cases hindexed key text).2 other found hfound with ⟨rfl, -⟩ | hold
      · exact absurd hother hne
      · exact hold.symm.trans (h.lacks other hother)
  · rcases set_cases cache key text with ⟨-, hset⟩ | ⟨-, hset⟩
    · rw [hset]
      exact h.entered
    · rw [hset]
      exact h.makeRoom.entered

end Stranded

/-- The compilation of other segments leaves a segment stranded. -/
theorem compilation_stranded {tree : Segment NodeId} {id : NodeId} (hother : id ∉ tree.ids)
    (options : CompileOptions) :
    Compilation tree options (fun _ cache => cache.Indexed ∧ cache.Stranded id)
      (fun _ cache => cache.Indexed ∧ cache.Stranded id) where
  hit _ _ _ _ _ h _ := ⟨h.1.get _, h.2.get _⟩
  miss _ _ _ _ _ h _ := ⟨h.1.get _, h.2.get _⟩
  enter _ _ child _ parent _ _ h := ⟨h.1.dependOn parent child, h.2.dependOn parent child⟩
  leave _ _ _ _ _ h := h
  keep node hnode other cache text hid h := by
    have hne : other ≠ id := fun heq => hother (heq ▸ Segment.mem_ids hnode hid)
    exact ⟨(text?_set_cases h.1 _ text).1, h.2.set h.1 hne text⟩
  fail _ _ _ h := h

/-- A segment without a text is stranded where a dependency of it is recorded. -/
theorem Lacks.stranded_dependOn {cache : Cache} {id : NodeId} (h : cache.Lacks id)
    {child : Segment NodeId} (hchild : child.isPresent = true) :
    (cache.dependOn id child).Stranded id := by
  rcases Segment.exists_id?_of_isPresent hchild with ⟨childId, hchildId⟩
  rw [Cache.dependOn, hchildId]
  refine ⟨fun key hkey => ?_, Assoc.mem_keys_iff.mpr fun hnone => ?_⟩
  · rw [text?_depend]
    exact h key hkey
  · have hdepends : (cache.depend id childId).DependsOn id childId :=
      dependsOn_depend_iff.mpr (Or.inr ⟨rfl, rfl⟩)
    dsimp only at hnone
    rw [DependsOn, dependenciesOf, hnone] at hdepends
    cases hdepends

/-- A segment with children is left stranded by a compilation that breaks off, if it has no old
text to begin with and does not occur a second time below. -/
theorem stranded_of_compileTree {options : CompileOptions} {head : Head NodeId}
    {children : List (Segment NodeId)} (hsome : children ≠ [])
    (hpresent : ∀ child ∈ children, child.isPresent = true)
    (hbelow : ∀ child ∈ children, head.id ∉ child.ids) {cache after : Cache} {fault : RenderError}
    (hindexed : cache.Indexed) (hlacks : cache.Lacks head.id)
    (hfails : compileTree options (.branch head children) cache = (.error fault, after)) :
    after.Stranded head.id := by
  have hmiss : cache.text? (.of head.id options) = none := hlacks _ rfl
  have hcases := compileChildren_cases
    (fun _ cache => cache.Indexed ∧ cache.Stranded head.id)
    (fun cache => cache.Indexed ∧ cache.Lacks head.id)
    (fun child hchild _ h =>
      ⟨h.1.dependOn head.id child, h.2.stranded_dependOn (hpresent child hchild)⟩)
    (fun child hchild _ h => (compilation_stranded (hbelow child hchild) options).compileTree child
      (Segment.mem_nodes_self child) h)
    (fun _ _ _ h => ⟨h.1, h.2.lacks⟩)
    ⟨hindexed.get (.of head.id options), fun key hkey => (text?_get ..).trans (hlacks key hkey)⟩
  rcases hcases with ⟨hnone, -⟩ | ⟨child, -, -, hstranded⟩
  · exact absurd hnone hsome
  · rw [compileTree, get_eq, hmiss] at hfails
    dsimp only at hfails
    split at hfails
    · rename_i inner last hresult
      rw [hresult] at hstranded
      unfold finish at hfails
      split at hfails
      · cases hfails
      · cases hfails
        exact hstranded
    · rename_i e last hresult
      rw [hresult] at hstranded
      cases hfails
      exact hstranded

/-! ## Requests -/

section Requests

variable {request : Request} {options : CompileOptions} {cache after : Cache} {fault : CompileError}
  (hoptions : request.surroundings.optionsFor request.options = .ok options)
  (hplain : options.expandWildcards = false) (hwhole : request.root.isWhole = true)
  (hfails : cache.incremental request.surroundings request.options request.changed request.root =
    (.error fault, after))

include hoptions hplain hwhole hfails

/-- A request for a whole tree as it stands fails only where the compilation breaks off. -/
theorem exists_compileTree_error :
    ∃ reason, compileTree options request.root (cache.invalidateChanged request) =
      (.error reason, after) := by
  rw [incremental_eq hoptions hplain hwhole] at hfails
  cases hresult : compileTree options request.root (cache.invalidateChanged request) with
  | mk answer last =>
    rw [hresult] at hfails
    cases answer with
    | ok text => cases hfails
    | error reason =>
      cases hfails
      exact ⟨reason, rfl⟩

/-- A root with children is left stranded, if no old text of it is there any more when its tree is
compiled and its identifier does not occur below it. -/
theorem stranded_of_incremental {id : NodeId} (hid : request.root.id? = some id)
    (hbelow : ∀ child ∈ request.root.children, id ∉ child.ids) (hindexed : cache.Indexed)
    (hlacks : (cache.invalidateChanged request).Lacks id) (hsome : request.root.children ≠ []) :
    after.Stranded id := by
  rcases exists_compileTree_error hoptions hplain hwhole hfails with ⟨reason, hcompile⟩
  have hinvalidated := (foldl_forgets invalidatePath_forgets
    (request.root.affectedPaths request.changed []) hindexed).2
  cases hroot : request.root with
  | missing =>
    rw [hroot] at hid
    cases hid
  | leaf head =>
    rw [hroot] at hsome
    exact absurd rfl hsome
  | branch head children =>
    rw [hroot] at hid hbelow hsome hcompile hwhole
    cases hid
    have hpresent : ∀ child ∈ children, child.isPresent = true := fun child hchild =>
      Segment.isPresent_of_mem_nodes hwhole
        (Segment.mem_nodes_of_mem_children (Segment.mem_nodes_self _) hchild)
    exact stranded_of_compileTree hsome hpresent hbelow hinvalidated hlacks hcompile

/-- A request that breaks off leaves a text of every segment with dependencies, except on the way
from the root down to the segment that cannot be written.  Where the root had no text left, and
does not occur below itself, the root is such an exception, unless it has no children. -/
theorem incremental_breaksOff {room : Nat} (h : cache.Anchored room fun _ => False) :
    (∃ path, request.root.BreaksAlong path ∧
        (∀ id ∈ after.dependencies.keys, id ∈ path ∨ after.HasText id) ∧
        after.dependencies.length ≤ after.size + path.length) ∧
      ∀ id, request.root.id? = some id → (∀ child ∈ request.root.children, id ∉ child.ids) →
        (cache.invalidateChanged request).Lacks id →
        ((∀ other ∈ after.dependencies.keys, after.HasText other) ↔
          request.root.children = []) := by
  rcases exists_compileTree_error hoptions hplain hwhole hfails with ⟨reason, hcompile⟩
  have hleaves := Anchored.compileTree options request.root (h.invalidateChanged request)
  rw [hcompile] at hleaves
  rcases hleaves with ⟨path, hpath, hafter⟩
  have hanchored : after.Anchored room fun id => id ∈ path :=
    hafter.mono fun _ hbusy => hbusy.resolve_right not_false
  refine ⟨⟨path, hpath, hanchored.texts, hanchored.length_dependencies_le path fun _ hid => hid⟩,
    fun id hid hbelow hlacks => ⟨fun htexts => ?_, fun hnone other hother => ?_⟩⟩
  · by_contra hsome
    have hstranded := stranded_of_incremental hoptions hplain hwhole hfails hid hbelow
      h.exact.indexed hlacks hsome
    exact hstranded.not_hasText (htexts id hstranded.entered)
  · have hempty := hpath.eq_nil hnone
    exact (hanchored.texts other hother).resolve_left (by simp [hempty])

end Requests

/-- A tree with a text beside a span, in which there is another span of an infinite level. -/
def brokenRequest : Request :=
  ⟨⟨.ok {}, 0⟩,
    .branch ⟨.named "r", .text (some []), none⟩
      [.leaf ⟨.named "a", .text (some ['x']), none⟩,
        .branch ⟨.named "s", .weighted (.valid .increase) (.valid 1), none⟩
          [.branch ⟨.named "w", .weighted (.valid .increase) (.damaged (.float (.infinity false))),
              none⟩
            [.leaf ⟨.named "t", .text (some ['y']), none⟩]]],
    [], some ⟨false, none, 0⟩⟩

/-- What the request leaves of an empty cache for two texts. -/
def brokenCache : Cache :=
  ((empty 2).incremental brokenRequest.surroundings brokenRequest.options brokenRequest.changed
    brokenRequest.root).2

/-- The request breaks off, and leaves no more segments without a text than there are on the way to
the inner span. -/
theorem incremental_breaksOff_brokenRequest :
    brokenRequest.root.isWhole = true ∧
      (empty 2).incremental brokenRequest.surroundings brokenRequest.options brokenRequest.changed
        brokenRequest.root = (.error (.render .infiniteLevel), brokenCache) ∧
      (empty 2).Anchored 2 (fun _ => False) ∧
      (∃ path, brokenRequest.root.BreaksAlong path ∧
        (∀ id ∈ brokenCache.dependencies.keys, id ∈ path ∨ brokenCache.HasText id) ∧
        brokenCache.dependencies.length ≤ brokenCache.size + path.length) ∧
      ((∀ other ∈ brokenCache.dependencies.keys, brokenCache.HasText other) ↔
        brokenRequest.root.children = []) := by
  have hwhole : brokenRequest.root.isWhole = true := by decide
  have hfails : (empty 2).incremental brokenRequest.surroundings brokenRequest.options
      brokenRequest.changed brokenRequest.root = (.error (.render .infiniteLevel), brokenCache) :=
    rfl
  have hanchored : (empty 2).Anchored 2 fun _ => False := anchored_nil (by decide) _
  have hleft := incremental_breaksOff rfl rfl hwhole hfails hanchored
  exact ⟨hwhole, hfails, hanchored, hleft.1,
    hleft.2 (.named "r") rfl (by decide) fun _ _ => rfl⟩

/-- Three segments are left with dependencies, and none of them with a text. -/
theorem incremental_breaksOff_unbounded :
    (∀ id ∈ (empty 2).dependencies.keys, (empty 2).HasText id) ∧
      brokenRequest.root.isWhole = true ∧
      (empty 2).incremental brokenRequest.surroundings brokenRequest.options brokenRequest.changed
        brokenRequest.root = (.error (.render .infiniteLevel), brokenCache) ∧
      ¬(∀ id ∈ brokenCache.dependencies.keys, brokenCache.HasText id) ∧
      ¬brokenCache.dependencies.length ≤ brokenCache.size := by
  refine ⟨nofun, by decide, rfl, fun htexts => ?_, by decide +kernel⟩
  rcases htexts (.named "r") (by decide +kernel) with ⟨key, hid, htext⟩
  have hkeys : brokenCache.entries.keys = [⟨.named "a", false, 0⟩, ⟨.named "t", false, 0⟩] := by
    decide +kernel
  have hkey := mem_keys_iff.mpr htext
  rw [hkeys] at hkey
  rcases List.mem_pair.mp hkey with rfl | rfl
  · exact absurd hid (by decide)
  · exact absurd hid (by decide)

end Cache

end PromptMarkup
