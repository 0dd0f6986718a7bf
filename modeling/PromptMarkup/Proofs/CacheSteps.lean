import PromptMarkup.Proofs.CacheRefinement
import PromptMarkup.Proofs.IncrementalRuns

/-!
# A request as a run of operations

A request comes to the cache by its operations only: invalidation along the paths to changes, and
then for each node that is compiled a look-up, a dependency for each child, and the text in the
end.  Which of them are made depends on what the cache has, so the steps of a request are those
that it takes with some cache.

Main statements:

- {lit}`applyAll_requestSteps`: a request leaves of a cache what its steps leave.
- {lit}`lookedUp_treeSteps_sublist`: a compilation looks up each node once at most, in document
  order.
- {lit}`misses_applyAll`: the cache counts the look-ups of a run that find nothing.
-/

namespace PromptMarkup

namespace Cache

/-! ## Steps -/

/-- The steps of invalidation along a path to a change. -/
def pathSteps (path : List NodeId) : List Operation :=
  match path.getLast? with
  | none => []
  | some last => .invalidateTree last :: path.dropLast.map .invalidate

/-- The steps of invalidation along all paths to changes. -/
def invalidationSteps (request : Request) : List Operation :=
  (request.root.affectedPaths request.changed []).flatMap pathSteps

/-- The step that finishes a segment, if it can be written. -/
def finishSteps (options : CompileOptions) (head : Head NodeId) (inner : Text) : List Operation :=
  match head.kind.render inner with
  | .ok text => [.set (.of head.id options) text]
  | .error _ => []

/-- The step that records the dependency on a child that is there. -/
def dependSteps (parent : NodeId) (child : Segment NodeId) : List Operation :=
  match child.id? with
  | none => []
  | some id => [.depend parent id]

mutual

/-- The steps of the compilation of a tree with a cache. -/
def treeSteps (options : CompileOptions) (segment : Segment NodeId) (cache : Cache) :
    List Operation :=
  match segment with
  | .missing => []
  | .leaf head =>
    .get (.of head.id options) ::
      match cache.get (.of head.id options) with
      | (some _, _) => []
      | (none, _) => finishSteps options head []
  | .branch head children =>
    .get (.of head.id options) ::
      match cache.get (.of head.id options) with
      | (some _, _) => []
      | (none, cache) =>
        childrenSteps options head.id children cache ++
          match (compileChildren options head.id children cache).1 with
          | .ok inner => finishSteps options head inner
          | .error _ => []

/-- The steps of the compilation of the children of a segment with a cache. -/
def childrenSteps (options : CompileOptions) (parent : NodeId) (children : List (Segment NodeId))
    (cache : Cache) : List Operation :=
  match children with
  | [] => []
  | child :: rest =>
    dependSteps parent child ++ treeSteps options child (cache.dependOn parent child) ++
      match compileTree options child (cache.dependOn parent child) with
      | (.ok _, cache) => childrenSteps options parent rest cache
      | (.error _, _) => []

end

/-- The steps of a request with a cache; only a request for a whole tree as it stands has any. -/
def requestSteps (request : Request) (cache : Cache) : List Operation :=
  match request.surroundings.optionsFor request.options with
  | .error _ => []
  | .ok options =>
    if options.expandWildcards = false ∧ request.root.isWhole = true then
      invalidationSteps request ++
        treeSteps options request.root (cache.invalidateChanged request)
    else []

/-- The steps of a request for a whole tree as it stands: invalidation, and then compilation. -/
theorem Request.Regular.requestSteps_eq {request : Request} (h : request.Regular)
    {options : CompileOptions}
    (hoptions : request.surroundings.optionsFor request.options = .ok options) (cache : Cache) :
    requestSteps request cache = invalidationSteps request ++
      treeSteps options request.root (cache.invalidateChanged request) := by
  rw [requestSteps, hoptions]
  exact if_pos ⟨h.expandWildcards_eq hoptions, h.whole⟩

/-! ## What the steps leave -/

/-- A run begins with its first operation. -/
theorem applyAll_cons (cache : Cache) (op : Operation) (rest : List Operation) :
    cache.applyAll (op :: rest) = (cache.apply op).applyAll rest :=
  rfl

/-- Two runs, one after the other. -/
theorem applyAll_append (cache : Cache) (first second : List Operation) :
    cache.applyAll (first ++ second) = (cache.applyAll first).applyAll second :=
  List.foldl_append

/-- Invalidation along a path is the run of its steps. -/
theorem applyAll_pathSteps (cache : Cache) (path : List NodeId) :
    cache.applyAll (pathSteps path) = cache.invalidatePath path := by
  unfold pathSteps invalidatePath
  cases path.getLast? with
  | none => rfl
  | some last => exact List.foldl_map

/-- Invalidation along all paths to changes is the run of its steps. -/
theorem applyAll_invalidationSteps (cache : Cache) (request : Request) :
    cache.applyAll (invalidationSteps request) = cache.invalidateChanged request := by
  have hpaths : ∀ (paths : List (List NodeId)) (cache : Cache),
      cache.applyAll (paths.flatMap pathSteps) = paths.foldl invalidatePath cache := by
    intro paths
    induction paths with
    | nil => exact fun _ => rfl
    | cons path rest ih =>
      intro cache
      rw [List.flatMap_cons, applyAll_append, applyAll_pathSteps, ih]
      rfl
  exact hpaths _ cache

/-- To finish a segment is to run its step. -/
theorem applyAll_finishSteps (options : CompileOptions) (head : Head NodeId) (inner : Text)
    (cache : Cache) :
    cache.applyAll (finishSteps options head inner) = (finish options head inner cache).2 := by
  unfold finishSteps finish
  cases head.kind.render inner <;> rfl

/-- To record the dependency on a child is to run its step. -/
theorem applyAll_dependSteps (parent : NodeId) (child : Segment NodeId) (cache : Cache) :
    cache.applyAll (dependSteps parent child) = cache.dependOn parent child := by
  unfold dependSteps dependOn
  cases child.id? <;> rfl

/-- The compilation of children is the run of its steps if that of each child is. -/
theorem applyAll_childrenSteps {options : CompileOptions} (parent : NodeId)
    {children : List (Segment NodeId)}
    (hchildren : ∀ child ∈ children, ∀ cache : Cache,
      cache.applyAll (treeSteps options child cache) = (compileTree options child cache).2)
    (cache : Cache) :
    cache.applyAll (childrenSteps options parent children cache) =
      (compileChildren options parent children cache).2 := by
  induction children generalizing cache with
  | nil => rw [childrenSteps, compileChildren]; rfl
  | cons child rest ih =>
    have hchild := hchildren child List.mem_cons_self (cache.dependOn parent child)
    rw [childrenSteps, compileChildren, applyAll_append, applyAll_append, applyAll_dependSteps,
      hchild]
    rcases compileTree options child (cache.dependOn parent child) with ⟨e | text, after⟩
    · rfl
    · have hrest := ih (fun other hother => hchildren other (List.mem_cons_of_mem _ hother)) after
      dsimp only
      rw [hrest]
      rcases compileChildren options parent rest after with ⟨e | texts, last⟩ <;> rfl

/-- The compilation of a tree is the run of its steps. -/
theorem applyAll_treeSteps (options : CompileOptions) (segment : Segment NodeId) (cache : Cache) :
    cache.applyAll (treeSteps options segment cache) = (compileTree options segment cache).2 := by
  induction segment generalizing cache with
  | missing => rw [treeSteps, compileTree]; rfl
  | leaf head =>
    rw [treeSteps, compileTree, applyAll_cons, apply]
    rcases cache.get (.of head.id options) with ⟨_ | text, after⟩
    · exact applyAll_finishSteps options head [] after
    · rfl
  | branch head children ih =>
    rw [treeSteps, compileTree, applyAll_cons, apply]
    rcases cache.get (.of head.id options) with ⟨_ | text, after⟩
    · dsimp only
      rw [applyAll_append, applyAll_childrenSteps head.id ih]
      rcases compileChildren options head.id children after with ⟨e | inner, last⟩
      · rfl
      · exact applyAll_finishSteps options head inner last
    · rfl

/-- A request leaves of a cache what its steps leave. -/
theorem applyAll_requestSteps (request : Request) (cache : Cache) :
    cache.applyAll (requestSteps request cache) =
      (cache.incremental request.surroundings request.options request.changed request.root).2 := by
  unfold requestSteps
  cases hoptions : request.surroundings.optionsFor request.options with
  | error e =>
    refine ((incremental_cases request cache).resolve_right ?_).symm
    rintro ⟨options, hother, -⟩
    rw [hoptions] at hother
    cases hother
  | ok options =>
    dsimp only
    split
    · rename_i hstands
      rw [incremental_eq hoptions hstands.1 hstands.2, applyAll_append, applyAll_invalidationSteps,
        applyAll_treeSteps]
    · rename_i hstands
      refine ((incremental_cases request cache).resolve_right ?_).symm
      rintro ⟨other, hother, hplain, hwhole⟩
      rw [hoptions] at hother
      cases hother
      exact hstands ⟨hplain, hwhole⟩

/-! ## Look-ups -/

/-- The key that an operation looks up, if it is a look-up. -/
def Operation.lookedUp? : Operation → Option CacheKey
  | .get key => some key
  | _ => none

/-- A look-up comes first among the look-ups of a run that begins with it. -/
theorem lookedUp_get_cons (key : CacheKey) (rest : List Operation) :
    (Operation.get key :: rest).filterMap Operation.lookedUp? =
      key :: rest.filterMap Operation.lookedUp? :=
  rfl

/-- The keys that a run looks up and does not find, with a cache to begin with. -/
def missed (cache : Cache) : List Operation → List CacheKey
  | [] => []
  | .get key :: rest =>
    if cache.text? key = none then key :: missed (cache.get key).2 rest
    else missed (cache.get key).2 rest
  | op :: rest => missed (cache.apply op) rest

/-- What is not found has been looked up. -/
theorem missed_sublist (cache : Cache) (ops : List Operation) :
    (missed cache ops).Sublist (ops.filterMap Operation.lookedUp?) := by
  induction ops generalizing cache with
  | nil => exact List.Sublist.refl _
  | cons op rest ih =>
    cases op with
    | get key =>
      rw [missed, lookedUp_get_cons]
      split
      · exact (ih _).cons_cons key
      · exact (ih _).cons key
    | set key text | depend parent child | invalidate id | invalidateTree id | clear =>
      rw [List.filterMap_cons_none rfl]
      exact ih _

/-- What the first of two runs looks up and does not find comes first. -/
theorem missed_append (cache : Cache) (first second : List Operation) :
    missed cache (first ++ second) =
      missed cache first ++ missed (cache.applyAll first) second := by
  induction first generalizing cache with
  | nil => rfl
  | cons op rest ih =>
    rw [List.cons_append, applyAll_cons]
    cases op with
    | get key =>
      rw [missed, missed, ih]
      split <;> rfl
    | set key text | depend parent child | invalidate id | invalidateTree id | clear => exact ih _

/-- The cache counts the look-ups of a run that find nothing, as long as it is not cleared. -/
theorem misses_applyAll (cache : Cache) {ops : List Operation}
    (hops : ∀ op ∈ ops, op.isClear = false) :
    (cache.applyAll ops).misses = cache.misses + (missed cache ops).length := by
  induction ops generalizing cache with
  | nil => rfl
  | cons op rest ih =>
    rw [List.forall_mem_cons] at hops
    have hrest := ih (cache.apply op) hops.2
    rw [applyAll_cons, hrest]
    cases op with
    | get key =>
      rw [missed, apply]
      cases htext : cache.text? key with
      | none =>
        have hcount : (cache.get key).2.misses = cache.misses + 1 := by rw [get_of_eq_none htext]
        rw [hcount, if_pos rfl, List.length_cons]
        omega
      | some text =>
        have hcount : (cache.get key).2.misses = cache.misses := by
          rw [get_of_eq_some htext]
          exact (sameCounters_set cache key text).misses
        rw [hcount, if_neg (Option.some_ne_none text)]
    | set key text => exact congrArg (· + _) (sameCounters_set cache key text).misses
    | depend parent child =>
      have hcount : (cache.depend parent child).misses = cache.misses := by rw [depend_eq]
      exact congrArg (· + _) hcount
    | invalidate id => exact congrArg (· + _) (sameCounters_invalidate cache id).misses
    | invalidateTree id => exact congrArg (· + _) (sameCounters_invalidateTree cache id).misses
    | clear => cases hops.1

/-- Finishing a segment looks nothing up. -/
@[simp] theorem lookedUp_finishSteps (options : CompileOptions) (head : Head NodeId)
    (inner : Text) : (finishSteps options head inner).filterMap Operation.lookedUp? = [] := by
  unfold finishSteps
  cases head.kind.render inner <;> rfl

/-- Recording a dependency looks nothing up. -/
@[simp] theorem lookedUp_dependSteps (parent : NodeId) (child : Segment NodeId) :
    (dependSteps parent child).filterMap Operation.lookedUp? = [] := by
  unfold dependSteps
  cases child.id? <;> rfl

/-- The compilation of children looks up each node once at most if that of each child does. -/
theorem lookedUp_childrenSteps_sublist {options : CompileOptions} (parent : NodeId)
    {children : List (Segment NodeId)}
    (hchildren : ∀ child ∈ children, ∀ cache : Cache,
      ((treeSteps options child cache).filterMap Operation.lookedUp?).Sublist
        (child.ids.map fun id => .of id options)) (cache : Cache) :
    ((childrenSteps options parent children cache).filterMap Operation.lookedUp?).Sublist
      (((Segment.nodesList children).filterMap Segment.id?).map fun id => .of id options) := by
  induction children generalizing cache with
  | nil => simp [childrenSteps]
  | cons child rest ih =>
    have hchild := hchildren child List.mem_cons_self (cache.dependOn parent child)
    have hrest := ih fun other hother => hchildren other (List.mem_cons_of_mem _ hother)
    rw [childrenSteps, Segment.nodesList]
    simp only [List.filterMap_append, List.map_append, lookedUp_dependSteps, List.nil_append]
    refine hchild.append ?_
    split
    · exact hrest _
    · exact List.nil_sublist _

/-- A compilation looks up each node once at most, in document order. -/
theorem lookedUp_treeSteps_sublist (options : CompileOptions) (segment : Segment NodeId)
    (cache : Cache) :
    ((treeSteps options segment cache).filterMap Operation.lookedUp?).Sublist
      (segment.ids.map fun id => .of id options) := by
  induction segment generalizing cache with
  | missing => simp [treeSteps]
  | leaf head =>
    have hids : (Segment.leaf head).ids = [head.id] := rfl
    rw [treeSteps, hids, lookedUp_get_cons]
    refine List.Sublist.cons_cons _ ?_
    split <;> simp
  | branch head children ih =>
    have hids : (Segment.branch head children).ids =
        head.id :: (Segment.nodesList children).filterMap Segment.id? := rfl
    rw [treeSteps, hids, lookedUp_get_cons]
    refine List.Sublist.cons_cons _ ?_
    split
    · exact List.nil_sublist _
    · rename_i after _
      have hchildren := lookedUp_childrenSteps_sublist head.id ih after
      rw [List.filterMap_append]
      split <;> simpa using hchildren

/-- Invalidation looks nothing up. -/
@[simp] theorem lookedUp_invalidationSteps (request : Request) :
    (invalidationSteps request).filterMap Operation.lookedUp? = [] := by
  refine List.filterMap_eq_nil_iff.mpr fun op hop => ?_
  rcases List.mem_flatMap.mp hop with ⟨path, -, hop⟩
  unfold pathSteps at hop
  split at hop
  · cases hop
  · rcases List.mem_cons.mp hop with rfl | hop
    · rfl
    · rcases List.mem_map.mp hop with ⟨id, -, rfl⟩
      rfl

/-! ## What the steps of a compilation are -/

/-- What is kept by each operation of a run is kept by the run. -/
theorem applyAll_induction {motive : Cache → Prop} {ops : List Operation}
    (hops : ∀ op ∈ ops, ∀ cache, motive cache → motive (cache.apply op)) {cache : Cache}
    (h : motive cache) : motive (cache.applyAll ops) :=
  List.foldlRecOn ops apply h fun cache hcache op hop => hops op hop cache hcache

/-- A step of the compilation of a tree, if texts are kept for some of its identifiers only: a
look-up of one of its nodes, a dependency of one on a child, or a text for one of those. -/
def CompileStep (tree : Segment NodeId) (options : CompileOptions) (kept : NodeId → Prop) :
    Operation → Prop
  | .get key => ∃ id ∈ tree.ids, key = .of id options
  | .set key _ => ∃ id ∈ tree.ids, kept id ∧ key = .of id options
  | .depend parent child => ∃ node ∈ tree.nodes, ∃ next ∈ node.children,
      node.id? = some parent ∧ next.id? = some child
  | .invalidate _ | .invalidateTree _ | .clear => False

section Steps

variable {tree : Segment NodeId} {options : CompileOptions} {kept : NodeId → Prop}
  {motive : Cache → Prop}

/-- The step that finishes a node for which a text is kept. -/
theorem compileStep_finishSteps {head : Head NodeId} (hmem : head.id ∈ tree.ids)
    (hkept : kept head.id) {inner : Text} {op : Operation}
    (hop : op ∈ finishSteps options head inner) : CompileStep tree options kept op := by
  unfold finishSteps at hop
  split at hop
  · rw [List.mem_singleton] at hop
    subst hop
    exact ⟨head.id, hmem, hkept, rfl⟩
  · cases hop

/-- The step that records the dependency of a node on a child. -/
theorem compileStep_dependSteps {node child : Segment NodeId} (hnode : node ∈ tree.nodes)
    (hchild : child ∈ node.children) {parent : NodeId} (hparent : node.id? = some parent)
    {op : Operation} (hop : op ∈ dependSteps parent child) : CompileStep tree options kept op := by
  unfold dependSteps at hop
  split at hop
  · cases hop
  · rename_i id hid
    rw [List.mem_singleton] at hop
    subst hop
    exact ⟨node, hnode, child, hchild, hparent, hid⟩

variable (hstep : ∀ op, CompileStep tree options kept op → ∀ cache, motive cache →
    motive (cache.apply op))
  (hmiss : ∀ id ∈ tree.ids, ∀ cache, motive cache → cache.text? (.of id options) = none → kept id)

include hstep

/-- The steps of the compilation of children, if those of each child are such steps. -/
theorem compileStep_childrenSteps {node : Segment NodeId} (hnode : node ∈ tree.nodes)
    {parent : NodeId} (hparent : node.id? = some parent) {children : List (Segment NodeId)}
    (hchildren : ∀ child ∈ children, child ∈ node.children)
    (hsteps : ∀ child ∈ children, ∀ cache, motive cache →
      ∀ op ∈ treeSteps options child cache, CompileStep tree options kept op)
    {cache : Cache} (h : motive cache) :
    ∀ op ∈ childrenSteps options parent children cache, CompileStep tree options kept op := by
  induction children generalizing cache with
  | nil =>
    intro op hop
    rw [childrenSteps] at hop
    cases hop
  | cons child rest ih =>
    rw [List.forall_mem_cons] at hchildren hsteps
    have hdepend : ∀ op ∈ dependSteps parent child, CompileStep tree options kept op :=
      fun op hop => compileStep_dependSteps hnode hchildren.1 hparent hop
    have hbefore : motive (cache.dependOn parent child) := by
      rw [← applyAll_dependSteps]
      exact applyAll_induction (fun op hop => hstep op (hdepend op hop)) h
    have hchild := hsteps.1 _ hbefore
    have hafter : motive (compileTree options child (cache.dependOn parent child)).2 := by
      rw [← applyAll_treeSteps]
      exact applyAll_induction (fun op hop => hstep op (hchild op hop)) hbefore
    intro op hop
    rw [childrenSteps, List.mem_append, List.mem_append] at hop
    rcases hop with (hop | hop) | hop
    · exact hdepend op hop
    · exact hchild op hop
    · split at hop
      · rename_i text after hresult
        rw [hresult] at hafter
        exact ih hchildren.2 hsteps.2 hafter op hop
      · cases hop

include hmiss

/-- The steps of a compilation, where a condition on the cache is kept by all of them and says for
which nodes no text is found. -/
theorem compileStep_treeSteps {node : Segment NodeId} (hnode : node ∈ tree.nodes) {cache : Cache}
    (h : motive cache) :
    ∀ op ∈ treeSteps options node cache, CompileStep tree options kept op := by
  induction node generalizing cache with
  | missing =>
    intro op hop
    rw [treeSteps] at hop
    cases hop
  | leaf head =>
    have hmem : head.id ∈ tree.ids := Segment.mem_ids hnode rfl
    intro op hop
    rw [treeSteps, get_eq, List.mem_cons] at hop
    rcases hop with rfl | hop
    · exact ⟨head.id, hmem, rfl⟩
    · cases hfound : cache.text? (.of head.id options) with
      | some text =>
        rw [hfound] at hop
        cases hop
      | none =>
        rw [hfound] at hop
        exact compileStep_finishSteps hmem (hmiss head.id hmem cache h hfound) hop
  | branch head children ih =>
    have hmem : head.id ∈ tree.ids := Segment.mem_ids hnode rfl
    have hlookup : CompileStep tree options kept (.get (.of head.id options)) :=
      ⟨head.id, hmem, rfl⟩
    intro op hop
    rw [treeSteps, get_eq, List.mem_cons] at hop
    rcases hop with rfl | hop
    · exact hlookup
    · cases hfound : cache.text? (.of head.id options) with
      | some text =>
        rw [hfound] at hop
        cases hop
      | none =>
        rw [hfound] at hop
        rcases List.mem_append.mp hop with hbelow | hlast
        · have hchildren : ∀ child ∈ children, ∀ cache, motive cache →
              ∀ op ∈ treeSteps options child cache, CompileStep tree options kept op :=
            fun child hchild cache hcache =>
              ih child hchild (Segment.mem_nodes_of_mem_children hnode hchild) hcache
          exact compileStep_childrenSteps hstep hnode rfl (fun _ hchild => hchild) hchildren
            (hstep _ hlookup cache h) op hbelow
        · have hkept := hmiss head.id hmem cache h hfound
          split at hlast
          · exact compileStep_finishSteps hmem hkept hlast
          · cases hlast

/-- What such steps look up and do not find are nodes for which a text is kept. -/
theorem kept_of_mem_missed {ops : List Operation}
    (hops : ∀ op ∈ ops, CompileStep tree options kept op) {cache : Cache} (h : motive cache)
    {key : CacheKey} (hkey : key ∈ missed cache ops) : kept key.id := by
  induction ops generalizing cache with
  | nil => cases hkey
  | cons op rest ih =>
    rw [List.forall_mem_cons] at hops
    have hrest := ih hops.2 (hstep op hops.1 cache h)
    cases op with
    | get looked =>
      rw [missed] at hkey
      split at hkey
      · rename_i hnone
        rcases List.mem_cons.mp hkey with rfl | hkey
        · rcases hops.1 with ⟨id, hid, rfl⟩
          exact hmiss id hid cache h hnone
        · exact hrest hkey
      · exact hrest hkey
    | set _ _ | depend _ _ | invalidate _ | invalidateTree _ | clear => exact hrest hkey

end Steps

end Cache

end PromptMarkup
