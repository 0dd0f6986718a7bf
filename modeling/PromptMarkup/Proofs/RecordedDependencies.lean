import PromptMarkup.Cache.Incremental
import PromptMarkup.Proofs.DependencyReach
import PromptMarkup.Proofs.IncrementalRuns
import PromptMarkup.Proofs.TreeParents

/-!
# Dependencies that cover a tree

The invalidation of a node is to clear everything below it.  It does so as long as for each
node with a text the whole way down to it is recorded: each node above it depends on its child
on that way.

A way is recorded while its nodes are compiled, from the top down, and lost when the last
text of a node on it is dropped.  A compilation looks a node up, records and compiles its
children one by one, and keeps its text; a condition that all these steps keep holds after it.

Main statements:

- {lit}`clearsBelow_iff`: invalidation clears everything below each node if the ways to all
  texts are recorded, and only then.
- {lit}`Compilation.compileTree`: what each step of a compilation keeps, a compilation keeps.
- {lit}`compilation_serves`: a compilation only records dependencies of nodes on their children.
-/

namespace PromptMarkup

namespace Cache

/-! ## Ways -/

/-- The way from the root of a tree down to a node is recorded: each node above it depends on
its child on the way. -/
def RecordsWay (cache : Cache) (tree node : Segment NodeId) : Prop :=
  ∀ above ∈ tree.nodes, ∀ next ∈ above.children, node ∈ next.nodes →
    ∀ parent child, above.id? = some parent → next.id? = some child →
      cache.DependsOn parent child

/-- The ways to all nodes of a tree that have a text are recorded. -/
def Covers (cache : Cache) (tree : Segment NodeId) : Prop :=
  ∀ node ∈ tree.nodes, ∀ key : CacheKey, node.id? = some key.id → cache.text? key ≠ none →
    cache.RecordsWay tree node

/-- After the invalidation of any node of a tree neither that node nor one below it has a text,
under whatever options. -/
def ClearsBelow (cache : Cache) (tree : Segment NodeId) : Prop :=
  ∀ node ∈ tree.nodes, ∀ below ∈ node.nodes, ∀ id belowId, node.id? = some id →
    below.id? = some belowId → (cache.invalidateTree id).Lacks belowId

/-- A cache for a tree: its index is in order, and all dependencies are those of nodes on their
children. -/
structure Serves (cache : Cache) (tree : Segment NodeId) : Prop where
  indexed : cache.Indexed
  filed : cache.Filed
  traced : ∀ parent child, cache.DependsOn parent child →
    ∃ node ∈ tree.nodes, ∃ next ∈ node.children,
      node.id? = some parent ∧ next.id? = some child

section Ways

variable {cache : Cache} {tree : Segment NodeId}

/-- Along a recorded way a node reaches what stands below it. -/
theorem RecordsWay.reaches {node below : Segment NodeId} (h : cache.RecordsWay tree below)
    (hwhole : tree.isWhole = true) (hnode : node ∈ tree.nodes) (hbelow : below ∈ node.nodes)
    {id belowId : NodeId} (hid : node.id? = some id) (hbelowId : below.id? = some belowId) :
    Relation.ReflTransGen cache.DependsOn id belowId := by
  induction node generalizing id with
  | missing => cases hid
  | leaf head =>
    rw [Segment.nodes, List.mem_singleton] at hbelow
    subst hbelow
    rw [hid] at hbelowId
    cases hbelowId
    exact .refl
  | branch head children ih =>
    rcases Segment.mem_nodes_branch.mp hbelow with rfl | ⟨child, hchild, hin⟩
    · rw [hid] at hbelowId
      cases hbelowId
      exact .refl
    · have hmem := Segment.mem_nodes_of_mem_children hnode hchild
      rcases Segment.exists_id?_of_isPresent (Segment.isPresent_of_mem_nodes hwhole hmem) with
        ⟨childId, hchildId⟩
      have hedge := h _ hnode child hchild hin id childId hid hchildId
      exact .head hedge (ih child hchild hmem hin hchildId)

/-- What a node reaches stands below it. -/
theorem Serves.mem_nodes_of_reaches (h : cache.Serves tree) (hdistinct : tree.ids.Nodup)
    {node below : Segment NodeId} (hnode : node ∈ tree.nodes) (hbelow : below ∈ tree.nodes)
    {id belowId : NodeId} (hid : node.id? = some id) (hbelowId : below.id? = some belowId)
    (hreaches : Relation.ReflTransGen cache.DependsOn id belowId) : below ∈ node.nodes := by
  induction hreaches generalizing below with
  | refl =>
    rw [Segment.eq_of_id?_eq hdistinct hbelow hnode hbelowId hid]
    exact Segment.mem_nodes_self _
  | tail _ hedge ih =>
    rcases h.traced _ _ hedge with ⟨parent, hparent, next, hnext, hparentId, hnextId⟩
    have hmem := Segment.mem_nodes_of_mem_children hparent hnext
    rw [Segment.eq_of_id?_eq hdistinct hbelow hmem hbelowId hnextId]
    exact Segment.mem_nodes_of_mem_children (ih hparent hparentId) hnext

/-- Invalidation clears everything below each node if the ways to all texts are recorded, and
only then. -/
theorem clearsBelow_iff (hwhole : tree.isWhole = true) (hdistinct : tree.ids.Nodup)
    (hnamed : ∀ id ∈ tree.ids, id.isEmpty = false) (h : cache.Serves tree) :
    cache.ClearsBelow tree ↔ cache.Covers tree := by
  constructor
  · intro hclears below hbelow key hkey htext above habove next hnext hin parent child hparent
      hchild
    have hinAbove : below ∈ above.nodes :=
      Segment.mem_nodes_trans (Segment.mem_nodes_of_mem_children (Segment.mem_nodes_self _) hnext)
        hin
    have hlacks := hclears above habove below hinAbove parent key.id hparent hkey key rfl
    -- The text is forgotten, so the node is reached.
    have hreaches : Relation.ReflTransGen cache.DependsOn parent key.id := by
      by_contra hnot
      have hkept := invalidateTree_of_not_reaches h.indexed h.filed
        (hnamed parent (Segment.mem_ids habove hparent)) hnot rfl
      exact htext (hkept.symm.trans hlacks)
    rcases Relation.ReflTransGen.cases_head hreaches with rfl | ⟨first, hedge, hrest⟩
    · rw [Segment.eq_of_id?_eq hdistinct hbelow habove hkey hparent] at hin
      exact absurd hin (Segment.not_mem_nodes_of_mem_children hnext)
    · rcases h.traced _ _ hedge with ⟨node, hnode, other, hother, hnodeId, hotherId⟩
      rw [Segment.eq_of_id?_eq hdistinct hnode habove hnodeId hparent] at hother
      have hotherTree := Segment.mem_nodes_of_mem_children habove hother
      have hinOther := h.mem_nodes_of_reaches hdistinct hotherTree hbelow hotherId hkey hrest
      rw [← Segment.eq_of_mem_nodes_of_mem_nodes (Segment.nodup_nodes hwhole hdistinct) habove
        hother hnext hinOther hin, hotherId] at hchild
      cases hchild
      exact hedge
  · intro hcovers node hnode below hbelow id belowId hid hbelowId
    have hbelowTree := Segment.mem_nodes_trans hnode hbelow
    have hroot := hnamed id (Segment.mem_ids hnode hid)
    intro key hkey
    by_cases htext : cache.text? key = none
    · exact (invalidateTree_forgets cache id h.indexed).1.text?_eq_none htext
    · have hway := hcovers below hbelowTree key (hkey ▸ hbelowId) htext
      exact invalidateTree_of_reaches h.indexed h.filed hroot
        (hnamed belowId (Segment.mem_ids hbelowTree hbelowId))
        (hway.reaches hwhole hnode hbelow hid hbelowId) key hkey

end Ways

/-! ## Operations -/

/-- To record a dependency changes no text. -/
@[simp] theorem entries_dependOn (cache : Cache) (id : NodeId) (child : Segment NodeId) :
    (cache.dependOn id child).entries = cache.entries := by
  unfold dependOn
  split
  · rfl
  · unfold depend
    dsimp only
    split <;> rfl

namespace Serves

variable {cache : Cache} {tree : Segment NodeId} (h : cache.Serves tree)

include h

/-- A cache still serves a tree after a look-up. -/
theorem get (key : CacheKey) : (cache.get key).2.Serves tree := by
  refine ⟨h.indexed.get key, fun id other hother => ?_, fun parent child hedge => ?_⟩
  · rw [keysOf_get] at hother
    exact h.filed id other hother
  · rw [DependsOn, dependenciesOf_get] at hedge
    exact h.traced parent child hedge

/-- A cache still serves a tree with a dependency of a node on one of its children. -/
theorem dependOn {node child : Segment NodeId} (hnode : node ∈ tree.nodes)
    (hchild : child ∈ node.children) {id : NodeId} (hid : node.id? = some id) :
    (cache.dependOn id child).Serves tree := by
  unfold Cache.dependOn
  split
  · exact h
  · rename_i childId hchildId
    refine ⟨h.indexed.depend id childId, fun other key hkey => ?_, fun parent next hedge => ?_⟩
    · rw [keysOf_depend] at hkey
      exact h.filed other key hkey
    · rcases dependsOn_depend_iff.mp hedge with hold | ⟨rfl, rfl⟩
      · exact h.traced parent next hold
      · exact ⟨node, hnode, child, hchild, hid, hchildId⟩

/-- A cache still serves a tree after a text was dropped. -/
theorem drop (key : CacheKey) : (cache.drop key).Serves tree :=
  ⟨h.indexed.drop key, h.filed.drop key, fun parent child hedge =>
    h.traced parent child hedge.of_drop⟩

/-- A cache still serves a tree after dependencies were forgotten. -/
theorem forget (id : NodeId) :
    Serves { cache with dependencies := cache.dependencies.erase id } tree :=
  ⟨h.indexed, h.filed, fun parent child hedge => h.traced parent child hedge.of_erase⟩

/-- A cache still serves a tree after room was made. -/
theorem makeRoom : cache.makeRoom.Serves tree :=
  dropOldest_induction (motive := fun cache => cache.Serves tree)
    (fun _ key _ _ _ hcache => hcache.drop key) _ h

/-- A cache still serves a tree with a text under a new key. -/
theorem insertNew {key : CacheKey} (hnew : cache.text? key = none) (text : Text) :
    (cache.insertNew key text).Serves tree := by
  refine ⟨h.indexed.insertNew hnew text, fun id other hother => ?_, h.traced⟩
  rw [keysOf_insertNew] at hother
  split at hother
  · rename_i hid
    rcases List.mem_append.mp hother with hold | hlast
    · exact h.filed id other hold
    · rw [List.mem_singleton.mp hlast, hid]
  · exact h.filed id other hother

/-- A cache still serves a tree with a text that is kept. -/
theorem set (key : CacheKey) (text : Text) : (cache.set key text).Serves tree := by
  rcases set_cases cache key text with ⟨-, hset⟩ | ⟨hnone, hset⟩
  · have hindexed := (text?_set_cases h.indexed key text).1
    rw [hset] at hindexed ⊢
    exact ⟨hindexed, h.filed, h.traced⟩
  · rw [hset]
    exact h.makeRoom.insertNew (text?_makeRoom_eq_none h.indexed hnone) text

end Serves

/-- An empty cache serves every tree. -/
theorem serves_empty (size : Int) (tree : Segment NodeId) : (empty size).Serves tree :=
  ⟨indexed_empty size, filed_empty size, fun _ _ hedge => absurd hedge List.not_mem_nil⟩

/-! ## Compilations -/

/-- Where children are compiled one after the other, one condition holds between them, and another
one while each of them is compiled.  In the end that holds for the child that was compiled last,
unless there is none. -/
theorem compileChildren_cases {options : CompileOptions} (outside : Segment NodeId → Cache → Prop)
    (within : Cache → Prop) {parent : NodeId} {children : List (Segment NodeId)}
    (henter : ∀ child ∈ children, ∀ cache, within cache →
      outside child (cache.dependOn parent child))
    (hcompile : ∀ child ∈ children, ∀ cache, outside child cache →
      outside child (compileTree options child cache).2)
    (hleave : ∀ child ∈ children, ∀ cache, outside child cache → within cache) {cache : Cache}
    (h : within cache) :
    children = [] ∧ (compileChildren options parent children cache).2 = cache ∨
      ∃ child ∈ children, outside child (compileChildren options parent children cache).2 := by
  induction children generalizing cache with
  | nil => exact Or.inl ⟨rfl, by rw [compileChildren]⟩
  | cons child rest ih =>
    refine Or.inr ?_
    have hchild := hcompile child List.mem_cons_self _ (henter child List.mem_cons_self cache h)
    rw [compileChildren]
    split
    · rename_i text after hresult
      rw [hresult] at hchild
      have hrest := ih (fun other hother => henter other (List.mem_cons_of_mem _ hother))
        (fun other hother => hcompile other (List.mem_cons_of_mem _ hother))
        (fun other hother => hleave other (List.mem_cons_of_mem _ hother))
        (hleave child List.mem_cons_self _ hchild)
      have hlast : ∃ other ∈ child :: rest,
          outside other (compileChildren options parent rest after).2 := by
        rcases hrest with ⟨-, hsame⟩ | ⟨other, hother, hafter⟩
        · exact ⟨child, List.mem_cons_self, hsame ▸ hchild⟩
        · exact ⟨other, List.mem_cons_of_mem _ hother, hafter⟩
      split
      · rename_i texts last hresult
        rw [hresult] at hlast
        exact hlast
      · rename_i e last hresult
        rw [hresult] at hlast
        exact hlast
    · rename_i e after hresult
      rw [hresult] at hchild
      exact ⟨child, List.mem_cons_self, hchild⟩

/-- Conditions on a cache that the steps of a compilation keep, for each node of a tree: one
that holds outside the node, before it is looked up and after its text was kept, and one that
holds within, while its children are compiled. -/
structure Compilation (tree : Segment NodeId) (options : CompileOptions)
    (outside within : Segment NodeId → Cache → Prop) : Prop where
  hit : ∀ node ∈ tree.nodes, ∀ id cache, node.id? = some id → outside node cache →
    cache.text? (.of id options) ≠ none → outside node (cache.get (.of id options)).2
  miss : ∀ node ∈ tree.nodes, ∀ id cache, node.id? = some id → outside node cache →
    cache.text? (.of id options) = none → within node (cache.get (.of id options)).2
  enter : ∀ node ∈ tree.nodes, ∀ child ∈ node.children, ∀ id cache, node.id? = some id →
    within node cache → outside child (cache.dependOn id child)
  leave : ∀ node ∈ tree.nodes, ∀ child ∈ node.children, ∀ cache,
    outside child cache → within node cache
  keep : ∀ node ∈ tree.nodes, ∀ id cache text, node.id? = some id → within node cache →
    outside node (cache.set (.of id options) text)
  fail : ∀ node ∈ tree.nodes, ∀ cache, within node cache → outside node cache

section Compilation

variable {tree : Segment NodeId} {options : CompileOptions}
  {outside within : Segment NodeId → Cache → Prop}
  (h : Compilation tree options outside within)

include h

/-- To finish a node is to leave it. -/
theorem Compilation.finish {node : Segment NodeId} (hnode : node ∈ tree.nodes) {head : Head NodeId}
    (hid : node.id? = some head.id) (inner : Text) {cache : Cache} (hwithin : within node cache) :
    outside node (finish options head inner cache).2 := by
  unfold Cache.finish
  split
  · exact h.keep node hnode head.id cache _ hid hwithin
  · exact h.fail node hnode cache hwithin

/-- What the compilation of each child keeps, that of the children keeps. -/
theorem Compilation.compileChildren {node : Segment NodeId} (hnode : node ∈ tree.nodes)
    {id : NodeId} (hid : node.id? = some id) {children : List (Segment NodeId)}
    (hchildren : ∀ child ∈ children, child ∈ node.children)
    (hcompile : ∀ child ∈ children, ∀ cache, outside child cache →
      outside child (compileTree options child cache).2) {cache : Cache}
    (hwithin : within node cache) :
    within node (compileChildren options id children cache).2 := by
  have hcases := compileChildren_cases outside (within node)
    (fun child hchild cache => h.enter node hnode child (hchildren child hchild) id cache hid)
    hcompile (fun child hchild => h.leave node hnode child (hchildren child hchild)) hwithin
  rcases hcases with ⟨-, hsame⟩ | ⟨child, hchild, hafter⟩
  · rw [hsame]
    exact hwithin
  · exact h.leave node hnode child (hchildren child hchild) _ hafter

/-- What each step of a compilation keeps, the compilation keeps. -/
theorem Compilation.compileTree (node : Segment NodeId) (hnode : node ∈ tree.nodes)
    {cache : Cache} (houtside : outside node cache) :
    outside node (compileTree options node cache).2 := by
  induction node generalizing cache with
  | missing =>
    rw [Cache.compileTree]
    exact houtside
  | leaf head =>
    rw [Cache.compileTree, get_eq]
    cases hfound : cache.text? (.of head.id options) with
    | some text =>
      have hsome := Option.ne_none_iff_exists'.mpr ⟨text, hfound⟩
      exact h.hit _ hnode head.id cache rfl houtside hsome
    | none => exact h.finish hnode rfl [] (h.miss _ hnode head.id cache rfl houtside hfound)
  | branch head children ih =>
    rw [Cache.compileTree, get_eq]
    cases hfound : cache.text? (.of head.id options) with
    | some text =>
      have hsome := Option.ne_none_iff_exists'.mpr ⟨text, hfound⟩
      exact h.hit _ hnode head.id cache rfl houtside hsome
    | none =>
      have hchildren : within (.branch head children)
          (Cache.compileChildren options head.id children
            (cache.get (.of head.id options)).2).2 :=
        h.compileChildren hnode rfl (fun _ hchild => hchild)
          (fun child hchild cache hcache =>
            ih child hchild (Segment.mem_nodes_of_mem_children hnode hchild) hcache)
          (h.miss _ hnode head.id cache rfl houtside hfound)
      dsimp only
      split
      · rename_i inner after hresult
        rw [hresult] at hchildren
        exact h.finish hnode rfl inner hchildren
      · rename_i e after hresult
        rw [hresult] at hchildren
        exact h.fail _ hnode after hchildren

end Compilation

/-- A compilation leaves the cache serving its tree. -/
theorem compilation_serves (tree : Segment NodeId) (options : CompileOptions) :
    Compilation tree options (fun _ cache => cache.Serves tree)
      (fun _ cache => cache.Serves tree) where
  hit _ _ _ _ _ h _ := h.get _
  miss _ _ _ _ _ h _ := h.get _
  enter _ hnode _ hchild _ _ hid h := h.dependOn hnode hchild hid
  leave _ _ _ _ _ h := h
  keep _ _ _ _ text _ h := h.set _ text
  fail _ _ _ h := h

end Cache

end PromptMarkup
