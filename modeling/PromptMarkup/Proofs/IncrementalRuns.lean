import Mathlib.Data.List.Chain
import PromptMarkup.Cache.Incremental
import PromptMarkup.Proofs.CacheContents
import PromptMarkup.Proofs.TreeNodes

/-!
# Runs of incremental compilations

A cache serves one tree after the other.  What it holds for an identifier of the
present tree is the text of that node; what it holds for others does not matter, as
a node that comes back has to be reported as changed.  This is the invariant of a
run, and every step keeps it: compilation reads and writes texts of nodes of the
tree, and invalidation clears the whole way from the root down to each change, so
that only nodes that stayed as they were keep their texts.

Main statements:

- {lit}`render_eq_of_kept`: a node under which nothing changed has the text it had.
- {lit}`exists_affectedPath`: a node above a change lies on a path to it.
- {lit}`compileTree_of_sound`: compiling with a sound cache gives the text of the tree
  and leaves the cache sound.
- {lit}`run_eq_map_compile`: a run that reports its changes gives the texts of its
  trees.
-/

namespace PromptMarkup

namespace Segment

/-! ## Nodes that stayed as they were -/

section Kept

variable {ι : Type}

/-- The identifiers of the children of a segment. -/
def childIds (segment : Segment ι) : List (Option ι) :=
  segment.children.map id?

/-- A tree has a node of the same identifier, kind and fields, whose children have the
same identifiers. -/
def KeptIn (node old : Segment ι) : Prop :=
  ∃ former ∈ old.nodes,
    former.id? = node.id? ∧ former.kind? = node.kind? ∧ former.childIds = node.childIds

/-- Lists of trees with the same identifiers have the same text if any two of their
trees that share an identifier have. -/
theorem renderList_congr {trees others : List (Segment ι)}
    (hids : trees.map id? = others.map id?)
    (hsame : ∀ tree ∈ trees, ∀ other ∈ others, tree.id? = other.id? →
      tree.render = other.render) :
    renderList trees = renderList others := by
  induction trees generalizing others with
  | nil =>
    cases others with
    | nil => rfl
    | cons other rest => cases hids
  | cons tree rest ih =>
    cases others with
    | nil => cases hids
    | cons other others =>
      rw [List.map_cons, List.map_cons, List.cons.injEq] at hids
      have hfirst := hsame tree List.mem_cons_self other List.mem_cons_self hids.1
      have hrest := ih hids.2 fun t ht o ho =>
        hsame t (List.mem_cons_of_mem _ ht) o (List.mem_cons_of_mem _ ho)
      rw [renderList, renderList, hfirst, hrest]

/-- A node under which nothing changed has the text that the node of its identifier
had. -/
theorem render_eq_of_kept {old node former : Segment ι} {id : ι}
    (hdistinct : old.ids.Nodup) (hpresent : ∀ below ∈ node.nodes, below.isPresent = true)
    (hrenders : ∀ below ∈ node.nodes, below.RendersItself)
    (hkept : ∀ below ∈ node.nodes, below.KeptIn old)
    (hformer : former ∈ old.nodes) (hid : node.id? = some id) (hsame : former.id? = some id) :
    former.render = node.render := by
  induction node generalizing former id with
  | missing => cases hid
  | leaf head =>
    rcases hkept _ (mem_nodes_self _) with ⟨found, hfound, hfoundId, hkind, hchildren⟩
    have heq : former = found :=
      eq_of_id?_eq hdistinct hformer hfound hsame (hfoundId.trans hid)
    subst heq
    have hnone : former.children = [] := List.map_eq_nil_iff.mp hchildren
    exact render_of_kind? hkind (by rw [hnone]; rfl)
  | branch head children ih =>
    rcases hkept _ (mem_nodes_self _) with ⟨found, hfound, hfoundId, hkind, hchildren⟩
    have heq : former = found :=
      eq_of_id?_eq hdistinct hformer hfound hsame (hfoundId.trans hid)
    subst heq
    have hbelow : ∀ child ∈ children, ∀ node ∈ child.nodes,
        node ∈ (branch head children).nodes :=
      fun child hchild node hnode => mem_nodes_branch.mpr (Or.inr ⟨child, hchild, hnode⟩)
    have hlists : renderList former.children = renderList children := by
      apply renderList_congr hchildren
      intro child hchild other hother hids
      have hpresentOther := hpresent other (hbelow other hother other (mem_nodes_self other))
      rcases exists_id?_of_isPresent hpresentOther with ⟨otherId, hotherId⟩
      exact ih other hother (fun n hn => hpresent n (hbelow other hother n hn))
        (fun n hn => hrenders n (hbelow other hother n hn))
        (fun n hn => hkept n (hbelow other hother n hn))
        (mem_nodes_of_mem_children hformer hchild) hotherId (hids.trans hotherId)
    rcases exists_renderList fun child hchild =>
      exists_render fun n hn => hrenders n (hbelow child hchild n hn) with
      ⟨inner, hinner⟩
    rw [render_of_kind? hkind (hlists.trans hinner), render_branch hinner]

end Kept

/-! ## Paths to changes -/

/-- The paths into a list of trees are those into its trees. -/
theorem mem_affectedPathsList {changed above path : List NodeId}
    {trees : List (Segment NodeId)} :
    path ∈ affectedPathsList changed above trees ↔
      ∃ tree ∈ trees, path ∈ affectedPaths changed above tree := by
  induction trees with
  | nil => simp [affectedPathsList]
  | cons tree rest ih => simp [affectedPathsList, ih]

/-- A node above a change lies on a path to it, and so does all that the path comes
from. -/
theorem exists_affectedPath (above : List NodeId) {changed : List NodeId}
    {tree node below : Segment NodeId} {id target : NodeId} (hnode : node ∈ tree.nodes)
    (hid : node.id? = some id) (hbelow : below ∈ node.nodes) (htarget : below.id? = some target)
    (hchanged : target ∈ changed) :
    ∃ path ∈ affectedPaths changed above tree, id ∈ path ∧ ∀ former ∈ above, former ∈ path := by
  induction tree generalizing above node id with
  | missing =>
    rw [nodes, List.mem_singleton] at hnode
    rw [hnode] at hid
    cases hid
  | leaf head =>
    rw [nodes, List.mem_singleton] at hnode
    subst hnode
    rw [nodes, List.mem_singleton] at hbelow
    subst hbelow
    cases hid
    cases htarget
    exact ⟨above ++ [head.id], by simp [affectedPaths, hchanged], by simp,
      fun former hformer => List.mem_append_left _ hformer⟩
  | branch head children ih =>
    rcases mem_nodes_branch.mp hnode with rfl | ⟨child, hchild, hmem⟩
    · cases hid
      rcases mem_nodes_branch.mp hbelow with rfl | ⟨child, hchild, hmem⟩
      · cases htarget
        exact ⟨above ++ [head.id], by simp [affectedPaths, hchanged], by simp,
          fun former hformer => List.mem_append_left _ hformer⟩
      · -- The path goes on into a child, and holds the identifier as one above it.
        obtain ⟨path, hpath, -, habove⟩ :=
          ih child hchild (above ++ [head.id]) hmem htarget (mem_nodes_self below)
        refine ⟨path, ?_, habove _ (by simp), fun former hformer => habove _ (by simp [hformer])⟩
        rw [affectedPaths]
        exact List.mem_append_right _ (mem_affectedPathsList.mpr ⟨child, hchild, hpath⟩)
    · obtain ⟨path, hpath, hon, habove⟩ :=
        ih child hchild (above ++ [head.id]) hmem hid hbelow
      refine ⟨path, ?_, hon, fun former hformer => habove _ (by simp [hformer])⟩
      rw [affectedPaths]
      exact List.mem_append_right _ (mem_affectedPathsList.mpr ⟨child, hchild, hpath⟩)

end Segment

namespace Cache

/-! ## Invalidation along paths -/

/-- Invalidating along a path only forgets, and the index still lists all keys. -/
theorem invalidatePath_forgets (cache : Cache) (path : List NodeId) (h : cache.Indexed) :
    (cache.invalidatePath path).ForgetsFrom cache ∧ (cache.invalidatePath path).Indexed := by
  unfold invalidatePath
  split
  · exact ⟨ForgetsFrom.refl cache, h⟩
  · rename_i last _
    rcases invalidateTree_forgets cache last h with ⟨hforgets, hindexed⟩
    rcases foldl_forgets invalidate_forgets path.dropLast hindexed with ⟨hrest, hrestIndexed⟩
    exact ⟨hrest.trans hforgets, hrestIndexed⟩

/-- Invalidating along a path leaves no text of any segment on it. -/
theorem invalidatePath_lacks {path : List NodeId} {id : NodeId} (hmem : id ∈ path)
    (hid : id.isEmpty = false) (cache : Cache) (h : cache.Indexed) :
    (cache.invalidatePath path).Lacks id := by
  obtain ⟨front, last, rfl⟩ : ∃ front last, path = front ++ [last] :=
    ⟨path.dropLast, path.getLast (List.ne_nil_of_mem hmem),
      (List.dropLast_concat_getLast _).symm⟩
  have hindexed := (invalidateTree_forgets cache last h).2
  simp only [invalidatePath, List.getLast?_concat, List.dropLast_concat]
  rcases List.mem_append.mp hmem with hfront | hlast
  · exact foldl_lacks invalidate_forgets hfront
      (fun cache h => invalidate_lacks h hid) hindexed
  · rw [List.mem_singleton] at hlast
    subst hlast
    exact (invalidateTree_lacks h hid).mono (foldl_forgets invalidate_forgets front hindexed).1

/-! ## Sound caches -/

/-- The text of the node that an identifier names in a tree, if it names one. -/
def TextOf (tree : Segment NodeId) (id : NodeId) (text : Text) : Prop :=
  ∀ node ∈ tree.nodes, node.id? = some id → node.render = .ok text

/-- The index lists all keys, and what is kept for an identifier of a tree is the text
of its node. -/
structure SoundFor (cache : Cache) (tree : Segment NodeId) : Prop where
  indexed : cache.Indexed
  texts : ∀ key text, cache.text? key = some text → TextOf tree key.id text

/-- Keeping the text of a node leaves a cache sound. -/
theorem SoundFor.set {cache : Cache} {tree : Segment NodeId} (h : cache.SoundFor tree)
    {key : CacheKey} {text : Text} (htext : TextOf tree key.id text) :
    (cache.set key text).SoundFor tree := by
  rcases text?_set_cases h.indexed key text with ⟨hindexed, hcases⟩
  refine ⟨hindexed, fun other found hfound => ?_⟩
  rcases hcases other found hfound with ⟨rfl, rfl⟩ | hold
  · exact htext
  · exact h.texts other found hold

/-- The index still lists all keys after the dependency on a child was recorded. -/
theorem Indexed.dependOn {cache : Cache} (h : cache.Indexed) (parent : NodeId)
    (child : Segment NodeId) : (cache.dependOn parent child).Indexed := by
  unfold Cache.dependOn
  split
  · exact h
  · exact h.depend parent _

/-- Recording a dependency leaves a cache sound. -/
theorem SoundFor.dependOn {cache : Cache} {tree : Segment NodeId} (h : cache.SoundFor tree)
    (parent : NodeId) (child : Segment NodeId) : (cache.dependOn parent child).SoundFor tree := by
  unfold Cache.dependOn
  split
  · exact h
  · exact ⟨h.indexed.depend parent _, fun key text htext =>
      h.texts key text (by rwa [text?_depend] at htext)⟩

/-- Looking a text up leaves a cache sound. -/
theorem SoundFor.get {cache : Cache} {tree : Segment NodeId} (h : cache.SoundFor tree)
    (key : CacheKey) : (cache.get key).2.SoundFor tree :=
  ⟨h.indexed.get key, fun other text htext => h.texts other text (by rwa [text?_get] at htext)⟩

/-! ## Compiling with a sound cache -/

/-- A compilation gives the text of a tree and leaves the cache sound for another, of
which it is a part. -/
def Compiles (tree : Segment NodeId) (text : Text)
    (outcome : Except RenderError Text × Cache) : Prop :=
  ∃ after, outcome = (.ok text, after) ∧ after.SoundFor tree

/-- Finishing a node keeps its text. -/
theorem finish_of_sound {tree node : Segment NodeId} {head : Head NodeId} {inner text : Text}
    (options : CompileOptions) (hdistinct : tree.ids.Nodup) (hnode : node ∈ tree.nodes)
    (hhead : node.head? = some head) (hrender : node.render = .ok text)
    (htext : head.kind.render inner = .ok text) {cache : Cache} (h : cache.SoundFor tree) :
    Compiles tree text (finish options head inner cache) := by
  have hid : node.id? = some head.id := by simp [Segment.id?, hhead]
  have hkept : TextOf tree head.id text := by
    intro other hother hotherId
    rw [Segment.eq_of_id?_eq hdistinct hother hnode hotherId hid]
    exact hrender
  rw [finish, htext]
  exact ⟨_, rfl, h.set hkept⟩

/-- Compiling children that compile one by one gives their texts one after the other. -/
theorem compileChildren_of_sound {tree : Segment NodeId} (options : CompileOptions)
    (parent : NodeId) {children : List (Segment NodeId)}
    (hchildren : ∀ child ∈ children, ∀ cache : Cache, cache.SoundFor tree →
      ∃ text, child.render = .ok text ∧ Compiles tree text (compileTree options child cache))
    {cache : Cache} (h : cache.SoundFor tree) :
    ∃ inner, Segment.renderList children = .ok inner ∧
      Compiles tree inner (compileChildren options parent children cache) := by
  induction children generalizing cache with
  | nil => exact ⟨[], rfl, cache, by rw [compileChildren], h⟩
  | cons child rest ih =>
    obtain ⟨text, htext, middle, hchild, hmiddle⟩ :=
      hchildren child List.mem_cons_self _ (h.dependOn parent child)
    obtain ⟨texts, htexts, after, hrest, hafter⟩ :=
      ih (fun other hother => hchildren other (List.mem_cons_of_mem _ hother)) hmiddle
    refine ⟨text ++ texts, Segment.renderList_cons htext htexts, after, ?_, hafter⟩
    rw [compileChildren, hchild]
    simp only [hrest]

/-- Compiling a part of a tree with a cache that is sound for the tree gives the text of
the part, and leaves the cache sound, whatever it drops on the way. -/
theorem compileTree_of_sound {tree node : Segment NodeId} (options : CompileOptions)
    (hdistinct : tree.ids.Nodup) (hpresent : tree.isWhole = true)
    (hrenders : ∀ below ∈ tree.nodes, below.RendersItself) (hnode : node ∈ tree.nodes)
    {cache : Cache} (h : cache.SoundFor tree) :
    ∃ text, node.render = .ok text ∧ Compiles tree text (compileTree options node cache) := by
  induction node generalizing cache with
  | missing => exact absurd (Segment.isPresent_of_mem_nodes hpresent hnode) Bool.false_ne_true
  | leaf head =>
    rcases hrenders _ hnode head rfl [] with ⟨text, htext⟩
    refine ⟨text, htext, ?_⟩
    rw [compileTree, get_eq]
    cases hfound : cache.text? (.of head.id options) with
    | some found =>
      have hsame : Except.ok text = Except.ok found :=
        htext.symm.trans (h.texts _ found hfound _ hnode rfl)
      exact ⟨_, by rw [hsame], h.get _⟩
    | none => exact finish_of_sound options hdistinct hnode rfl htext htext (h.get _)
  | branch head children ih =>
    have hchildren : ∀ child ∈ children, ∀ cache : Cache, cache.SoundFor tree →
        ∃ text, child.render = .ok text ∧
          Compiles tree text (compileTree options child cache) :=
      fun child hchild cache hcache =>
        ih child hchild (Segment.mem_nodes_of_mem_children hnode hchild) hcache
    obtain ⟨inner, hinner, after, hbelow, hafter⟩ :=
      compileChildren_of_sound options head.id hchildren (h.get (.of head.id options))
    rcases hrenders _ hnode head rfl inner with ⟨text, htext⟩
    have hrender := (Segment.render_branch hinner).trans htext
    refine ⟨text, hrender, ?_⟩
    rw [compileTree, get_eq]
    cases hfound : cache.text? (.of head.id options) with
    | some found =>
      have hsame : Except.ok text = Except.ok found :=
        hrender.symm.trans (h.texts _ found hfound _ hnode rfl)
      exact ⟨_, by rw [hsame], h.get _⟩
    | none =>
      simp only [hbelow]
      exact finish_of_sound options hdistinct hnode rfl hrender htext hafter

/-! ## Runs -/

/-- A request to compile a tree, with the settings and the time it is made under and the
identifiers of what is reported as changed. -/
structure Request where
  surroundings : Surroundings
  root : Segment NodeId
  changed : List NodeId
  options : Option CompileOptions

/-- A tree in which no segment is missing and every node can be written by itself, with
distinct identifiers that are not empty; and options under which no choice is made. -/
structure Request.Regular (request : Request) : Prop where
  whole : request.root.isWhole = true
  distinct : request.root.ids.Nodup
  named : ∀ id ∈ request.root.ids, id.isEmpty = false
  renders : ∀ node ∈ request.root.nodes, node.RendersItself
  plain : ∃ options, request.surroundings.optionsFor request.options = .ok options ∧
    options.expandWildcards = false

/-- The options of such a request make no choice. -/
theorem Request.Regular.expandWildcards_eq {request : Request} (h : request.Regular)
    {options : CompileOptions}
    (hoptions : request.surroundings.optionsFor request.options = .ok options) :
    options.expandWildcards = false := by
  rcases h.plain with ⟨other, hother, hplain⟩
  rw [hoptions] at hother
  cases hother
  exact hplain

/-- Whatever is new in the tree of a request, or differs from the node of its identifier
in the tree of an earlier one, is reported as changed. -/
def Request.Reports (request earlier : Request) : Prop :=
  ∀ node ∈ request.root.nodes, ∀ id, node.id? = some id → id ∉ request.changed →
    node.KeptIn earlier.root

/-- Answer requests one after the other, with one cache. -/
def run : Cache → List Request → List (Except CompileError Text) × Cache
  | cache, [] => ([], cache)
  | cache, request :: rest =>
    let (answer, cache) :=
      cache.incremental request.surroundings request.options request.changed request.root
    let (answers, cache) := run cache rest
    (answer :: answers, cache)

/-- Invalidation along all paths to changes. -/
def invalidateChanged (cache : Cache) (request : Request) : Cache :=
  (request.root.affectedPaths request.changed []).foldl invalidatePath cache

/-- What is kept where a key is dropped, or the dependencies of a segment, is kept by invalidation
along all paths to changes. -/
theorem invalidateChanged_induction {motive : Cache → Prop}
    (drop : ∀ cache key, motive cache → motive (cache.drop key))
    (forget : ∀ cache id, motive cache →
      motive { cache with dependencies := cache.dependencies.erase id })
    (request : Request) {cache : Cache} (h : motive cache) :
    motive (cache.invalidateChanged request) := by
  have hpath : ∀ (path : List NodeId) (cache : Cache), motive cache →
      motive (cache.invalidatePath path) := by
    intro path cache hcache
    unfold invalidatePath
    split
    · exact hcache
    · exact List.foldlRecOn (motive := motive) _ _ (invalidateTree_induction drop forget _ hcache)
        fun _ hbefore id _ => invalidate_induction drop forget id hbefore
  exact List.foldlRecOn (motive := motive) _ _ h fun _ hbefore path _ => hpath path _ hbefore

/-- An empty cache has nothing to invalidate. -/
theorem invalidateChanged_empty (size : Int) (request : Request) :
    (empty size).invalidateChanged request = empty size := by
  refine invalidateChanged_induction (motive := (· = empty size)) ?_ ?_ request rfl
  · rintro _ key rfl
    rfl
  · rintro _ id rfl
    rfl

/-- A request for a whole tree as it stands is answered by a compilation with what invalidation
left of the cache. -/
theorem incremental_eq {request : Request} {options : CompileOptions}
    (hoptions : request.surroundings.optionsFor request.options = .ok options)
    (hplain : options.expandWildcards = false) (hwhole : request.root.isWhole = true)
    (cache : Cache) :
    cache.incremental request.surroundings request.options request.changed request.root =
      ((compileTree options request.root (cache.invalidateChanged request)).1.mapError .render,
        (compileTree options request.root (cache.invalidateChanged request)).2) := by
  have hchanged : cache.compileChanged options request.changed request.root =
      compileTree options request.root (cache.invalidateChanged request) := rfl
  unfold incremental
  split
  · rename_i hmissing
    have hpresent := Segment.isPresent_of_mem_nodes hwhole (Segment.mem_nodes_self _)
    rw [hmissing] at hpresent
    cases hpresent
  · rw [hoptions]
    simp only [hplain, hwhole, hchanged, Bool.false_eq_true, if_false, Bool.not_true]
    rcases compileTree options request.root (cache.invalidateChanged request) with
      ⟨answer | text, after⟩ <;> rfl

/-- Any other request leaves the cache alone. -/
theorem incremental_cases (request : Request) (cache : Cache) :
    (cache.incremental request.surroundings request.options request.changed request.root).2 =
        cache ∨
      ∃ options, request.surroundings.optionsFor request.options = .ok options ∧
        options.expandWildcards = false ∧ request.root.isWhole = true := by
  unfold incremental
  split
  · exact Or.inl rfl
  · cases hoptions : request.surroundings.optionsFor request.options with
    | error e => exact Or.inl rfl
    | ok options =>
      cases hplain : options.expandWildcards with
      | true => exact Or.inl (by simp [hplain])
      | false =>
        cases hwhole : request.root.isWhole with
        | true => exact Or.inr ⟨options, rfl, hplain, rfl⟩
        | false => exact Or.inl (by simp [hplain])

/-- Invalidation makes a cache that is sound for one tree sound for the next. -/
theorem SoundFor.invalidateChanged {cache : Cache} {earlier request : Request}
    (h : cache.SoundFor earlier.root) (hearlier : earlier.Regular) (hregular : request.Regular)
    (hreports : request.Reports earlier) :
    (cache.invalidateChanged request).SoundFor request.root := by
  rcases foldl_forgets invalidatePath_forgets
    (request.root.affectedPaths request.changed []) h.indexed with
    ⟨hforgets, hindexed⟩
  refine ⟨hindexed, fun key text htext node hnode hid => ?_⟩
  have hkept : ∀ below ∈ node.nodes, below.KeptIn earlier.root := by
    intro below hbelow
    have hbelowRoot := Segment.mem_nodes_trans hnode hbelow
    rcases Segment.exists_id?_of_isPresent
      (Segment.isPresent_of_mem_nodes hregular.whole hbelowRoot) with ⟨belowId, hbelowId⟩
    refine hreports below hbelowRoot belowId hbelowId fun hchanged => ?_
    -- A change below the node would have cleared its texts.
    obtain ⟨path, hpath, hon, -⟩ :=
      Segment.exists_affectedPath [] hnode hid hbelow hbelowId hchanged
    have hlacks := foldl_lacks invalidatePath_forgets hpath
      (invalidatePath_lacks hon (hregular.named _ (Segment.mem_ids hnode hid))) h.indexed
    exact absurd htext (by rw [Cache.invalidateChanged, hlacks key rfl]; exact nofun)
  rcases hkept node (Segment.mem_nodes_self node) with ⟨former, hformer, hformerId, -⟩
  have hsame : former.id? = some key.id := hformerId.trans hid
  have hrender := h.texts key text (hforgets key text htext) former hformer hsame
  rw [← hrender]
  exact (Segment.render_eq_of_kept hearlier.distinct
    (fun below hbelow => Segment.isPresent_of_mem_nodes hregular.whole
      (Segment.mem_nodes_trans hnode hbelow))
    (fun below hbelow => hregular.renders below (Segment.mem_nodes_trans hnode hbelow))
    hkept hformer hid hsame).symm

/-- A cache without any text is sound for every tree after invalidation. -/
theorem SoundFor.invalidateChanged_empty (size : Int) (request : Request) :
    ((empty size).invalidateChanged request).SoundFor request.root := by
  rw [Cache.invalidateChanged_empty]
  exact ⟨indexed_empty size, fun _ _ htext => absurd htext nofun⟩

/-- A request is answered with the text of its tree if the cache is sound for the tree
after invalidation, and the cache is left sound for it. -/
theorem incremental_of_sound {request : Request} {cache : Cache} (hregular : request.Regular)
    (h : (cache.invalidateChanged request).SoundFor request.root) :
    ∃ text after, compile request.surroundings request.options request.root = .ok text ∧
      cache.incremental request.surroundings request.options request.changed request.root =
        (.ok text, after) ∧ after.SoundFor request.root := by
  rcases hregular.plain with ⟨options, hoptions, hplain⟩
  obtain ⟨text, hrender, after, hcompiles, hafter⟩ :=
    compileTree_of_sound options hregular.distinct hregular.whole hregular.renders
      (Segment.mem_nodes_self request.root) h
  have hpresent := Segment.isPresent_of_mem_nodes hregular.whole
    (Segment.mem_nodes_self request.root)
  refine ⟨text, after, ?_, ?_, hafter⟩
  · exact (compile_eq_ok_iff hoptions hplain hpresent).mpr hrender
  · rw [incremental_eq hoptions hplain hregular.whole, hcompiles]
    rfl

/-- The answers of a run are the answer to its first request and those of the rest. -/
theorem run_cons {cache after : Cache} {request : Request}
    {answer : Except CompileError Text} (rest : List Request)
    (h : cache.incremental request.surroundings request.options request.changed request.root =
      (answer, after)) :
    (cache.run (request :: rest)).1 = answer :: (after.run rest).1 := by
  rw [run, h]

/-- A run gives the texts of its trees if the cache is sound for the first of them after
invalidation. -/
theorem run_of_sound {cache : Cache} {request : Request} {rest : List Request}
    (h : (cache.invalidateChanged request).SoundFor request.root)
    (hregular : ∀ other ∈ request :: rest, other.Regular)
    (hreports : (request :: rest).IsChain fun former later => later.Reports former) :
    ∃ texts : List Text, (cache.run (request :: rest)).1 = texts.map .ok ∧
      (request :: rest).map (fun other => compile other.surroundings other.options other.root) =
        texts.map .ok := by
  induction rest generalizing cache request with
  | nil =>
    obtain ⟨text, after, hcompile, hanswer, -⟩ :=
      incremental_of_sound (hregular request List.mem_cons_self) h
    exact ⟨[text], run_cons [] hanswer, by simp [hcompile]⟩
  | cons next rest ih =>
    have hfirst := hregular request List.mem_cons_self
    have hlater : ∀ other ∈ next :: rest, other.Regular :=
      fun other hother => hregular other (List.mem_cons_of_mem _ hother)
    rcases List.isChain_cons_cons.mp hreports with ⟨hreport, hrest⟩
    rcases incremental_of_sound hfirst h with ⟨text, after, hcompile, hanswer, hafter⟩
    have hnext : (after.invalidateChanged next).SoundFor next.root :=
      hafter.invalidateChanged hfirst (hlater next List.mem_cons_self) hreport
    rcases ih hnext hlater hrest with ⟨texts, hanswers, hcompiles⟩
    refine ⟨text :: texts, ?_, ?_⟩
    · rw [run_cons _ hanswer, hanswers, List.map_cons]
    · rw [List.map_cons, hcompile, hcompiles, List.map_cons]

/-- Incremental compilation gives what full compilation gives: a run of requests that
starts from an empty cache of any size, and reports what each tree changed in the one
before, is answered with the texts of its trees, whatever the cache dropped. -/
theorem run_eq_map_compile (size : Int) (requests : List Request)
    (hregular : ∀ request ∈ requests, request.Regular)
    (hreports : requests.IsChain fun former later => later.Reports former) :
    ∃ texts : List Text, ((empty size).run requests).1 = texts.map .ok ∧
      requests.map (fun request => compile request.surroundings request.options request.root) =
        texts.map .ok := by
  cases requests with
  | nil => exact ⟨[], rfl, rfl⟩
  | cons request rest =>
    exact run_of_sound (SoundFor.invalidateChanged_empty size request) hregular hreports

/-- A run of two requests through a cache for a single text: a text moves out of a span,
the span changes its type, and the seed is another. -/
theorem run_eq_map_compile_moved :
    let text : Segment NodeId := .leaf ⟨.named "t", .text (some ['a']), none⟩
    let span (type : BracketType) (children : List (Segment NodeId)) : Segment NodeId :=
      .branch ⟨.named "w", .weighted (.valid type) (.valid 2), none⟩ children
    let root (children : List (Segment NodeId)) : Segment NodeId :=
      .branch ⟨.named "r", .text (some []), none⟩ children
    let requests : List Request :=
      [⟨⟨.ok {}, 0⟩, root [span .increase [text]], [], some ⟨false, none, 50⟩⟩,
        ⟨⟨.ok {}, 1⟩, root [text, span .decrease []], [.named "r", .named "w"],
          some ⟨false, some 7, 50⟩⟩]
    (∀ request ∈ requests, request.Regular) ∧
      (requests.IsChain fun former later => later.Reports former) ∧
      ∃ texts : List Text, ((empty 1).run requests).1 = texts.map .ok ∧
        requests.map (fun request => compile request.surroundings request.options request.root) =
          texts.map .ok := by
  intro text span root requests
  have hregular : ∀ request ∈ requests, request.Regular := by
    intro request hrequest
    rcases List.mem_pair.mp hrequest with rfl | rfl
    all_goals
      refine ⟨by decide, by decide, by decide, ?_, ⟨_, rfl, rfl⟩⟩
      intro node hnode head hhead inner
      simp only [root, span, text, Segment.nodes, Segment.nodesList, List.append_nil,
        List.cons_append, List.nil_append, List.mem_cons, List.not_mem_nil, or_false] at hnode
      rcases hnode with rfl | rfl | rfl
      all_goals
        cases hhead
        exact ⟨_, rfl⟩
  have hreports : requests.IsChain fun former later => later.Reports former := by
    refine .cons_cons ?_ (.singleton _)
    intro node hnode id hid hunchanged
    simp only [root, span, text, Segment.nodes, Segment.nodesList, List.append_nil,
      List.cons_append, List.nil_append, List.mem_cons, List.not_mem_nil, or_false] at hnode
    rcases hnode with rfl | rfl | rfl
    · cases hid
      exact absurd hunchanged (by decide)
    · exact ⟨text, by simp [root, span, Segment.nodes, Segment.nodesList], rfl, rfl, rfl⟩
    · cases hid
      exact absurd hunchanged (by decide)
  exact ⟨hregular, hreports, run_eq_map_compile 1 requests hregular hreports⟩

end Cache

end PromptMarkup
