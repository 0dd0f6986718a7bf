import PromptMarkup.Proofs.DependencyRuns

/-!
# Requests with every choice made

A tree with every choice made is compiled past the cache, and what such a request reports as
changed is not looked at: it leaves the cache as it was.  So a request without choices that
comes next has to report the changes since the last one of its kind.  If it does not, nodes
that were there before are written as they were, the root first of all.

Main statements:

- {lit}`incremental_of_expands`: a request with every choice made gives the text of its tree
  and leaves the cache alone.
- {lit}`run_eq_map_compiled`: a run in which requests without choices report what changed since
  the last one of their kind is answered with the texts of its trees.
- {lit}`Detour.answers`: what is answered after a request with every choice made, when its
  changes are reported once more and when they are not.
-/

namespace PromptMarkup

namespace Cache

/-! ## Past the cache -/

/-- Whether a request asks for every choice to be made. -/
def Request.expands (request : Request) : Bool :=
  match request.surroundings.optionsFor request.options with
  | .ok options => options.expandWildcards
  | .error _ => false

/-- What full compilation answers to a request. -/
def Request.compiled (request : Request) : Except CompileError Text :=
  compile request.surroundings request.options request.root

/-- A request with every choice made gives the text of its tree and leaves the cache alone,
whatever it reports. -/
theorem incremental_of_expands {request : Request} (h : request.expands = true) (cache : Cache) :
    cache.incremental request.surroundings request.options request.changed request.root =
      (request.compiled, cache) := by
  unfold Request.expands at h
  unfold incremental Request.compiled compile
  split at h
  · rename_i options hoptions
    rw [hoptions]
    cases request.root with
    | missing => rfl
    | leaf head => exact if_pos h
    | branch head children => exact if_pos h
  · cases h

/-- A regular request asks for no choice to be made. -/
theorem Request.Regular.expands_eq_false {request : Request} (h : request.Regular) :
    request.expands = false := by
  rcases h.plain with ⟨options, hoptions, hplain⟩
  rw [Request.expands, hoptions]
  exact hplain

/-- The tree of a regular request has a text. -/
theorem Request.Regular.exists_compiled {request : Request} (h : request.Regular) :
    ∃ text, request.compiled = .ok text := by
  rcases incremental_of_sound h (SoundFor.invalidateChanged_empty 0 request) with
    ⟨text, -, hcompile, -⟩
  exact ⟨text, hcompile⟩

/-- The requests of a run that ask for a tree as it stands. -/
def standing (requests : List Request) : List Request :=
  requests.filter fun request => !request.expands

/-- A request with every choice made is not among those for a tree as it stands. -/
theorem standing_cons_of_expands {request : Request} (h : request.expands = true)
    (rest : List Request) : standing (request :: rest) = standing rest :=
  List.filter_cons_of_neg (by simp [h])

/-- A request for a tree as it stands is the first of those. -/
theorem standing_cons_of_not_expands {request : Request} (h : request.expands = false)
    (rest : List Request) : standing (request :: rest) = request :: standing rest :=
  List.filter_cons_of_pos (by simp [h])

/-- A run is answered with the texts of its trees if the cache is sound for the first tree that
is asked for as it stands, and each later one is reported against the one before. -/
theorem run_of_sound_standing {requests : List Request} {cache : Cache}
    (hsound : ∀ next ∈ (standing requests).head?,
      (cache.invalidateChanged next).SoundFor next.root)
    (hregular : ∀ request ∈ requests, request.expands = true ∨ request.Regular)
    (hreports : (standing requests).IsChain fun former later => later.Reports former) :
    (cache.run requests).1 = requests.map Request.compiled := by
  induction requests generalizing cache with
  | nil => rfl
  | cons request rest ih =>
    have hrest : ∀ other ∈ rest, other.expands = true ∨ other.Regular :=
      fun other hother => hregular other (List.mem_cons_of_mem _ hother)
    cases hexpands : request.expands with
    | true =>
      rw [standing_cons_of_expands hexpands] at hsound hreports
      rw [run_cons rest (incremental_of_expands hexpands cache), ih hsound hrest hreports,
        List.map_cons]
    | false =>
      rw [standing_cons_of_not_expands hexpands] at hsound hreports
      have hplain : request.Regular :=
        (hregular request List.mem_cons_self).resolve_left (by simp [hexpands])
      rcases incremental_of_sound hplain (hsound request rfl) with
        ⟨text, after, hcompile, hanswer, hafter⟩
      rcases List.isChain_cons.mp hreports with ⟨hreport, hchain⟩
      have hnext : ∀ next ∈ (standing rest).head?,
          (after.invalidateChanged next).SoundFor next.root := by
        intro next hhead
        have hmem := List.mem_of_mem_head? hhead
        rcases List.mem_filter.mp hmem with ⟨hrestMem, hstands⟩
        have hlater : next.Regular := (hrest next hrestMem).resolve_left (by simpa using hstands)
        exact hafter.invalidateChanged hplain hlater (hreport next hhead)
      rw [run_cons rest hanswer, ih hnext hrest hchain, List.map_cons, Request.compiled, hcompile]

/-- A run that starts from an empty cache of any size is answered with the texts of its trees,
if each request for a tree as it stands reports what changed since the last one of its kind,
whatever trees were compiled with their choices made in between. -/
theorem run_eq_map_compiled (size : Int) {requests : List Request}
    (hregular : ∀ request ∈ requests, request.expands = true ∨ request.Regular)
    (hreports : (standing requests).IsChain fun former later => later.Reports former) :
    ((empty size).run requests).1 = requests.map Request.compiled :=
  run_of_sound_standing (fun next _ => SoundFor.invalidateChanged_empty size next) hregular
    hreports

/-! ## What a compilation leaves -/

/-- A cache whose index is in order and which has texts of the nodes of a tree only. -/
structure HoldsOnly (cache : Cache) (tree : Segment NodeId) : Prop where
  indexed : cache.Indexed
  listed : ∀ key, cache.text? key ≠ none → key.id ∈ tree.ids

/-- An empty cache has no text of anything else. -/
theorem holdsOnly_empty (size : Int) (tree : Segment NodeId) : (empty size).HoldsOnly tree :=
  ⟨indexed_empty size, fun key htext => absurd (text?_empty size key) htext⟩

/-- After a look-up a cache has the texts that it had. -/
theorem HoldsOnly.get {cache : Cache} {tree : Segment NodeId} (h : cache.HoldsOnly tree)
    (key : CacheKey) : (cache.get key).2.HoldsOnly tree :=
  ⟨h.indexed.get key, fun other htext => h.listed other (by rwa [text?_get] at htext)⟩

/-- A compilation of a tree keeps texts of its nodes only. -/
theorem compilation_holdsOnly (tree : Segment NodeId) (options : CompileOptions) :
    Compilation tree options (fun _ cache => cache.HoldsOnly tree)
      (fun _ cache => cache.HoldsOnly tree) where
  hit _ _ _ _ _ h _ := h.get _
  miss _ _ _ _ _ h _ := h.get _
  enter _ _ child _ id _ _ h :=
    ⟨h.indexed.dependOn id child, fun key htext =>
      h.listed key (by rwa [text?, entries_dependOn] at htext)⟩
  leave _ _ _ _ _ h := h
  keep node hnode id cache text hid h := by
    rcases text?_set_cases h.indexed (.of id options) text with ⟨hindexed, hcases⟩
    refine ⟨hindexed, fun key htext => ?_⟩
    rcases Option.ne_none_iff_exists'.mp htext with ⟨found, hfound⟩
    rcases hcases key found hfound with ⟨rfl, -⟩ | hold
    · exact Segment.mem_ids hnode hid
    · exact h.listed key (by rw [hold]; exact Option.some_ne_none found)
  fail _ _ _ h := h

/-- A node that was finished has its text in the cache. -/
theorem text?_finish {options : CompileOptions} {head : Head NodeId} {inner text : Text}
    {cache after : Cache} (h : cache.Indexed)
    (hfinish : finish options head inner cache = (.ok text, after)) :
    after.text? (.of head.id options) = some text := by
  unfold finish at hfinish
  split at hfinish
  · cases hfinish
    exact text?_set_self h _ _
  · cases hfinish

/-- A tree that was compiled has its text in the cache, under the identifier of its root. -/
theorem text?_compileTree {options : CompileOptions} {tree : Segment NodeId} {text : Text}
    {cache after : Cache} {id : NodeId} (h : cache.HoldsOnly tree) (hid : tree.id? = some id)
    (hcompiles : compileTree options tree cache = (.ok text, after)) :
    after.text? (.of id options) = some text := by
  cases tree with
  | missing => cases hid
  | leaf head =>
    cases hid
    rw [compileTree, get_eq] at hcompiles
    cases hfound : cache.text? (.of head.id options) with
    | some found =>
      rw [hfound] at hcompiles
      cases hcompiles
      rw [text?_get, hfound]
    | none =>
      rw [hfound] at hcompiles
      exact text?_finish (h.indexed.get _) hcompiles
  | branch head children =>
    cases hid
    rw [compileTree, get_eq] at hcompiles
    cases hfound : cache.text? (.of head.id options) with
    | some found =>
      rw [hfound] at hcompiles
      cases hcompiles
      rw [text?_get, hfound]
    | none =>
      rw [hfound] at hcompiles
      have hcompilation := compilation_holdsOnly (.branch head children) options
      have hself := Segment.mem_nodes_self (.branch head children)
      have hchildren : (compileChildren options head.id children
          (cache.get (.of head.id options)).2).2.HoldsOnly (.branch head children) :=
        hcompilation.compileChildren hself rfl (fun _ hchild => hchild)
          (fun child hchild cache hcache =>
            hcompilation.compileTree child (Segment.mem_nodes_of_mem_children hself hchild) hcache)
          (h.get (.of head.id options))
      dsimp only at hcompiles
      split at hcompiles
      · rename_i inner middle hresult
        rw [hresult] at hchildren
        exact text?_finish hchildren.indexed hcompiles
      · cases hcompiles

/-- A request for a tree as it stands is answered by a compilation with what invalidation left
of the cache. -/
theorem incremental_of_regular {request : Request} {options : CompileOptions}
    (hregular : request.Regular)
    (hoptions : request.surroundings.optionsFor request.options = .ok options) (cache : Cache) :
    cache.incremental request.surroundings request.options request.changed request.root =
      ((compileTree options request.root (cache.invalidateChanged request)).1.mapError .render,
        (compileTree options request.root (cache.invalidateChanged request)).2) := by
  have hplain : options.expandWildcards = false := by
    rcases hregular.plain with ⟨other, hother, hplain⟩
    rw [hoptions] at hother
    cases hother
    exact hplain
  exact incremental_eq hoptions hplain hregular.whole cache

/-- Where nothing is reported nothing is forgotten. -/
theorem invalidateChanged_of_unchanged {request : Request} (h : request.changed = [])
    (cache : Cache) : cache.invalidateChanged request = cache := by
  rw [invalidateChanged, h, Segment.affectedPaths_nil, List.foldl_nil]

/-- A request that reports nothing is answered with what its tree is compiled to. -/
theorem compileTree_of_incremental {request : Request} {options : CompileOptions} {text : Text}
    {cache after : Cache} (hregular : request.Regular)
    (hoptions : request.surroundings.optionsFor request.options = .ok options)
    (hunreported : request.changed = [])
    (hanswer : cache.incremental request.surroundings request.options request.changed
      request.root = (.ok text, after)) :
    compileTree options request.root cache = (.ok text, after) := by
  rw [incremental_of_regular hregular hoptions, invalidateChanged_of_unchanged hunreported]
    at hanswer
  rcases hresult : compileTree options request.root cache with ⟨answer | found, last⟩
  · rw [hresult] at hanswer
    cases hanswer
  · rw [hresult] at hanswer
    cases hanswer
    rfl

/-- A tree whose root has a text in the cache is compiled to that text. -/
theorem compileTree_of_text? {options : CompileOptions} {tree : Segment NodeId} {text : Text}
    {cache : Cache} {id : NodeId} (hid : tree.id? = some id)
    (hfound : cache.text? (.of id options) = some text) :
    compileTree options tree cache = (.ok text, (cache.get (.of id options)).2) := by
  cases tree with
  | missing => cases hid
  | leaf head =>
    cases hid
    rw [compileTree, get_eq, hfound]
  | branch head children =>
    cases hid
    rw [compileTree, get_eq, hfound]

/-- A tree whose nodes can be written is compiled to some text, whatever the cache holds. -/
theorem exists_compileTree (options : CompileOptions) {tree : Segment NodeId}
    (h : ∀ node ∈ tree.nodes, node.RendersItself) (cache : Cache) :
    ∃ text after, compileTree options tree cache = (.ok text, after) := by
  have hfinish : ∀ (head : Head NodeId) (inner : Text) (cache : Cache),
      (∃ text, head.kind.render inner = .ok text) →
        ∃ text after, finish options head inner cache = (.ok text, after) := by
    rintro head inner cache ⟨text, htext⟩
    exact ⟨text, _, by rw [finish, htext]⟩
  induction tree generalizing cache with
  | missing => exact ⟨[], cache, by rw [compileTree]⟩
  | leaf head =>
    rw [compileTree, get_eq]
    cases cache.text? (.of head.id options) with
    | some found => exact ⟨found, _, rfl⟩
    | none => exact hfinish head [] _ (h _ (Segment.mem_nodes_self _) head rfl [])
  | branch head children ih =>
    have hchildren : ∀ (trees : List (Segment NodeId)) (cache : Cache),
        (∀ tree ∈ trees, tree ∈ children) →
          ∃ inner after, compileChildren options head.id trees cache = (.ok inner, after) := by
      intro trees
      induction trees with
      | nil => exact fun cache _ => ⟨[], cache, by rw [compileChildren]⟩
      | cons tree rest ihtrees =>
        intro cache hmem
        have htree := hmem tree List.mem_cons_self
        have hrenders : ∀ node ∈ tree.nodes, node.RendersItself := fun node hnode =>
          h node (Segment.mem_nodes_branch.mpr (Or.inr ⟨tree, htree, hnode⟩))
        rcases ih tree htree hrenders (cache.dependOn head.id tree) with ⟨text, middle, hfirst⟩
        rcases ihtrees middle fun other hother => hmem other (List.mem_cons_of_mem _ hother) with
          ⟨texts, after, hrest⟩
        exact ⟨text ++ texts, after, by rw [compileChildren, hfirst]; simp only [hrest]⟩
    rw [compileTree, get_eq]
    cases cache.text? (.of head.id options) with
    | some found => exact ⟨found, _, rfl⟩
    | none =>
      rcases hchildren children (cache.get (.of head.id options)).2 fun _ htree => htree with
        ⟨inner, after, hinner⟩
      rcases hfinish head inner after (h _ (Segment.mem_nodes_self _) head rfl inner) with
        ⟨text, last, hlast⟩
      exact ⟨text, last, by simp only [hinner, hlast]⟩

/-! ## A request in between -/

/-- A tree is asked for as it stands; then another with its choices made, and what changed is
reported; then the other as it stands, under the options of the first request and with nothing
reported. -/
structure Detour (first middle last : Request) (options : CompileOptions) : Prop where
  begins : first.Regular
  ends : last.Regular
  expands : middle.expands = true
  root : middle.root = last.root
  reports : middle.Reports first
  unreported : first.changed = [] ∧ last.changed = []
  beginsWith : first.surroundings.optionsFor first.options = .ok options
  endsWith : last.surroundings.optionsFor last.options = .ok options

/-- If the changes are reported once more, a run is answered with the texts of its trees. -/
theorem Detour.run_reported {first middle last : Request} {options : CompileOptions}
    (h : Detour first middle last options) (size : Int) :
    ((empty size).run [first, middle, { last with changed := middle.changed }]).1 =
      [first.compiled, middle.compiled, last.compiled] := by
  have hlast : Request.Regular { last with changed := middle.changed } :=
    ⟨h.ends.whole, h.ends.distinct, h.ends.named, h.ends.renders, h.ends.plain⟩
  have hreports : Request.Reports { last with changed := middle.changed } first := by
    have hmiddle := h.reports
    rw [Request.Reports, h.root] at hmiddle
    exact hmiddle
  refine run_eq_map_compiled size ?_ ?_
  · intro request hrequest
    simp only [List.mem_cons, List.not_mem_nil, or_false] at hrequest
    rcases hrequest with rfl | rfl | rfl
    · exact Or.inr h.begins
    · exact Or.inl h.expands
    · exact Or.inr hlast
  · rw [standing_cons_of_not_expands h.begins.expands_eq_false, standing_cons_of_expands h.expands,
      standing_cons_of_not_expands hlast.expands_eq_false]
    exact .cons_cons hreports (.singleton _)

/-- A sound cache that has texts of one tree only is sound for another in which the nodes of
both have the texts that they had. -/
theorem SoundFor.of_sameTexts {cache : Cache} {former tree : Segment NodeId}
    (h : cache.SoundFor former) (hholds : cache.HoldsOnly former)
    (hsame : ∀ node ∈ tree.nodes, ∀ old ∈ former.nodes, old.id? = node.id? →
      old.render = node.render) : cache.SoundFor tree := by
  refine ⟨h.indexed, fun key text htext node hnode hid => ?_⟩
  have hlisted := hholds.listed key (by rw [htext]; exact Option.some_ne_none text)
  rcases List.mem_filterMap.mp hlisted with ⟨old, hold, holdId⟩
  rw [← hsame node hnode old hold (holdId.trans hid.symm)]
  exact h.texts key text htext old hold holdId

/-- After a request with every choice made, a tree whose changes were reported to that request
alone is answered with the text that the root had before, if the root is the same; and with its
own text if no node that was there before has another one.  If the changes are reported once
more, the answer is always its own text. -/
theorem Detour.answers {first middle last : Request} {options : CompileOptions}
    (h : Detour first middle last options) (size : Int) :
    ∃ old new text : Text, first.compiled = .ok old ∧ last.compiled = .ok new ∧
      ((empty size).run [first, middle, last]).1 = [.ok old, middle.compiled, .ok text] ∧
      (first.root.id? = last.root.id? → text = old) ∧
      ((∀ node ∈ last.root.nodes, ∀ former ∈ first.root.nodes, former.id? = node.id? →
        former.render = node.render) → text = new) ∧
      ((empty size).run [first, middle, { last with changed := middle.changed }]).1 =
        [.ok old, middle.compiled, .ok new] := by
  -- The first request leaves a cache with the texts of its tree, that of the root among them.
  rcases incremental_of_sound h.begins (SoundFor.invalidateChanged_empty size first) with
    ⟨old, after, hold, hfirst, hsound⟩
  have hcompiles : compileTree options first.root (empty size) = (.ok old, after) :=
    compileTree_of_incremental h.begins h.beginsWith h.unreported.1 hfirst
  have hholds : after.HoldsOnly first.root := by
    have hkept := (compilation_holdsOnly first.root options).compileTree first.root
      (Segment.mem_nodes_self _) (holdsOnly_empty size first.root)
    rwa [hcompiles] at hkept
  -- The second leaves it alone, and the third finds what is in it.
  rcases h.ends.exists_compiled with ⟨new, hnew⟩
  rcases exists_compileTree options h.ends.renders after with ⟨text, final, htext⟩
  have hlast := incremental_of_regular h.ends h.endsWith after
  rw [invalidateChanged_of_unchanged h.unreported.2, htext] at hlast
  refine ⟨old, new, text, hold, hnew, ?_, ?_, ?_, ?_⟩
  · rw [run_cons _ hfirst, run_cons _ (incremental_of_expands h.expands after), run_cons [] hlast]
    rfl
  · intro hroot
    rcases Segment.exists_id?_of_isPresent (Segment.isPresent_of_mem_nodes h.begins.whole
      (Segment.mem_nodes_self _)) with ⟨id, hid⟩
    have hfound := text?_compileTree (holdsOnly_empty size first.root) hid hcompiles
    rw [compileTree_of_text? (hroot ▸ hid) hfound] at htext
    cases htext
    rfl
  · intro hsame
    have hother := hsound.of_sameTexts hholds hsame
    rw [← invalidateChanged_of_unchanged h.unreported.2 after] at hother
    rcases incremental_of_sound h.ends hother with ⟨found, _, hfound, hanswer, -⟩
    have heq : Except.ok found = Except.ok new := hfound.symm.trans hnew
    rw [hlast] at hanswer
    cases heq
    cases hanswer
    rfl
  · rw [h.run_reported size]
    simp only [← hold, ← hnew]
    rfl

/-- A text in a span is changed, and the change is reported to a request with every choice
made. -/
theorem Detour.answers_edited :
    let tree (content : Text) : Segment NodeId :=
      .branch ⟨.named "r", .text (some []), none⟩
        [.branch ⟨.named "w", .weighted (.valid .increase) (.valid 2), none⟩
          [.leaf ⟨.named "a", .text (some content), none⟩]]
    let first : Request := ⟨⟨.ok {}, 0⟩, tree ['x'], [], some ⟨false, some 3, 50⟩⟩
    let middle : Request := ⟨⟨.ok {}, 0⟩, tree ['y'], [.named "a"], some ⟨true, some 0, 50⟩⟩
    let last : Request := ⟨⟨.ok {}, 0⟩, tree ['y'], [], some ⟨false, some 3, 50⟩⟩
    Detour first middle last ⟨false, some 3, 50⟩ ∧
      ∃ old new text : Text, first.compiled = .ok old ∧ last.compiled = .ok new ∧
        ((empty 2).run [first, middle, last]).1 = [.ok old, middle.compiled, .ok text] ∧
        (first.root.id? = last.root.id? → text = old) ∧
        ((∀ node ∈ last.root.nodes, ∀ former ∈ first.root.nodes, former.id? = node.id? →
          former.render = node.render) → text = new) ∧
        ((empty 2).run [first, middle, { last with changed := middle.changed }]).1 =
          [.ok old, middle.compiled, .ok new] := by
  intro tree first middle last
  have hdetour : Detour first middle last ⟨false, some 3, 50⟩ := by
    have hrenders : ∀ content, ∀ node ∈ (tree content).nodes, node.RendersItself := by
      intro content node hnode head hhead inner
      simp only [tree, Segment.nodes, Segment.nodesList, List.append_nil, List.mem_cons,
        List.not_mem_nil, or_false] at hnode
      rcases hnode with rfl | rfl | rfl
      all_goals
        cases hhead
        exact ⟨_, rfl⟩
    refine ⟨⟨by decide, by decide, by decide, hrenders _, ⟨_, rfl, rfl⟩⟩,
      ⟨by decide, by decide, by decide, hrenders _, ⟨_, rfl, rfl⟩⟩, rfl, rfl, ?_, ⟨rfl, rfl⟩, rfl,
      rfl⟩
    intro node hnode id hid hunchanged
    simp only [middle, tree, Segment.nodes, Segment.nodesList, List.append_nil, List.mem_cons,
      List.not_mem_nil, or_false] at hnode
    rcases hnode with rfl | rfl | rfl
    · exact ⟨_, Segment.mem_nodes_self _, rfl, rfl, rfl⟩
    · refine ⟨.branch ⟨.named "w", .weighted (.valid .increase) (.valid 2), none⟩
        [.leaf ⟨.named "a", .text (some ['x']), none⟩], ?_, rfl, rfl, rfl⟩
      exact Segment.mem_nodes_of_mem_children (Segment.mem_nodes_self _) (List.mem_singleton_self _)
    · cases hid
      exact absurd hunchanged (by decide)
  exact ⟨hdetour, hdetour.answers 2⟩

/-- A text that was changed before a request with every choice made is answered as it was,
though the change was reported to that request. -/
theorem Detour.answers_stale :
    let tree (content : Text) : Segment NodeId := .leaf ⟨.named "r", .text (some content), none⟩
    let first : Request := ⟨⟨.ok {}, 0⟩, tree ['x'], [], some ⟨false, none, 50⟩⟩
    let middle : Request := ⟨⟨.ok {}, 0⟩, tree ['y'], [.named "r"], some ⟨true, some 0, 50⟩⟩
    let last : Request := ⟨⟨.ok {}, 0⟩, tree ['y'], [], some ⟨false, none, 50⟩⟩
    Detour first middle last ⟨false, none, 50⟩ ∧
      ((empty 1000).run [first, middle, last]).1 = [.ok ['x'], .ok ['y'], .ok ['x']] ∧
      last.compiled = .ok ['y'] := by
  intro tree first middle last
  have hrenders : ∀ content, ∀ node ∈ (tree content).nodes, node.RendersItself := by
    intro content node hnode head hhead inner
    rw [Segment.nodes, List.mem_singleton] at hnode
    subst hnode
    cases hhead
    exact ⟨_, rfl⟩
  refine ⟨⟨⟨by decide, by decide, by decide, hrenders _, ⟨_, rfl, rfl⟩⟩,
    ⟨by decide, by decide, by decide, hrenders _, ⟨_, rfl, rfl⟩⟩, rfl, rfl, ?_, ⟨rfl, rfl⟩, rfl,
    rfl⟩, by decide +kernel, rfl⟩
  intro node hnode id hid hunchanged
  simp only [middle, tree, Segment.nodes, List.mem_singleton] at hnode
  subst hnode
  cases hid
  exact absurd hunchanged (by decide)

end Cache

end PromptMarkup
