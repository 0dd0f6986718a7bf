import PromptMarkup.Proofs.CacheRefinement

/-!
# A larger cache

Two caches of different sizes that are used alike do not hold the same: a look-up that only the
larger one can answer makes that text the last used one there, and a text that made room in the
smaller one is still found in the larger.  But the smaller one holds no more than a part of the
larger, in the same order, and the larger one has no more texts beyond that part than it has room
beyond that of the smaller.  So when the larger one is full the smaller one is full too, and both
make room with the text that was used longest ago.

Main statements:

- {lit}`Within.apply`: one operation keeps the smaller cache within the larger.
- {lit}`get_applyAll_of_le`: what is found in the smaller cache is found in the larger.
- {lit}`counters_applyAll_le`: so the larger one has more hits, and fewer misses.
-/

namespace PromptMarkup

/-- What a condition takes from a part of a list it takes from the list. -/
theorem length_filter_add_le {α : Type} {part whole : List α} (h : part.Sublist whole)
    (p : α → Bool) :
    (whole.filter p).length + part.length ≤ (part.filter p).length + whole.length := by
  have hgone : part.countP (fun item => !p item) ≤ whole.countP fun item => !p item := h.countP_le
  have hpart := part.length_eq_countP_add_countP p
  have hwhole := whole.length_eq_countP_add_countP p
  simp only [← List.countP_eq_length_filter, Bool.not_eq_true, Bool.decide_eq_false] at *
  omega

namespace Cache

/-- An operation on texts, which neither records a dependency nor follows one. -/
def Operation.Plain : Operation → Prop
  | .get _ | .set _ _ | .invalidate _ | .clear => True
  | .depend _ _ | .invalidateTree _ => False

instance : DecidablePred Operation.Plain
  | .get _ | .set _ _ | .invalidate _ | .clear => instDecidableTrue
  | .depend _ _ | .invalidateTree _ => instDecidableFalse

/-! ## Entries after an operation -/

/-- A text that replaces another comes last. -/
theorem entries_set_of_ne_none {cache : Cache} {key : CacheKey} (hfound : cache.text? key ≠ none)
    (text : Text) : (cache.set key text).entries = cache.entries.erase key ++ [(key, text)] := by
  rcases set_cases cache key text with ⟨-, hset⟩ | ⟨hnone, -⟩
  · rw [hset]
  · exact absurd hnone hfound

/-- To erase a key without a text erases nothing. -/
theorem entries_erase_of_eq_none {cache : Cache} {key : CacheKey} (hnone : cache.text? key = none) :
    cache.entries.erase key = cache.entries := by
  refine List.filter_eq_self.mpr fun entry hentry => ?_
  have hne : entry.1 ≠ key := by
    rintro rfl
    exact mem_keys_iff.mp (List.mem_map_of_mem hentry) hnone
  simpa using hne

/-- A cache that is in step with a reference stays in step with one: an operation on texts makes
none of its segments depend on an empty identifier. -/
theorem Refines.exists_apply {cache : Cache} {ref : Reference} (h : cache.Refines ref)
    {op : Operation} (hplain : op.Plain) : ∃ after, (cache.apply op).Refines after := by
  by_cases hnamed : op.Named
  · exact ⟨_, h.apply hnamed⟩
  · cases op with
    | invalidate id =>
      -- An empty identifier is not invalidated.
      have hid : id.isEmpty = true := by simpa [Operation.Named] using hnamed
      exact ⟨ref, by simpa [Cache.apply, Cache.invalidate, hid] using h⟩
    | get key | set key text | clear => exact absurd trivial hnamed
    | depend parent child | invalidateTree id => exact hplain.elim

/-- A new text comes last.  If the cache is full the first entry makes room. -/
theorem Refines.entries_set_of_new {cache : Cache} {ref : Reference} (h : cache.Refines ref)
    {key : CacheKey} (hnew : cache.text? key = none) (text : Text) :
    (cache.set key text).entries =
      (if cache.size < cache.capacity then cache.entries else cache.entries.tail) ++
        [(key, text)] := by
  split
  · rename_i hroom
    rw [set_of_new hnew, makeRoom_of_lt hroom]
    rfl
  · rename_i hfull
    have hsize : cache.size = cache.capacity := Nat.le_antisymm h.fits (Nat.le_of_not_lt hfull)
    obtain ⟨oldest, rest, hentries, hset⟩ := h.entries_set_of_full hnew hsize text
    rw [hset, hentries]
    rfl

/-! ## The smaller cache within the larger -/

/-- What a smaller cache holds is a part of what a larger one holds, and the larger one has no
more texts beyond that part than it has room beyond that of the smaller. -/
structure Within (small large : Cache) : Prop where
  part : small.entries.Sublist large.entries
  spare : large.size + small.capacity ≤ small.size + large.capacity
  hits : small.hits ≤ large.hits
  misses : large.misses ≤ small.misses

namespace Within

variable {small large : Cache} {ref other : Reference} (h : small.Within large)
  (hsmall : small.Refines ref) (hlarge : large.Refines other)

include h

/-- The larger cache has room for as many texts as the smaller. -/
theorem capacity_le : small.capacity ≤ large.capacity := by
  have hspare := h.spare
  have hlength : small.size ≤ large.size := h.part.length_le
  omega

/-- The smaller cache stays within the larger where both are cleared. -/
theorem clear : small.clear.Within large.clear :=
  ⟨List.Sublist.refl _, by simpa [Cache.clear, size] using h.capacity_le, Nat.le_refl _,
    Nat.le_refl _⟩

/-- What the smaller cache holds is a part of the larger one without a key that it lacks. -/
theorem part_erase {key : CacheKey} (hnone : small.text? key = none) :
    small.entries.Sublist (large.entries.erase key) := by
  rw [← entries_erase_of_eq_none hnone]
  exact h.part.filter _

include hlarge

/-- What the smaller cache finds the larger finds too. -/
theorem text?_eq_some {key : CacheKey} {text : Text} (hfound : small.text? key = some text) :
    large.text? key = some text :=
  Assoc.get?_of_sublist h.part hlarge.nodup_keys hfound

include hsmall

/-- The smaller cache stays within the larger where a segment is invalidated. -/
theorem invalidate (id : NodeId) : (small.invalidate id).Within (large.invalidate id) := by
  by_cases hid : id.isEmpty
  · simpa [Cache.invalidate, hid] using h
  · rw [Bool.not_eq_true] at hid
    have hspare := length_filter_add_le h.part fun entry => entry.1.id ≠ id
    have hbefore := h.spare
    have hcounted := sameCounters_invalidate small id
    have hcounted' := sameCounters_invalidate large id
    rw [← hsmall.exact.entries_invalidate hid, ← hlarge.exact.entries_invalidate hid] at hspare
    refine ⟨?_, ?_, ?_, ?_⟩
    · rw [hsmall.exact.entries_invalidate hid, hlarge.exact.entries_invalidate hid]
      exact h.part.filter _
    · rw [hcounted.capacity, hcounted'.capacity]
      unfold size at *
      omega
    · rw [hcounted.hits, hcounted'.hits]
      exact h.hits
    · rw [hcounted.misses, hcounted'.misses]
      exact h.misses

/-- The smaller cache stays within the larger where a text is kept. -/
theorem set (key : CacheKey) (text : Text) : (small.set key text).Within (large.set key text) := by
  have hspare := h.spare
  have hfits := hsmall.fits
  have hroomy := hsmall.roomy
  have hcounted := sameCounters_set small key text
  have hcounted' := sameCounters_set large key text
  suffices hentries : (small.set key text).entries.Sublist (large.set key text).entries ∧
      (large.set key text).entries.length + small.capacity ≤
        (small.set key text).entries.length + large.capacity by
    refine ⟨hentries.1, ?_, ?_, ?_⟩
    · rw [hcounted.capacity, hcounted'.capacity]
      exact hentries.2
    · rw [hcounted.hits, hcounted'.hits]
      exact h.hits
    · rw [hcounted.misses, hcounted'.misses]
      exact h.misses
  unfold size at *
  cases hfound : small.text? key with
  | some old =>
    have hlarger := h.text?_eq_some hlarge hfound
    have hfilter := length_filter_add_le h.part fun entry => entry.1 ≠ key
    rw [entries_set_of_ne_none (by simp [hfound]), entries_set_of_ne_none (by simp [hlarger])]
    refine ⟨(h.part.filter _).append_right _, ?_⟩
    simp only [Assoc.erase, List.length_append] at hfilter ⊢
    omega
  | none =>
    rw [hsmall.entries_set_of_new hfound]
    by_cases hlarger : large.text? key = none
    · rw [hlarge.entries_set_of_new hlarger]
      unfold size
      by_cases hroom : small.entries.length < small.capacity
      · -- The larger one is not full where the smaller one is not.
        have hroom' : large.entries.length < large.capacity := by omega
        rw [if_pos hroom, if_pos hroom']
        refine ⟨h.part.append_right _, ?_⟩
        simp only [List.length_append]
        omega
      · rw [if_neg hroom]
        split
        · refine ⟨((List.tail_sublist _).trans h.part).append_right _, ?_⟩
          simp only [List.length_append, List.length_tail, List.length_singleton]
          omega
        · have hlength := h.part.length_le
          refine ⟨h.part.tail.append_right _, ?_⟩
          simp only [List.length_append, List.length_tail]
          omega
    · have hsize := size_set_of_ne_none_le hlarger text
      have hpart := h.part_erase hfound
      unfold size at *
      rw [entries_set_of_ne_none hlarger] at hsize ⊢
      split
      · refine ⟨hpart.append_right _, ?_⟩
        simp only [List.length_append] at hsize ⊢
        omega
      · refine ⟨((List.tail_sublist _).trans hpart).append_right _, ?_⟩
        simp only [List.length_append, List.length_tail, List.length_singleton] at hsize ⊢
        omega

/-- The smaller cache stays within the larger where a key is looked up. -/
theorem get (key : CacheKey) : (small.get key).2.Within (large.get key).2 := by
  cases hfound : small.text? key with
  | some text =>
    have hset := h.set hsmall hlarge key text
    rw [get_of_eq_some hfound, get_of_eq_some (h.text?_eq_some hlarge hfound)]
    exact ⟨hset.part, hset.spare, Nat.succ_le_succ h.hits, hset.misses⟩
  | none =>
    rw [get_of_eq_none hfound]
    cases hlarger : large.text? key with
    | some text =>
      -- The text is the last one in the larger cache from now on, and not one of the smaller.
      have hne : large.text? key ≠ none := by simp [hlarger]
      have hsize := size_set_of_ne_none_le hne text
      have hspare := h.spare
      rw [get_of_eq_some hlarger]
      refine ⟨?_, ?_, Nat.le_succ_of_le h.hits, ?_⟩
      · show small.entries.Sublist (large.set key text).entries
        rw [entries_set_of_ne_none hne]
        exact (h.part_erase hfound).trans (List.sublist_append_left _ _)
      · show (large.set key text).size + small.capacity ≤ small.size + (large.set key text).capacity
        rw [(sameCounters_set large key text).capacity]
        omega
      · show (large.set key text).misses ≤ small.misses + 1
        rw [(sameCounters_set large key text).misses]
        exact Nat.le_succ_of_le h.misses
    | none =>
      rw [get_of_eq_none hlarger]
      exact ⟨h.part, h.spare, h.hits, Nat.succ_le_succ h.misses⟩

/-- The smaller cache stays within the larger where the same operation on texts is applied to
both. -/
theorem apply {op : Operation} (hplain : op.Plain) : (small.apply op).Within (large.apply op) := by
  cases op with
  | get key => exact h.get hsmall hlarge key
  | set key text => exact h.set hsmall hlarge key text
  | invalidate id => exact h.invalidate hsmall hlarge id
  | clear => exact h.clear
  | depend parent child | invalidateTree id => exact hplain.elim

/-- The smaller cache stays within the larger through a run. -/
theorem applyAll {ops : List Operation} (hplain : ∀ op ∈ ops, op.Plain) :
    (small.applyAll ops).Within (large.applyAll ops) ∧
      ∃ after, (large.applyAll ops).Refines after := by
  induction ops generalizing small large ref other with
  | nil => exact ⟨h, other, hlarge⟩
  | cons op rest ih =>
    rw [List.forall_mem_cons] at hplain
    obtain ⟨_, hsmall'⟩ := hsmall.exists_apply hplain.1
    obtain ⟨_, hlarge'⟩ := hlarge.exists_apply hplain.1
    exact ih (h.apply hsmall hlarge hplain.1) hsmall' hlarge' hplain.2

end Within

/-! ## Runs -/

section Runs

variable {small large : Int} (hsize : small ≤ large) {ops : List Operation}
  (hplain : ∀ op ∈ ops, op.Plain)

include hsize hplain

/-- After any run of operations on texts the smaller cache is within the larger. -/
theorem within_applyAll :
    ((empty small).applyAll ops).Within ((empty large).applyAll ops) ∧
      ∃ after, ((empty large).applyAll ops).Refines after := by
  have hempty : (empty small).Within (empty large) :=
    ⟨List.Sublist.refl _, by simp only [empty, size]; omega, Nat.le_refl _, Nat.le_refl _⟩
  exact hempty.applyAll (refines_empty small) (refines_empty large) hplain

/-- After any run of operations on texts the larger cache has at least as many hits, and no more
misses. -/
theorem counters_applyAll_le :
    ((empty small).applyAll ops).hits ≤ ((empty large).applyAll ops).hits ∧
      ((empty large).applyAll ops).misses ≤ ((empty small).applyAll ops).misses := by
  obtain ⟨hwithin, -⟩ := within_applyAll hsize hplain
  exact ⟨hwithin.hits, hwithin.misses⟩

/-- A larger cache never loses a hit: where a run of operations on texts comes to a look-up that
finds a text in the smaller cache, it finds the same text in the larger. -/
theorem get_applyAll_of_le {before : List Operation} {key : CacheKey}
    (hbefore : before ++ [.get key] <+: ops) {text : Text}
    (hhit : (((empty small).applyAll before).get key).1 = some text) :
    (((empty large).applyAll before).get key).1 = some text := by
  have hplain' : ∀ op ∈ before, op.Plain := fun op hop =>
    hplain op (hbefore.subset (List.mem_append_left _ hop))
  obtain ⟨hwithin, _, hlarge⟩ := within_applyAll hsize hplain'
  rw [get_eq] at hhit ⊢
  exact hwithin.text?_eq_some hlarge hhit

end Runs

/-- A text makes room in a cache for two texts and is found in one for three, and a segment is
invalidated before another text is kept and one is looked up. -/
def unevenRun : List Operation :=
  [.set ⟨.named "a", false, 0⟩ ['x'], .set ⟨.named "b", false, 0⟩ ['y'],
    .get ⟨.named "a", false, 0⟩, .set ⟨.named "c", false, 0⟩ ['z'],
    .get ⟨.named "b", false, 0⟩, .invalidate (.named "a"), .set ⟨.named "d", true, 1⟩ ['w'],
    .get ⟨.named "c", false, 0⟩]

/-- Both caches answer the last look-up, after one that only the larger could answer. -/
theorem get_applyAll_of_le_unevenRun :
    (2 : Int) ≤ 3 ∧ (∀ op ∈ unevenRun, op.Plain) ∧
      unevenRun.take 7 ++ [.get ⟨.named "c", false, 0⟩] <+: unevenRun ∧
      (((empty 2).applyAll (unevenRun.take 4)).get ⟨.named "b", false, 0⟩).1 = none ∧
      (((empty 3).applyAll (unevenRun.take 4)).get ⟨.named "b", false, 0⟩).1 = some ['y'] ∧
      (((empty 2).applyAll (unevenRun.take 7)).get ⟨.named "c", false, 0⟩).1 = some ['z'] ∧
      (((empty 3).applyAll (unevenRun.take 7)).get ⟨.named "c", false, 0⟩).1 = some ['z'] := by
  have hsize : (2 : Int) ≤ 3 := by decide
  have hplain : ∀ op ∈ unevenRun, op.Plain := by decide
  have hbefore : unevenRun.take 7 ++ [.get ⟨.named "c", false, 0⟩] <+: unevenRun := ⟨[], rfl⟩
  have hhit : (((empty 2).applyAll (unevenRun.take 7)).get ⟨.named "c", false, 0⟩).1 =
      some ['z'] := by decide
  exact ⟨hsize, hplain, hbefore, by decide, by decide, hhit,
    get_applyAll_of_le hsize hplain hbefore hhit⟩

/-- The invalidation of trees is left out for a reason: where a text makes room its segment's
dependencies go with it, and the smaller cache keeps what they would have led to. -/
example :
    let ops : List Operation :=
      [.set ⟨.named "a", false, 0⟩ ['x'], .depend (.named "a") (.named "b"),
        .set ⟨.named "b", false, 0⟩ ['y'], .invalidateTree (.named "a")]
    (((empty 1).applyAll ops).get ⟨.named "b", false, 0⟩).1 = some ['y'] ∧
      (((empty 2).applyAll ops).get ⟨.named "b", false, 0⟩).1 = none := by
  decide +kernel

end Cache

end PromptMarkup
