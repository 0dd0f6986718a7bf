import Mathlib.Data.List.Dedup
import Mathlib.Data.List.Induction
import Mathlib.Logic.Function.Basic
import Mathlib.Logic.Relation
import PromptMarkup.Cache.Basic

/-!
# A map that forgets what was used longest ago

What the cache is for can be said without its lists and counters.  The reference keeps a text
for each key, a log of all uses of keys, and a relation of dependencies; which key makes room
for a new one is read off the log.

Main statements:

- {lit}`held_keep`: the keys with a text stand in the order of their last uses.
- {lit}`texts_applyAll_iff`: after a run of operations a key has a text if the text was kept for
  it and no later operation took it.
-/

namespace PromptMarkup

namespace Cache

/-- What can be asked of a cache. -/
inductive Operation where
  | get (key : CacheKey)
  | set (key : CacheKey) (text : Text)
  | depend (parent child : NodeId)
  | invalidate (id : NodeId)
  | invalidateTree (id : NodeId)
  | clear

/-- A map that forgets what was used longest ago. -/
structure Reference where
  /-- The greatest number of texts. -/
  capacity : Nat
  /-- The text that was kept last for each key, unless it was forgotten since. -/
  texts : CacheKey → Option Text
  /-- All uses of keys, the first one first. -/
  uses : List CacheKey
  /-- The dependencies that were recorded and not forgotten. -/
  depends : NodeId → NodeId → Prop

namespace Reference

/-- The reference before any operation; it holds one text at least. -/
def empty (size : Int) : Reference :=
  ⟨max 1 size.toNat, fun _ => none, [], fun _ _ => False⟩

/-- The keys that have a text, in the order of their last uses. -/
def held (ref : Reference) : List CacheKey :=
  ref.uses.dedup.filter fun key => (ref.texts key).isSome

/-- Keep a text for a key, and note the use of the key. -/
def keep (ref : Reference) (key : CacheKey) (text : Text) : Reference :=
  { ref with
    texts := Function.update ref.texts key (some text)
    uses := ref.uses ++ [key] }

/-- Forget the text whose key was used longest ago.  If it was the last one of its segment, the
dependencies of the segment go with it. -/
def evict (ref : Reference) : Reference :=
  match ref.held with
  | [] => ref
  | oldest :: _ =>
    { ref with
      texts := Function.update ref.texts oldest none
      depends := fun parent child => ref.depends parent child ∧
        (parent = oldest.id → ∃ key ∈ ref.held, key ≠ oldest ∧ key.id = oldest.id) }

open Classical in
/-- Forget all texts and dependencies of some segments. -/
noncomputable def forget (ref : Reference) (gone : NodeId → Prop) : Reference :=
  { ref with
    texts := fun key => if gone key.id then none else ref.texts key
    depends := fun parent child => ref.depends parent child ∧ ¬gone parent }

/-- The reference after an operation.  A key is used when a text is kept for it, and when it is
looked up and has one. -/
noncomputable def apply (ref : Reference) : Operation → Reference
  | .get key => if (ref.texts key).isSome then { ref with uses := ref.uses ++ [key] } else ref
  | .set key text =>
    if (ref.texts key).isNone ∧ ref.capacity ≤ ref.held.length then ref.evict.keep key text
    else ref.keep key text
  | .depend parent child =>
    { ref with depends := fun above below =>
        ref.depends above below ∨ (above = parent ∧ below = child) }
  | .invalidate id => ref.forget (· = id)
  | .invalidateTree id => ref.forget (Relation.ReflTransGen ref.depends id)
  | .clear => ⟨ref.capacity, fun _ => none, [], fun _ _ => False⟩

/-- The reference after a run of operations. -/
noncomputable def applyAll (ref : Reference) (ops : List Operation) : Reference :=
  ops.foldl apply ref

/-! ## The order of uses -/

/-- A key that was used once more was used last. -/
theorem dedup_append_singleton (uses : List CacheKey) (key : CacheKey) :
    (uses ++ [key]).dedup = uses.dedup.filter (· ≠ key) ++ [key] := by
  induction uses with
  | nil => rfl
  | cons first rest ih =>
    by_cases hrest : first ∈ rest
    · rw [List.cons_append, List.dedup_cons_of_mem (List.mem_append_left _ hrest),
        List.dedup_cons_of_mem hrest, ih]
    · rw [List.cons_append, List.dedup_cons_of_notMem hrest]
      by_cases hkey : first = key
      · rw [List.dedup_cons_of_mem (by simp [hkey]), ih, List.filter_cons_of_neg (by simp [hkey])]
      · rw [List.dedup_cons_of_notMem (by simp [hrest, hkey]), ih,
          List.filter_cons_of_pos (by simp [hkey])]
        rfl

/-- No key is held twice. -/
theorem nodup_held (ref : Reference) : ref.held.Nodup :=
  ref.uses.nodup_dedup.filter _

/-- The key of a text that was kept was used last. -/
theorem held_keep (ref : Reference) (key : CacheKey) (text : Text) :
    (ref.keep key text).held = ref.held.filter (· ≠ key) ++ [key] := by
  have hold : (ref.uses.dedup.filter (· ≠ key)).filter
        (fun other => ((ref.keep key text).texts other).isSome) = ref.held.filter (· ≠ key) := by
    rw [held, List.filter_filter, List.filter_filter]
    refine List.filter_congr fun other _ => ?_
    by_cases heq : other = key <;> simp [keep, heq]
  rw [held, keep, dedup_append_singleton, List.filter_append, ← hold]
  simp [keep]

/-- The keys that are held after some texts were forgotten. -/
theorem held_of_forgets (ref : Reference) {after : Reference} (huses : after.uses = ref.uses)
    (kept : CacheKey → Prop) [DecidablePred kept]
    (htexts : ∀ key, after.texts key = if kept key then ref.texts key else none) :
    after.held = ref.held.filter (kept ·) := by
  rw [held, huses, held, List.filter_filter]
  refine List.filter_congr fun key _ => ?_
  by_cases hkey : kept key <;> simp [htexts, hkey]

/-! ## The text of a key -/

/-- A text that was kept is found under its key, and all others as before. -/
theorem texts_keep (ref : Reference) (key other : CacheKey) (text : Text) :
    (ref.keep key text).texts other = if key = other then some text else ref.texts other := by
  rw [keep]
  simp only [Function.update_apply, eq_comm]

/-- A segment that was forgotten has no text. -/
theorem texts_forget_of_gone {ref : Reference} {gone : NodeId → Prop} {key : CacheKey}
    (h : gone key.id) : (ref.forget gone).texts key = none :=
  if_pos h

/-- A segment that was not forgotten has the texts that it had. -/
theorem texts_forget_of_not_gone {ref : Reference} {gone : NodeId → Prop} {key : CacheKey}
    (h : ¬gone key.id) : (ref.forget gone).texts key = ref.texts key :=
  if_neg h

/-- The reference without the text whose key was used longest ago. -/
theorem evict_of_held {ref : Reference} {oldest : CacheKey} {rest : List CacheKey}
    (hheld : ref.held = oldest :: rest) :
    ref.evict =
      { ref with
        texts := Function.update ref.texts oldest none
        depends := fun parent child => ref.depends parent child ∧
          (parent = oldest.id → ∃ key ∈ ref.held, key ≠ oldest ∧ key.id = oldest.id) } := by
  unfold evict
  split
  · rename_i hnil
    rw [hheld] at hnil
    cases hnil
  · rename_i first _ hfirst
    rw [hheld] at hfirst
    cases hfirst
    rfl

/-- The key that was used longest ago has no text where it made room. -/
theorem texts_evict (ref : Reference) (key : CacheKey) :
    ref.evict.texts key = if ref.held.head? = some key then none else ref.texts key := by
  cases hheld : ref.held with
  | nil =>
    rw [evict, hheld]
    rfl
  | cons oldest rest =>
    rw [evict_of_held hheld]
    simp only [Function.update_apply, List.head?_cons, Option.some_inj, eq_comm]

/-! ## The text that was kept last -/

/-- Whether an operation takes its text from a key, or keeps another one for it. -/
def Overrides (ref : Reference) (key : CacheKey) : Operation → Prop
  | .set other _ => other = key ∨
      ((ref.texts other).isNone ∧ ref.capacity ≤ ref.held.length ∧ ref.held.head? = some key)
  | .invalidate id => key.id = id
  | .invalidateTree id => Relation.ReflTransGen ref.depends id key.id
  | .clear => True
  | .get _ | .depend _ _ => False

/-- A key has the text that was kept for it last. -/
theorem texts_apply_set (ref : Reference) (key : CacheKey) (text : Text) :
    (ref.apply (.set key text)).texts key = some text := by
  rw [apply]
  split <;> rw [texts_keep, if_pos rfl]

/-- A key that has a text where the old one was taken has the new one. -/
theorem eq_set_of_overrides {ref : Reference} {key : CacheKey} {op : Operation}
    (h : ref.Overrides key op) {text : Text} (htext : (ref.apply op).texts key = some text) :
    op = .set key text := by
  cases op with
  | set other kept =>
    rcases eq_or_ne other key with rfl | hne
    · rw [texts_apply_set] at htext
      cases htext
      rfl
    · obtain ⟨hnone, hfull, holdest⟩ := h.resolve_left hne
      have hgone : (ref.apply (.set other kept)).texts key = none := by
        rw [apply, if_pos ⟨hnone, hfull⟩, texts_keep, if_neg hne, texts_evict, if_pos holdest]
      rw [hgone] at htext
      cases htext
  | invalidate id | invalidateTree id =>
    rw [apply, texts_forget_of_gone h] at htext
    cases htext
  | clear => cases htext
  | get other | depend parent child => exact h.elim

/-- A key has the text that it had where nothing takes it. -/
theorem texts_apply_of_not_overrides {ref : Reference} {key : CacheKey} {op : Operation}
    (h : ¬ref.Overrides key op) : (ref.apply op).texts key = ref.texts key := by
  cases op with
  | set other kept =>
    obtain ⟨hne, hstays⟩ := not_or.mp h
    rw [apply]
    split
    · rename_i hfull
      rw [texts_keep, if_neg hne, texts_evict,
        if_neg fun holdest => hstays ⟨hfull.1, hfull.2, holdest⟩]
    · rw [texts_keep, if_neg hne]
  | invalidate id | invalidateTree id => rw [apply, texts_forget_of_not_gone h]
  | clear => exact absurd trivial h
  | get other =>
    rw [apply]
    split <;> rfl
  | depend parent child => rfl

/-- The last operation of a run comes after the others. -/
theorem applyAll_append_singleton (ref : Reference) (ops : List Operation) (op : Operation) :
    ref.applyAll (ops ++ [op]) = (ref.applyAll ops).apply op :=
  List.foldl_append

/-- A key has a text after a run if the text was kept for it and nothing took it since. -/
theorem texts_applyAll_iff (size : Int) (ops : List Operation) (key : CacheKey) (text : Text) :
    ((empty size).applyAll ops).texts key = some text ↔
      ∃ before after, ops = before ++ .set key text :: after ∧
        ∀ middle op, middle ++ [op] <+: after →
          ¬((empty size).applyAll (before ++ .set key text :: middle)).Overrides key op := by
  induction ops using List.reverseRecOn with
  | nil => exact iff_of_false nofun fun ⟨before, after, heq, _⟩ => by simp at heq
  | append_singleton ops last ih =>
    rw [applyAll_append_singleton]
    constructor
    · intro htext
      by_cases hover : ((empty size).applyAll ops).Overrides key last
      · refine ⟨ops, [], by rw [eq_set_of_overrides hover htext], fun middle op hfirst => ?_⟩
        simp at hfirst
      · rw [texts_apply_of_not_overrides hover] at htext
        obtain ⟨before, after, rfl, hkept⟩ := ih.mp htext
        refine ⟨before, after ++ [last], by simp, fun middle op hfirst => ?_⟩
        rcases List.prefix_concat_iff.mp hfirst with heq | hfirst
        · obtain ⟨rfl, hlast⟩ := List.append_inj' heq rfl
          cases hlast
          exact hover
        · exact hkept middle op hfirst
    · rintro ⟨before, after, heq, hkept⟩
      rcases List.eq_nil_or_concat' after with rfl | ⟨rest, final, rfl⟩
      · obtain ⟨rfl, hlast⟩ := List.append_inj' heq rfl
        cases hlast
        exact texts_apply_set _ key text
      · have hsplit : ops ++ [last] = (before ++ .set key text :: rest) ++ [final] := by simp [heq]
        obtain ⟨rfl, hlast⟩ := List.append_inj' hsplit rfl
        cases hlast
        rw [texts_apply_of_not_overrides (hkept rest last (List.prefix_refl _))]
        exact ih.mpr ⟨before, rest, rfl, fun middle op hfirst =>
          hkept middle op (hfirst.trans (List.prefix_append rest [last]))⟩

end Reference

end Cache

end PromptMarkup
