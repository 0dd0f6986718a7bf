import PromptMarkup.Assoc

/-!
# Keys of a map

A map is a list of entries, and a key that is set again stays in its place.  So the keys of a map
are known after each of its operations, and two keys can be set in either order if one of them is
there already.

Main statements:

- {lit}`mem_keys_iff`: the keys are what can be looked up.
- {lit}`keys_set`: where a key that is set comes to stand.
- {lit}`set_comm`: when the order in which two keys are set does not count.
- {lit}`get?_foldl_set`: of many items that are set the last of a key counts.
-/

namespace PromptMarkup

namespace Assoc

variable {α β : Type}

/-! ## Keys -/

/-- The keys of a map with a first entry. -/
@[simp] theorem keys_cons (entry : α × β) (rest : Assoc α β) :
    keys (entry :: rest) = entry.1 :: keys rest :=
  rfl

/-- The key of an entry is one of the keys. -/
theorem mem_keys_of_mem {entry : α × β} {map : Assoc α β} (h : entry ∈ map) :
    entry.1 ∈ map.keys :=
  List.mem_map_of_mem h

/-- Of the entries with some keys those keys are left. -/
theorem keys_filter (kept : α → Bool) (map : Assoc α β) :
    keys (map.filter fun entry => kept entry.1) = map.keys.filter kept := by
  rw [keys, keys, List.filter_map]
  rfl

variable [DecidableEq α]

/-- The keys are what can be looked up. -/
theorem mem_keys_iff {key : α} {map : Assoc α β} : key ∈ map.keys ↔ map.get? key ≠ none := by
  induction map with
  | nil => simp [get?, keys]
  | cons entry rest ih =>
    by_cases hkey : entry.1 = key
    · simp [get?, hkey]
    · simp [get?, hkey, Ne.symm hkey, ← ih]

/-- Removing a key removes it from the keys. -/
theorem keys_erase (key : α) (map : Assoc α β) :
    (map.erase key).keys = map.keys.filter (· ≠ key) :=
  keys_filter (fun other => other ≠ key) map

/-- Setting a key leaves it in its place among the keys, or adds it as the last one. -/
theorem keys_set (key : α) (value : β) (map : Assoc α β) :
    (map.set key value).keys = if key ∈ map.keys then map.keys else map.keys ++ [key] := by
  induction map with
  | nil => rfl
  | cons entry rest ih =>
    rcases entry with ⟨other, old⟩
    by_cases h : other = key
    · simp [set, h]
    · by_cases hrest : key ∈ keys rest <;> simp [set, h, Ne.symm h, ih, hrest]

/-- A key of a map in which a key was set is that one or was there before. -/
theorem mem_keys_set {key other : α} {value : β} {map : Assoc α β}
    (h : other ∈ (map.set key value).keys) : other = key ∨ other ∈ map.keys := by
  rw [keys_set] at h
  split at h
  · exact Or.inr h
  · exact (List.mem_append.mp h).symm.imp_left List.mem_singleton.mp

/-- A key that was set is there. -/
theorem mem_keys_set_self (key : α) (value : β) (map : Assoc α β) :
    key ∈ (map.set key value).keys := by
  rw [mem_keys_iff, get?_set, if_pos rfl]
  nofun

/-- Setting a key keeps the keys distinct. -/
theorem nodup_keys_set {map : Assoc α β} (h : map.keys.Nodup) (key : α) (value : β) :
    (map.set key value).keys.Nodup := by
  rw [keys_set]
  split
  · exact h
  · rename_i hnew
    refine List.nodup_append.mpr ⟨h, by simp, ?_⟩
    rintro other hother last hlast rfl
    exact hnew (List.mem_singleton.mp hlast ▸ hother)

/-! ## Values -/

/-- Looking a key up in two maps, one after the other. -/
theorem get?_append (key : α) (first second : Assoc α β) :
    get? key (first ++ second) = (first.get? key).or (second.get? key) := by
  induction first with
  | nil => rfl
  | cons entry rest ih =>
    rcases entry with ⟨other, value⟩
    by_cases h : other = key
    · simp [get?, h]
    · simpa [get?, h] using ih

/-- A value that is looked up stands in an entry. -/
theorem mem_of_get?_eq_some {key : α} {value : β} {map : Assoc α β}
    (h : map.get? key = some value) : (key, value) ∈ map := by
  induction map with
  | nil => cases h
  | cons entry rest ih =>
    rcases entry with ⟨other, old⟩
    rw [get?] at h
    split at h
    · rename_i heq
      cases heq
      cases h
      exact List.mem_cons_self
    · exact List.mem_cons_of_mem _ (ih h)

/-- Where keys are distinct, the value of an entry is looked up. -/
theorem get?_of_mem {entry : α × β} {map : Assoc α β} (hkeys : map.keys.Nodup)
    (h : entry ∈ map) : map.get? entry.1 = some entry.2 := by
  induction map with
  | nil => cases h
  | cons first rest ih =>
    rw [keys_cons, List.nodup_cons] at hkeys
    rcases List.mem_cons.mp h with rfl | hmem
    · exact if_pos rfl
    · have hne : first.1 ≠ entry.1 := fun heq => hkeys.1 (heq ▸ mem_keys_of_mem hmem)
      rw [get?, if_neg hne]
      exact ih hkeys.2 hmem

/-- What is found in a part of a map with distinct keys is found in the map. -/
theorem get?_of_sublist {part whole : Assoc α β} (h : part.Sublist whole)
    (hnodup : whole.keys.Nodup) {key : α} {value : β} (hpart : part.get? key = some value) :
    whole.get? key = some value := by
  induction h with
  | slnil => exact hpart
  | cons entry _ ih =>
    rw [keys_cons, List.nodup_cons] at hnodup
    have hrest := ih hnodup.2 hpart
    have hkey : entry.1 ≠ key := by
      rintro rfl
      exact hnodup.1 (mem_keys_iff.mpr (by simp [hrest]))
    simp [get?, hkey, hrest]
  | cons_cons entry _ ih =>
    rw [keys_cons, List.nodup_cons] at hnodup
    by_cases hkey : entry.1 = key
    · simpa [get?, hkey] using hpart
    · simp only [get?, hkey, if_false] at hpart ⊢
      exact ih hnodup.2 hpart

/-! ## Setting keys -/

/-- A key that is set to the value that it has stays as it is. -/
theorem set_eq_self {key : α} {value : β} {map : Assoc α β} (h : map.get? key = some value) :
    map.set key value = map := by
  induction map with
  | nil => cases h
  | cons entry rest ih =>
    rcases entry with ⟨other, old⟩
    by_cases hother : other = key
    · simp only [get?, if_pos hother, Option.some.injEq] at h
      rw [set, if_pos hother, h]
    · rw [get?, if_neg hother] at h
      rw [set, if_neg hother, ih h]

/-- A new key is added at the end. -/
theorem set_eq_append {key : α} {map : Assoc α β} (h : key ∉ map.keys) (value : β) :
    map.set key value = map ++ [(key, value)] := by
  induction map with
  | nil => rfl
  | cons entry rest ih =>
    rcases entry with ⟨other, old⟩
    rw [keys_cons, List.mem_cons, not_or] at h
    rw [set, if_neg (Ne.symm h.1), ih h.2, List.cons_append]

/-- Of two values that a key is set to the later counts. -/
theorem set_set (key : α) (first second : β) (map : Assoc α β) :
    (map.set key first).set key second = map.set key second := by
  induction map with
  | nil => simp [set]
  | cons entry rest ih =>
    rcases entry with ⟨other, old⟩
    by_cases hother : other = key
    · simp [set, hother]
    · simp [set, hother, ih]

/-- Two keys can be set in either order if one of them is there before. -/
theorem set_comm {key other : α} (hne : key ≠ other) (value otherValue : β) {map : Assoc α β}
    (hkey : key ∈ map.keys) :
    (map.set other otherValue).set key value = (map.set key value).set other otherValue := by
  induction map with
  | nil => cases hkey
  | cons entry rest ih =>
    rcases entry with ⟨first, old⟩
    rw [keys_cons, List.mem_cons] at hkey
    by_cases hfirst : first = key
    · subst hfirst
      simp [set, hne]
    · have hrest : key ∈ keys rest := hkey.resolve_left (Ne.symm hfirst)
      by_cases hfirstOther : first = other
      · subst hfirstOther
        simp [set, hfirst]
      · simp [set, hfirst, hfirstOther, ih hrest]

/-! ## Setting keys one after the other -/

/-- Of the items that are set for one key the last counts. -/
theorem get?_foldl_set {γ : Type} (key : γ → α) (value : γ → β) (items : List γ)
    (map : Assoc α β) (wanted : α) :
    (items.foldl (fun map item => map.set (key item) (value item)) map).get? wanted =
      ((items.reverse.find? fun item => key item = wanted).map value).or (map.get? wanted) := by
  induction items generalizing map with
  | nil => rfl
  | cons item items ih =>
    rw [List.foldl_cons, ih, List.reverse_cons, List.find?_append, get?_set]
    cases items.reverse.find? fun item => key item = wanted with
    | some last => rfl
    | none => by_cases hkey : key item = wanted <;> simp [hkey]

/-- Setting keys one after the other keeps the keys distinct. -/
theorem nodup_keys_foldl_set {γ : Type} (key : γ → α) (value : γ → β) (items : List γ)
    {map : Assoc α β} (h : map.keys.Nodup) :
    (items.foldl (fun map item => map.set (key item) (value item)) map).keys.Nodup := by
  induction items generalizing map with
  | nil => exact h
  | cons item items ih => exact ih (nodup_keys_set h _ _)

end Assoc

end PromptMarkup
