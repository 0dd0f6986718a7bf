/-!
# Association lists

A map as a list of pairs, in the order in which the keys were first set.

Main statements:

- {lit}`get?_set` and {lit}`get?_erase`: setting or removing a key changes what that
  key has and leaves every other key alone.
-/

namespace PromptMarkup

/-- A map as a list of pairs. -/
abbrev Assoc (α β : Type) := List (α × β)

namespace Assoc

variable {α β : Type} [DecidableEq α]

/-- The value of a key. -/
def get? (key : α) : Assoc α β → Option β
  | [] => none
  | (k, v) :: rest => if k = key then some v else get? key rest

/-- Set the value of a key: in its place if the key is there, else at the end. -/
def set (key : α) (value : β) : Assoc α β → Assoc α β
  | [] => [(key, value)]
  | (k, v) :: rest => if k = key then (k, value) :: rest else (k, v) :: set key value rest

/-- Remove a key. -/
def erase (key : α) (map : Assoc α β) : Assoc α β :=
  map.filter fun entry => entry.1 ≠ key

/-- A key that was set has its value, and any other key keeps what it had. -/
theorem get?_set (key other : α) (value : β) (map : Assoc α β) :
    (map.set key value).get? other = if key = other then some value else map.get? other := by
  induction map with
  | nil => rfl
  | cons entry rest ih =>
    obtain ⟨k, v⟩ := entry
    by_cases hk : k = key
    · subst hk
      by_cases hother : k = other <;> simp [set, get?, hother]
    · by_cases hother : k = other
      · subst hother
        simp [set, get?, hk, Ne.symm hk]
      · simp [set, get?, hk, hother, ih]

/-- Removing a key looks at the entries one by one. -/
theorem erase_cons (key k : α) (v : β) (rest : Assoc α β) :
    erase key ((k, v) :: rest) =
      if k = key then erase key rest else (k, v) :: erase key rest := by
  by_cases hk : k = key <;> simp [erase, hk]

/-- A key that was removed has no value, and any other key keeps what it had. -/
theorem get?_erase (key other : α) (map : Assoc α β) :
    (map.erase key).get? other = if key = other then none else map.get? other := by
  induction map with
  | nil => simp [erase, get?]
  | cons entry rest ih =>
    obtain ⟨k, v⟩ := entry
    rw [erase_cons]
    by_cases hk : k = key
    · subst hk
      rw [if_pos rfl, ih]
      by_cases hother : k = other <;> simp [get?, hother]
    · by_cases hother : k = other
      · subst hother
        simp [get?, hk, Ne.symm hk]
      · simp [get?, hk, hother, ih]

/-- Removing a key leaves a sublist. -/
theorem erase_sublist (key : α) (map : Assoc α β) : (erase key map).Sublist map :=
  List.filter_sublist

/-- The keys in the order in which they were first set. -/
def keys (map : Assoc α β) : List α :=
  map.map (·.1)

end Assoc

end PromptMarkup
