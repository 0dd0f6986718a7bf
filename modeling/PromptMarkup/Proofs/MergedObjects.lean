import PromptMarkup.Proofs.MapKeys
import PromptMarkup.Segment.Patch

/-!
# Merged objects

A merge gives an object the fields of another one, and goes on inside a field where both hold an
object.  What it writes depends on nothing that it has written before, so a second merge of the
same object has nothing left to do.  Two merges are one merge of the two objects merged, unless the
second has an object where the first writes something else: the first one then clears the field for
it, which no single object can say.

Objects are taken for maps here: no object holds two fields with one key.

Main statements:

- {lit}`get?_merge_of_not_mem` and {lit}`get?_merge_of_mem`: what the keys of a merged object have.
- {lit}`at?_merge_of_at?` and {lit}`at?_merge_of_not_mentions`: what a merge writes, and what it
  leaves alone.
- {lit}`merge_merge`: merges one after the other.
-/

namespace PromptMarkup

/-! ## Paths of keys -/

/-- Whether a value is an object. -/
def Value.isObject : Value → Bool
  | .object _ => true
  | _ => false

/-- The value to which a path of keys leads. -/
def Value.at? : Value → List String → Option Value
  | value, [] => some value
  | .object fields, key :: path =>
    match Assoc.get? key fields with
    | none => none
    | some inner => inner.at? path
  | _, _ :: _ => none

/-- A value that is an object has fields. -/
theorem Value.exists_of_isObject {value : Value} (h : value.isObject = true) :
    ∃ fields : Object, value = .object fields := by
  cases value with
  | object fields => exact ⟨fields, rfl⟩
  | _ => cases h

/-- A path from an object goes on from the value of its first key. -/
theorem Value.at?_object_cons (fields : Object) (key : String) (path : List String) :
    (Value.object fields).at? (key :: path) = (fields.get? key).bind (·.at? path) := by
  rw [at?]
  cases fields.get? key <;> rfl

/-- From a value that is no object no path goes on. -/
theorem Value.at?_cons_of_not_isObject {value : Value} (h : value.isObject = false) (key : String)
    (path : List String) : value.at? (key :: path) = none := by
  cases value with
  | object fields => cases h
  | _ => rfl

/-- The keys of an object are distinct, and so are those of each object among its values. -/
inductive Value.HasDistinctKeys : Value → Prop where
  | object (fields : Object) : fields.keys.Nodup →
      (∀ entry ∈ fields, HasDistinctKeys entry.2) → HasDistinctKeys (.object fields)
  | other (value : Value) : value.isObject = false → HasDistinctKeys value

/-! ## One field -/

/-- The fields that a merge of an object into a field starts from. -/
def fieldsOf : Option Value → Object
  | some (.object fields) => fields
  | _ => []

/-- Where there is nothing a merge starts from no fields. -/
@[simp] theorem fieldsOf_none : fieldsOf none = [] :=
  rfl

/-- Where there is an object a merge starts from its fields. -/
@[simp] theorem fieldsOf_object (fields : Object) : fieldsOf (some (.object fields)) = fields :=
  rfl

/-- A path goes on from the fields of a value as it does from the value. -/
theorem at?_fieldsOf {path : List String} (h : path ≠ []) (old : Option Value) :
    (Value.object (fieldsOf old)).at? path = old.bind (·.at? path) := by
  cases path with
  | nil => exact absurd rfl h
  | cons key path =>
    cases old with
    | none => rfl
    | some value => cases value <;> rfl

/-- An object is merged into the fields that there are. -/
theorem mergedOver_object (old : Option Value) (fields : Object) :
    Value.mergedOver old (.object fields) = .object (Object.merge (fieldsOf old) fields) := by
  rw [Value.mergedOver.eq_def]
  simp only
  split
  · rfl
  · rename_i hother
    rw [fieldsOf]
    exact fun current heq => hother current heq

/-- A value that is no object is written as it is. -/
theorem mergedOver_of_not_isObject {value : Value} (h : value.isObject = false)
    (old : Option Value) : Value.mergedOver old value = value := by
  cases value with
  | object fields => cases h
  | _ => simp only [Value.mergedOver]

/-! ## Fields one after the other -/

/-- A key that no field of a merge has keeps its value. -/
theorem get?_merge_of_not_mem {key : String} {fields : Object} (h : key ∉ fields.keys)
    (target : Object) : (Object.merge target fields).get? key = target.get? key := by
  induction fields generalizing target with
  | nil => rw [Object.merge]
  | cons entry rest ih =>
    rw [Assoc.keys_cons, List.mem_cons, not_or] at h
    rw [Object.merge, ih h.2, Assoc.get?_set, if_neg (Ne.symm h.1)]

/-- A key of a merged object has what its field makes of the value that it had. -/
theorem get?_merge_of_mem {entry : String × Value} {fields : Object} (hkeys : fields.keys.Nodup)
    (h : entry ∈ fields) (target : Object) :
    (Object.merge target fields).get? entry.1 =
      some (Value.mergedOver (target.get? entry.1) entry.2) := by
  induction fields generalizing target with
  | nil => cases h
  | cons first rest ih =>
    rw [Assoc.keys_cons, List.nodup_cons] at hkeys
    rw [Object.merge]
    rcases List.mem_cons.mp h with rfl | hmem
    · rw [get?_merge_of_not_mem hkeys.1, Assoc.get?_set, if_pos rfl]
    · have hne : first.1 ≠ entry.1 := fun heq => hkeys.1 (heq ▸ Assoc.mem_keys_of_mem hmem)
      rw [ih hkeys.2 hmem, Assoc.get?_set, if_neg hne]

/-- A merge in which every field makes of a value what it was changes nothing. -/
theorem merge_eq_self {target fields : Object}
    (h : ∀ entry ∈ fields, ∃ value, target.get? entry.1 = some value ∧
      Value.mergedOver (some value) entry.2 = value) : Object.merge target fields = target := by
  induction fields with
  | nil => rw [Object.merge]
  | cons entry rest ih =>
    rcases List.forall_mem_cons.mp h with ⟨⟨value, hvalue, hsame⟩, hrest⟩
    rw [Object.merge, hvalue, hsame, Assoc.set_eq_self hvalue]
    exact ih hrest

/-- Fields with new keys are added as they are if each is written as it is. -/
theorem merge_eq_append {target fields : Object} (hkeys : (Assoc.keys (target ++ fields)).Nodup)
    (h : ∀ entry ∈ fields, Value.mergedOver none entry.2 = entry.2) :
    Object.merge target fields = target ++ fields := by
  induction fields generalizing target with
  | nil => rw [Object.merge, List.append_nil]
  | cons entry rest ih =>
    rcases List.forall_mem_cons.mp h with ⟨hentry, hrest⟩
    have hnew : entry.1 ∉ target.keys := by
      rw [Assoc.keys, List.map_append, List.nodup_append] at hkeys
      exact fun hmem => hkeys.2.2 entry.1 hmem entry.1 List.mem_cons_self rfl
    have hnone : target.get? entry.1 = none := by
      rwa [Assoc.mem_keys_iff, Decidable.not_not] at hnew
    have happend : target ++ [entry] ++ rest = target ++ entry :: rest := by
      rw [List.append_assoc, List.singleton_append]
    rw [Object.merge, hnone, hentry, Assoc.set_eq_append hnew, ih (happend ▸ hkeys) hrest, happend]

/-- An object is what it makes of a field in which nothing was. -/
theorem Value.HasDistinctKeys.mergedOver_none {value : Value} (h : value.HasDistinctKeys) :
    Value.mergedOver none value = value := by
  induction h with
  | object fields hkeys _ ih =>
    have hadded : Object.merge [] fields = fields := merge_eq_append hkeys ih
    rw [mergedOver_object, fieldsOf_none, hadded]
  | other value hother => exact mergedOver_of_not_isObject hother none

/-! ## The same object twice -/

/-- A value that is written a second time finds what it has written. -/
theorem Value.HasDistinctKeys.mergedOver_mergedOver {value : Value} (h : value.HasDistinctKeys)
    (old : Option Value) :
    Value.mergedOver (some (Value.mergedOver old value)) value = Value.mergedOver old value := by
  induction h generalizing old with
  | object fields hkeys _ ih =>
    rw [mergedOver_object, mergedOver_object, fieldsOf_object]
    congr 1
    apply merge_eq_self
    intro entry hentry
    exact ⟨_, get?_merge_of_mem hkeys hentry _, ih entry hentry _⟩
  | other value hother =>
    rw [mergedOver_of_not_isObject hother, mergedOver_of_not_isObject hother]

/-- An object that is merged a second time finds what it has written. -/
theorem merge_merge_self {fields : Object} (h : (Value.object fields).HasDistinctKeys)
    (target : Object) :
    Object.merge (Object.merge target fields) fields = Object.merge target fields := by
  have htwice := h.mergedOver_mergedOver (some (.object target))
  rw [mergedOver_object, mergedOver_object] at htwice
  exact Value.object.inj htwice

/-! ## Two objects -/

/-- A value is open to another one if no path of keys leads to an object in the other where it leads
to something else in the value. -/
def Value.OpenTo (first second : Value) : Prop :=
  ∀ path old new, first.at? path = some old → second.at? path = some new →
    new.isObject = true → old.isObject = true

/-- Every value is open to one that is no object. -/
theorem Value.openTo_of_not_isObject {second : Value} (h : second.isObject = false)
    (first : Value) : first.OpenTo second := by
  intro path old new _ hnew hobject
  cases path with
  | nil =>
    cases hnew
    exact absurd hobject (Bool.eq_false_iff.mp h)
  | cons key path =>
    rw [at?_cons_of_not_isObject h] at hnew
    cases hnew

/-- An object is open to another one if its values are, key by key. -/
theorem Value.openTo_object_iff {first second : Object} :
    (Value.object first).OpenTo (.object second) ↔
      ∀ key current value, first.get? key = some current → second.get? key = some value →
        current.OpenTo value := by
  constructor
  · intro h key current value hcurrent hvalue path old new hold hnew
    refine h (key :: path) old new ?_ ?_
    · rw [at?_object_cons, hcurrent]
      exact hold
    · rw [at?_object_cons, hvalue]
      exact hnew
  · intro h path old new hold hnew hobject
    cases path with
    | nil =>
      cases hold
      rfl
    | cons key path =>
      rw [at?_object_cons, Option.bind_eq_some_iff] at hold hnew
      rcases hold with ⟨current, hcurrent, hold⟩
      rcases hnew with ⟨value, hvalue, hnew⟩
      exact h key current value hcurrent hvalue path old new hold hnew hobject

/-- A key that no field of a merge has can be set before the merge, where it is there already. -/
theorem merge_set {key : String} {target fields : Object} (hkey : key ∈ target.keys)
    (hnew : key ∉ fields.keys) (value : Value) :
    (Object.merge target fields).set key value = Object.merge (target.set key value) fields := by
  induction fields generalizing target with
  | nil => rw [Object.merge, Object.merge]
  | cons entry rest ih =>
    rw [Assoc.keys_cons, List.mem_cons, not_or] at hnew
    have hthere : key ∈ (target.set entry.1
        (Value.mergedOver (target.get? entry.1) entry.2)).keys := by
      rw [Assoc.mem_keys_iff, Assoc.get?_set, if_neg (Ne.symm hnew.1)]
      exact Assoc.mem_keys_iff.mp hkey
    rw [Object.merge, ih hthere hnew.2, Assoc.set_comm hnew.1 _ _ hkey, Object.merge,
      Assoc.get?_set, if_neg hnew.1]

/-- A field that is merged into some fields before those are merged into an object comes to the
same as if it were merged after them. -/
theorem merge_mergedOver {fields : Object} (hkeys : fields.keys.Nodup) {key : String}
    {value : Value} (hnone : Value.mergedOver none value = value)
    (hsome : ∀ current, fields.get? key = some current → ∀ old,
      Value.mergedOver old (Value.mergedOver (some current) value) =
        Value.mergedOver (some (Value.mergedOver old current)) value) (target : Object) :
    Object.merge target (fields.set key (Value.mergedOver (fields.get? key) value)) =
      (Object.merge target fields).set key
        (Value.mergedOver ((Object.merge target fields).get? key) value) := by
  induction fields generalizing target with
  | nil =>
    rw [Assoc.get?, hnone, Assoc.set, Object.merge, Object.merge, Object.merge]
  | cons entry rest ih =>
    rcases entry with ⟨first, current⟩
    rw [Assoc.keys_cons, List.nodup_cons] at hkeys
    by_cases hfirst : first = key
    · subst hfirst
      have hwritten : Object.merge target ((first, current) :: rest) =
          Object.merge (target.set first (Value.mergedOver (target.get? first) current)) rest := by
        rw [Object.merge]
      rw [hwritten, get?_merge_of_not_mem hkeys.1, Assoc.get?_set, if_pos rfl,
        merge_set (Assoc.mem_keys_set_self _ _ _) hkeys.1, Assoc.set_set, Assoc.get?, if_pos rfl,
        Assoc.set, if_pos rfl, Object.merge, hsome current (if_pos rfl)]
    · have hrest : Assoc.get? key ((first, current) :: rest) = Assoc.get? key rest := if_neg hfirst
      rw [hrest] at hsome ⊢
      rw [Assoc.set, if_neg hfirst, Object.merge, Object.merge]
      exact ih hkeys.2 hsome _

/-- Two objects are merged one after the other as one merged into the other is, if that holds of
the values of each key that both have. -/
theorem merge_merge_of {first second : Object} (hfirst : first.keys.Nodup)
    (hsecond : second.keys.Nodup)
    (hnone : ∀ entry ∈ second, Value.mergedOver none entry.2 = entry.2)
    (hsome : ∀ entry ∈ second, ∀ current, first.get? entry.1 = some current → ∀ old,
      Value.mergedOver old (Value.mergedOver (some current) entry.2) =
        Value.mergedOver (some (Value.mergedOver old current)) entry.2) (target : Object) :
    Object.merge (Object.merge target first) second =
      Object.merge target (Object.merge first second) := by
  induction second generalizing first with
  | nil => rw [Object.merge, Object.merge]
  | cons entry rest ih =>
    rcases List.forall_mem_cons.mp hnone with ⟨hentry, hrest⟩
    rw [Assoc.keys_cons, List.nodup_cons] at hsecond
    rw [Object.merge, ← merge_mergedOver hfirst hentry (hsome entry List.mem_cons_self) target,
      Object.merge.eq_2 first]
    refine ih (Assoc.nodup_keys_set hfirst _ _) hsecond.2 hrest
      fun other hother current hcurrent => ?_
    have hne : entry.1 ≠ other.1 := fun heq => hsecond.1 (heq ▸ Assoc.mem_keys_of_mem hother)
    rw [Assoc.get?_set, if_neg hne] at hcurrent
    exact hsome other (List.mem_cons_of_mem _ hother) current hcurrent

/-- Where no path leads to an object over something else, two values are written one after the
other as the second merged over the first is. -/
theorem Value.HasDistinctKeys.mergedOver_some {first second : Value}
    (hfirst : first.HasDistinctKeys) (hsecond : second.HasDistinctKeys)
    (hopen : first.OpenTo second) (old : Option Value) :
    Value.mergedOver old (Value.mergedOver (some first) second) =
      Value.mergedOver (some (Value.mergedOver old first)) second := by
  induction hsecond generalizing first old with
  | object fields hkeys hvalues ih =>
    rcases exists_of_isObject (hopen [] first _ rfl rfl rfl) with ⟨firstFields, rfl⟩
    cases hfirst with
    | other _ hother => cases hother
    | object _ hfirstKeys hfirstValues =>
      rw [mergedOver_object (some _) fields, fieldsOf_object, mergedOver_object old,
        mergedOver_object old, mergedOver_object (some _), fieldsOf_object]
      congr 1
      refine (merge_merge_of hfirstKeys hkeys
        (fun entry hentry => (hvalues entry hentry).mergedOver_none)
        (fun entry hentry current hcurrent => ?_) _).symm
      exact ih entry hentry (hfirstValues _ (Assoc.mem_of_get?_eq_some hcurrent))
        (openTo_object_iff.mp hopen _ _ _ hcurrent (Assoc.get?_of_mem hkeys hentry))
  | other second hother =>
    rw [mergedOver_of_not_isObject hother, mergedOver_of_not_isObject hother,
      mergedOver_of_not_isObject hother]

/-- Where no path leads to an object over something else, two objects are merged one after the
other as the second merged into the first is. -/
theorem merge_merge_of_openTo {first second : Object}
    (hfirst : (Value.object first).HasDistinctKeys)
    (hsecond : (Value.object second).HasDistinctKeys)
    (hopen : (Value.object first).OpenTo (.object second)) (target : Object) :
    Object.merge (Object.merge target first) second =
      Object.merge target (Object.merge first second) := by
  have hmerge := hfirst.mergedOver_some hsecond hopen (some (.object target))
  simp only [mergedOver_object, fieldsOf_object] at hmerge
  exact (Value.object.inj hmerge).symm

/-! ## What a merge touches -/

/-- An object mentions a path of keys if following the path in it meets no key that it does not
have, up to the end of the path or to a value that is no object.  What lay beyond such a value is
gone once the value is written. -/
inductive Object.Mentions : Object → List String → Prop where
  | all (fields : Object) : Mentions fields []
  | replaced {fields : Object} {key : String} {value : Value} (path : List String) :
    (key, value) ∈ fields → value.isObject = false → Mentions fields (key :: path)
  | inside {fields inner : Object} {key : String} {path : List String} :
    (key, .object inner) ∈ fields → Mentions inner path → Mentions fields (key :: path)

/-- A merge leaves what its object does not mention. -/
theorem at?_merge_of_not_mentions {fields : Object} {path : List String}
    (h : ¬fields.Mentions path) (target : Object) :
    (Value.object (Object.merge target fields)).at? path = (Value.object target).at? path := by
  induction path generalizing target fields with
  | nil => exact absurd (.all fields) h
  | cons key path ihPath =>
    induction fields generalizing target with
    | nil => rw [Object.merge]
    | cons entry rest ih =>
      rcases entry with ⟨first, value⟩
      have hrest : ¬Object.Mentions rest (key :: path) := by
        intro hmentions
        cases hmentions with
        | replaced _ hmem hvalue => exact h (.replaced _ (List.mem_cons_of_mem _ hmem) hvalue)
        | inside hmem hinner => exact h (.inside (List.mem_cons_of_mem _ hmem) hinner)
      rw [Object.merge, ih hrest, Value.at?_object_cons, Value.at?_object_cons, Assoc.get?_set]
      by_cases hkey : first = key
      · subst hkey
        rw [if_pos rfl, Option.bind_some]
        cases hobject : value.isObject with
        | false => exact absurd (.replaced path List.mem_cons_self hobject) h
        | true =>
          rcases Value.exists_of_isObject hobject with ⟨inner, rfl⟩
          have hinner : ¬inner.Mentions path := fun hmentions =>
            h (.inside List.mem_cons_self hmentions)
          have hpath : path ≠ [] := by
            rintro rfl
            exact hinner (.all inner)
          rw [mergedOver_object, ihPath hinner, at?_fieldsOf hpath]
      · rw [if_neg hkey]

/-- A value that is no object stands, after a merge, where the object has it. -/
theorem at?_merge_of_at? {fields : Object} (hkeys : (Value.object fields).HasDistinctKeys)
    {path : List String} {value : Value} (hvalue : (Value.object fields).at? path = some value)
    (hother : value.isObject = false) (target : Object) :
    (Value.object (Object.merge target fields)).at? path = some value := by
  induction path generalizing target fields with
  | nil =>
    cases hvalue
    cases hother
  | cons key path ih =>
    cases hkeys with
    | other _ h => cases h
    | object _ hdistinct hvalues =>
      rw [Value.at?_object_cons, Option.bind_eq_some_iff] at hvalue
      rcases hvalue with ⟨inner, hinner, hpath⟩
      have hmem := Assoc.mem_of_get?_eq_some hinner
      rw [Value.at?_object_cons, get?_merge_of_mem hdistinct hmem, Option.bind_some]
      cases hobject : inner.isObject with
      | true =>
        rcases Value.exists_of_isObject hobject with ⟨innerFields, rfl⟩
        rw [mergedOver_object]
        exact ih (hvalues _ hmem) hpath _
      | false => rwa [mergedOver_of_not_isObject hobject]

/-! ## Merges one after the other -/

/-- A merge writes each value that is no object and leaves what its object does not mention, so a
merge of an object that was merged already changes nothing.  Two objects are merged one after the
other as the second merged into the first is, and so it is with patches of metadata, if no path of
keys leads to an object in the second where it leads to something else in the first. -/
theorem merge_merge (target : Option Object) {first second : Object}
    (hfirst : (Value.object first).HasDistinctKeys)
    (hsecond : (Value.object second).HasDistinctKeys) :
    (∀ path value, (Value.object first).at? path = some value → value.isObject = false →
        (Value.object (Object.merge (target.getD []) first)).at? path = some value) ∧
      (∀ path, ¬first.Mentions path →
        (Value.object (Object.merge (target.getD []) first)).at? path =
          (Value.object (target.getD [])).at? path) ∧
      Object.merge (Object.merge (target.getD []) first) first =
        Object.merge (target.getD []) first ∧
      ((∀ path old new, (Value.object first).at? path = some old →
          (Value.object second).at? path = some new → new.isObject = true →
            old.isObject = true) →
        Object.merge (Object.merge (target.getD []) first) second =
            Object.merge (target.getD []) (Object.merge first second) ∧
          patchMetadata (patchMetadata target (.set (some first))) (.set (some second)) =
            patchMetadata target (.set (some (Object.merge first second)))) := by
  refine ⟨fun path value hvalue hother => at?_merge_of_at? hfirst hvalue hother _,
    fun path hpath => at?_merge_of_not_mentions hpath _, merge_merge_self hfirst _,
    fun hopen => ?_⟩
  have hsame := merge_merge_of_openTo hfirst hsecond hopen (target.getD [])
  exact ⟨hsame, congrArg some hsame⟩

/-- The target has a number where both objects have an object, and the second object clears a list
of the first. -/
theorem merge_merge_overNumber :
    let target : Object := [("a", .int 1), ("b", .object [("x", .bool true)])]
    let first : Object := [("b", .object [("y", .list [.int 2])]), ("a", .object [("p", .null)])]
    let second : Object := [("a", .object [("q", .int 3)]), ("b", .object [("y", .null)])]
    (Value.object first).HasDistinctKeys ∧ (Value.object second).HasDistinctKeys ∧
      (∀ path old new, (Value.object first).at? path = some old →
        (Value.object second).at? path = some new → new.isObject = true → old.isObject = true) ∧
      (∀ path value, (Value.object first).at? path = some value → value.isObject = false →
        (Value.object (Object.merge target first)).at? path = some value) ∧
      (∀ path, ¬first.Mentions path → (Value.object (Object.merge target first)).at? path =
        (Value.object target).at? path) ∧
      Object.merge (Object.merge target first) first = Object.merge target first ∧
      Object.merge (Object.merge target first) second =
        Object.merge target (Object.merge first second) ∧
      patchMetadata (patchMetadata (some target) (.set (some first))) (.set (some second)) =
        patchMetadata (some target) (.set (some (Object.merge first second))) := by
  intro target first second
  have hsingle : ∀ (key : String) (value : Value), value.isObject = false →
      (Value.object [(key, value)]).HasDistinctKeys := fun key value hother =>
    .object _ (by simp [Assoc.keys]) (List.forall_mem_singleton.mpr (.other value hother))
  have hfirst : (Value.object first).HasDistinctKeys :=
    .object _ (by decide) (List.forall_mem_cons.mpr
      ⟨hsingle _ _ rfl, List.forall_mem_singleton.mpr (hsingle _ _ rfl)⟩)
  have hsecond : (Value.object second).HasDistinctKeys :=
    .object _ (by decide) (List.forall_mem_cons.mpr
      ⟨hsingle _ _ rfl, List.forall_mem_singleton.mpr (hsingle _ _ rfl)⟩)
  have hflat : ∀ (fields : Object) (key : String) (value : Value), value.isObject = false →
      (Value.object fields).OpenTo (.object [(key, value)]) := by
    intro fields key value hother
    refine Value.openTo_object_iff.mpr fun other current new _ hnew => ?_
    rcases List.mem_singleton.mp (Assoc.mem_of_get?_eq_some hnew) with ⟨rfl, rfl⟩
    exact Value.openTo_of_not_isObject hother current
  have hopen : (Value.object first).OpenTo (.object second) := by
    refine Value.openTo_object_iff.mpr fun key current value hcurrent hvalue => ?_
    have hobjects : ∀ entry ∈ first, ∃ fields : Object, entry.2 = .object fields := by
      simp [first]
    rcases hobjects _ (Assoc.mem_of_get?_eq_some hcurrent) with ⟨fields, rfl⟩
    rcases List.mem_cons.mp (Assoc.mem_of_get?_eq_some hvalue) with heq | hmem
    · cases heq
      exact hflat fields _ _ rfl
    · cases List.mem_singleton.mp hmem
      exact hflat fields _ _ rfl
  rcases merge_merge (some target) hfirst hsecond with ⟨hwritten, hleft, htwice, hmerge⟩
  exact ⟨hfirst, hsecond, hopen, hwritten, hleft, htwice, hmerge hopen⟩

end PromptMarkup
