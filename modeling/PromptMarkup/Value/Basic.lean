import PromptMarkup.Assoc
import PromptMarkup.Number.Binary64
import PromptMarkup.Text.Basic

/-!
# Plain data

Values are what metadata and damaged fields hold: nothing, truth values,
integers, double-precision numbers, texts, lists, and objects whose fields keep
the order in which they were first set.
-/

namespace PromptMarkup

/-- Plain data. -/
inductive Value where
  | null
  | bool (b : Bool)
  | int (n : Int)
  | float (x : Binary64)
  | str (text : Text)
  | list (items : List Value)
  | object (fields : List (String × Value))
deriving Inhabited

/-- The fields of an object, in the order in which they were first set. -/
abbrev Object := Assoc String Value

/-! ## Equality -/

mutual

/-- Equality of values is decidable. -/
def Value.decEq : (v w : Value) → Decidable (v = w)
  | .null, .null => isTrue rfl
  | .bool b, .bool c => if h : b = c then isTrue (by rw [h]) else isFalse (by simpa using h)
  | .int n, .int m => if h : n = m then isTrue (by rw [h]) else isFalse (by simpa using h)
  | .float x, .float y => if h : x = y then isTrue (by rw [h]) else isFalse (by simpa using h)
  | .str s, .str t => if h : s = t then isTrue (by rw [h]) else isFalse (by simpa using h)
  | .list vs, .list ws =>
    match Value.decEqList vs ws with
    | isTrue h => isTrue (by rw [h])
    | isFalse h => isFalse (by simpa using h)
  | .object fs, .object gs =>
    match Value.decEqFields fs gs with
    | isTrue h => isTrue (by rw [h])
    | isFalse h => isFalse (by simpa using h)
  | .null, .bool _ | .null, .int _ | .null, .float _ | .null, .str _ | .null, .list _
  | .null, .object _ => isFalse nofun
  | .bool _, .null | .bool _, .int _ | .bool _, .float _ | .bool _, .str _
  | .bool _, .list _ | .bool _, .object _ => isFalse nofun
  | .int _, .null | .int _, .bool _ | .int _, .float _ | .int _, .str _ | .int _, .list _
  | .int _, .object _ => isFalse nofun
  | .float _, .null | .float _, .bool _ | .float _, .int _ | .float _, .str _
  | .float _, .list _ | .float _, .object _ => isFalse nofun
  | .str _, .null | .str _, .bool _ | .str _, .int _ | .str _, .float _ | .str _, .list _
  | .str _, .object _ => isFalse nofun
  | .list _, .null | .list _, .bool _ | .list _, .int _ | .list _, .float _ | .list _, .str _
  | .list _, .object _ => isFalse nofun
  | .object _, .null | .object _, .bool _ | .object _, .int _ | .object _, .float _
  | .object _, .str _ | .object _, .list _ => isFalse nofun

/-- Equality of lists of values is decidable. -/
def Value.decEqList : (vs ws : List Value) → Decidable (vs = ws)
  | [], [] => isTrue rfl
  | [], _ :: _ | _ :: _, [] => isFalse nofun
  | v :: vs, w :: ws =>
    match Value.decEq v w, Value.decEqList vs ws with
    | isTrue hv, isTrue hvs => isTrue (by rw [hv, hvs])
    | isFalse hv, _ => isFalse (by simp [hv])
    | _, isFalse hvs => isFalse (by simp [hvs])

/-- Equality of lists of fields is decidable. -/
def Value.decEqFields : (fs gs : List (String × Value)) → Decidable (fs = gs)
  | [], [] => isTrue rfl
  | [], _ :: _ | _ :: _, [] => isFalse nofun
  | (k, v) :: fs, (l, w) :: gs =>
    match (inferInstance : Decidable (k = l)), Value.decEq v w, Value.decEqFields fs gs with
    | isTrue hk, isTrue hv, isTrue hfs => isTrue (by rw [hk, hv, hfs])
    | isFalse hk, _, _ => isFalse (by simp [hk])
    | _, isFalse hv, _ => isFalse (by simp [hv])
    | _, _, isFalse hfs => isFalse (by simp [hfs])

end

instance : DecidableEq Value := Value.decEq

namespace Value

/-- Whether a value counts as present: neither nothing, false, a zero, nor empty. -/
def isTruthy : Value → Bool
  | .null => false
  | .bool b => b
  | .int n => n != 0
  | .float x => !x.isZero
  | .str text => !text.isEmpty
  | .list items => !items.isEmpty
  | .object fields => !fields.isEmpty

/-- A text constant as a value. -/
def ofString (s : String) : Value :=
  .str s.toList

/-- The items of a value that has any: the characters of a text, the items of a
list, the names of the fields of an object.  An absent value has none. -/
def items? (value : Value) : Option (List Value) :=
  if !value.isTruthy then some []
  else match value with
    | .str text => some (text.map fun c => .str [c])
    | .list items => some items
    | .object fields => some (fields.map fun (name, _) => .ofString name)
    | _ => none

end Value

end PromptMarkup
