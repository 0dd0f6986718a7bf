import PromptMarkup.Value.Basic

/-!
# Merging objects

An object is merged into another field by field.  Where both hold an object the
two are merged in turn; anywhere else the new value replaces the old one.
-/

namespace PromptMarkup

mutual

/-- The value of a field after a merge, from the value that the field had and the
value that the merge gives it. -/
def Value.mergedOver (old : Option Value) : Value → Value
  | .object fields =>
    match old with
    | some (.object current) => .object (Object.merge current fields)
    | _ => .object (Object.merge [] fields)
  | value => value

/-- Merge fields into an object, one after the other. -/
def Object.merge (target : Object) : List (String × Value) → Object
  | [] => target
  | (key, value) :: rest =>
    Object.merge (target.set key (Value.mergedOver (target.get? key) value)) rest

end

end PromptMarkup
