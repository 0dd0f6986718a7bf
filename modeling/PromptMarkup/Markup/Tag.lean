import PromptMarkup.Text.Blank
import PromptMarkup.Text.WordChar

/-!
# Tags

A tag stands for a preset.  A random tag is an exclamation mark before a name, and
a fixed tag is a name, a colon and a value.
-/

namespace PromptMarkup

/-- The characters that end the value of a fixed tag, beside the blank ones. -/
def valueEnds : Text := [',', ':', '(', ')', '{', '}', '[', ']', '|']

/-- A character of the value of a fixed tag. -/
def isValueChar (c : Char) : Bool :=
  !isBlank c && !valueEnds.contains c

/-- Read a name: the characters up to the first that is no name character, unless
there are none, and what follows. -/
def readName? (text : Text) : Option (Text × Text) :=
  match text.takeWhile isNameChar with
  | [] => none
  | name => some (name, text.dropWhile isNameChar)

/-- Read a colon and a value. -/
def readValue? : Text → Option (Text × Text)
  | ':' :: rest =>
    match rest.takeWhile isValueChar with
    | [] => none
    | value => some (value, rest.dropWhile isValueChar)
  | _ => none

/-- What follows a name is no longer than the text. -/
theorem length_of_readName? {text name rest : Text} (h : readName? text = some (name, rest)) :
    rest.length ≤ text.length := by
  unfold readName? at h
  split at h
  · cases h
  · cases h
    exact (List.dropWhile_sublist _).length_le

/-- What follows a value is no longer than the text. -/
theorem length_of_readValue? {text value rest : Text}
    (h : readValue? text = some (value, rest)) : rest.length ≤ text.length := by
  unfold readValue? at h
  split at h
  · next tail =>
    split at h
    · cases h
    · cases h
      have := (List.dropWhile_sublist isValueChar (l := tail)).length_le
      simp only [List.length_cons]
      omega
  · cases h

end PromptMarkup
