import PromptMarkup.Library.Folder
import PromptMarkup.Text.Blank

/-!
# Files of values

A file of values has one value on each line.  Blank characters around a value do not
count, nor do blank lines, and a number sign starts a comment unless it stands right
after a backslash.  A file that is not in UTF-8 has no values.
-/

namespace PromptMarkup

/-- A character that ends a line.  Between the two characters of a double line end
there is only a blank line. -/
def isLineEnd (c : Char) : Bool :=
  c == '\n' || c == '\r'

/-- The lines of a text. -/
def textLines : Text → List Text
  | [] => [[]]
  | c :: rest =>
    if isLineEnd c then [] :: textLines rest
    else
      match textLines rest with
      | [] => [[c]]
      | line :: lines => (c :: line) :: lines

/-- A line up to its comment, when the character before is a backslash or not. -/
def beforeComment (escaped : Bool) : Text → Text
  | [] => []
  | c :: rest =>
    if c = '#' ∧ !escaped then [] else c :: beforeComment (c = '\\') rest

/-- The value on a line, if it has one. -/
def lineValue? (line : Text) : Option Text :=
  match trim (beforeComment false (trim line)) with
  | [] => none
  | value => some value

/-- The values in a text. -/
def textValues (text : Text) : List Text :=
  (textLines text).filterMap lineValue?

/-- The values in a file; a folder has none. -/
def Entry.values : Entry → List Text
  | .file content =>
    match String.fromUTF8? content with
    | some text => textValues text.toList
    | none => []
  | .folder _ => []

/-- The values in the file at a path, none if there is no file. -/
def Entry.valuesAt (base : Entry) (path : Text) : Except PathError (List Text) :=
  match base.resolve path with
  | .ok entry => .ok entry.values
  | .error .nullCharacter => .error .nullCharacter
  | .error _ => .ok []

end PromptMarkup
