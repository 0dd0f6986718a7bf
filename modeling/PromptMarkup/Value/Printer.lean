import PromptMarkup.Number.Shortest
import PromptMarkup.Text.Quoted
import PromptMarkup.Value.Basic

/-!
# The text of a value

A text stands for itself, and every other value is shown in its quoted form, in
which texts are in quotes.  Values that are stored in metadata are sealed: their
lists and objects cannot change any more, and they are shown with brackets of
their own.

Integers are taken to be short enough to be written.  One that is read from a text
has {lit}`maxDigits` digits at most; here a longer one is written out like any
other, where it should be refused.
-/

namespace PromptMarkup.Value

mutual

/-- The form of a value that shows what it is.  Its integers are taken to have no more than
{lit}`maxDigits` digits. -/
def quotedForm (isSealed : Bool) : Value → Text
  | .null => "None".toList
  | .bool true => "True".toList
  | .bool false => "False".toList
  | .int n => intText n
  | .float x => x.shortestText
  | .str text => quoted text
  | .list items =>
    let inside := joinWith [',', ' '] (quotedItems isSealed items)
    if isSealed then
      '(' :: inside ++ (if items.length = 1 then [','] else []) ++ [')']
    else '[' :: inside ++ [']']
  | .object fields =>
    let inside := '{' :: joinWith [',', ' '] (quotedFields isSealed fields) ++ ['}']
    if isSealed then "mappingproxy(".toList ++ inside ++ [')'] else inside

/-- The quoted forms of the items of a list. -/
def quotedItems (isSealed : Bool) : List Value → List Text
  | [] => []
  | item :: rest => quotedForm isSealed item :: quotedItems isSealed rest

/-- The quoted forms of the fields of an object. -/
def quotedFields (isSealed : Bool) : List (String × Value) → List Text
  | [] => []
  | (key, value) :: rest =>
    (quoted key.toList ++ ':' :: ' ' :: quotedForm isSealed value) ::
      quotedFields isSealed rest

end

/-- The text of a value that stands by itself.  Its integers are taken to have no more than
{lit}`maxDigits` digits. -/
def text (isSealed : Bool) : Value → Text
  | .str text => text
  | .object fields => '{' :: joinWith [',', ' '] (quotedFields isSealed fields) ++ ['}']
  | value => quotedForm isSealed value

end PromptMarkup.Value
