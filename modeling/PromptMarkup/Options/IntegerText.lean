import PromptMarkup.Text.Integer

/-!
# Integers in option texts

An option takes an integer in more spellings than one.  Padding and a plus sign do
not count, nor do zeros in front together with the underscores among them, nor a
point followed by zeros at the end.  What is left is an optional minus sign and
ASCII digits with single underscores inside.  Zeros may also stand in front of the
minus sign.
-/

namespace PromptMarkup

/-- A text without a plus sign in front, which no minus sign may follow. -/
def withoutPlus? : Text → Option Text
  | '+' :: '-' :: _ => none
  | '+' :: rest => some rest
  | text => some text

/-- What is left of a text after zeros and underscores in front, given the last
character that was passed over.  That character is kept when a point or the end of
the text follows. -/
def afterZeros? (last : Char) : Text → Option Text
  | [] => some [last]
  | c :: rest =>
    if c = '0' ∨ c = '_' then afterZeros? c rest
    else if c = '.' then some (last :: c :: rest)
    else if c.isDigit ∨ c = '-' then some (c :: rest)
    else none

/-- A text without zeros in front; it has to begin with a digit or a minus sign. -/
def withoutZeros? : Text → Option Text
  | [] => none
  | c :: rest =>
    if c = '0' then afterZeros? c rest
    else if c.isDigit ∨ c = '-' then some (c :: rest)
    else none

/-- A text without a point and zeros after it, of which there is at least one. -/
def withoutZeroPlaces (text : Text) : Text :=
  match text.dropWhile (· != '.') with
  | _ :: '0' :: places => if places.all (· == '0') then text.takeWhile (· != '.') else text
  | _ => text

/-- A text without the underscores in it, none of which may stand at an end or
beside another. -/
def withoutUnderscores? (text : Text) : Option Text :=
  let parts := text.splitOn '_'
  if [] ∈ parts then none else some parts.flatten

/-- The plain spelling of the integer in an option text. -/
def plainInteger? (text : Text) : Option Text := do
  let text ← withoutPlus? (unpadded text)
  let text ← withoutZeros? text
  withoutUnderscores? (withoutZeroPlaces text)

end PromptMarkup
