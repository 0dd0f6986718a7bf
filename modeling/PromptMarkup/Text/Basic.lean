/-!
# Texts

A text is the list of its code points, so every length, offset and cut counts
code points.
-/

namespace PromptMarkup

/-- A text, as the list of its code points. -/
abbrev Text := List Char

/-- Whether a character lies in one of some inclusive ranges of code points. -/
def inRanges (ranges : List (Nat × Nat)) (c : Char) : Bool :=
  ranges.any fun (first, last) => first ≤ c.toNat && c.toNat ≤ last

/-- Whether a text comes before another in the order of code points. -/
def textBefore (s t : Text) : Bool :=
  s.lex t fun a b => a.toNat < b.toNat

/-- Texts joined with a separator between neighbours. -/
def joinWith (separator : Text) : List Text → Text
  | [] => []
  | [text] => text
  | text :: rest => text ++ separator ++ joinWith separator rest

/-- A text repeated a number of times. -/
def repeated (n : Nat) (c : Char) : Text :=
  List.replicate n c

/-- The decimal digits of a natural number. -/
def natText (n : Nat) : Text :=
  Nat.toDigits 10 n

/-- The decimal digits of an integer, after a minus sign when it is negative. -/
def intText : Int → Text
  | .ofNat n => natText n
  | .negSucc n => '-' :: natText (n + 1)

end PromptMarkup
