import PromptMarkup.Text.Basic

/-!
# Blank characters

A blank character is a space, a tab, a line or paragraph end, one of the four
information separators, or one of the typographic spaces of Unicode.  The
zero-width space and the byte order mark are not blank.  Trimming removes the
blank characters at both ends of a text.
-/

namespace PromptMarkup

/-- The blank characters, as inclusive ranges of code points. -/
def blankRanges : List (Nat × Nat) :=
  [(0x09, 0x0D), (0x1C, 0x20), (0x85, 0x85), (0xA0, 0xA0), (0x1680, 0x1680),
    (0x2000, 0x200A), (0x2028, 0x2029), (0x202F, 0x202F), (0x205F, 0x205F),
    (0x3000, 0x3000)]

/-- Whether a character is blank. -/
def isBlank (c : Char) : Bool :=
  inRanges blankRanges c

/-- A text without the blank characters at its start. -/
def trimStart (text : Text) : Text :=
  text.dropWhile isBlank

/-- A text without the blank characters at its end. -/
def trimEnd (text : Text) : Text :=
  (text.reverse.dropWhile isBlank).reverse

/-- A text without the blank characters at its ends. -/
def trim (text : Text) : Text :=
  trimEnd (trimStart text)

/-- Trimming keeps a subsequence of the text. -/
theorem trim_sublist (text : Text) : (trim text).Sublist text := by
  have hstart : (trimStart text).Sublist text := List.dropWhile_sublist isBlank
  have hend : (trimEnd (trimStart text)).Sublist (trimStart text) := by
    have h := List.dropWhile_sublist (l := (trimStart text).reverse) isBlank
    simpa [trimEnd] using h.reverse
  exact hend.trans hstart

end PromptMarkup
