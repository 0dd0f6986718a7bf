import PromptMarkup.Text.Blank

/-!
# Integers in texts

An integer is written as an optional sign and a run of decimal digits in which
single underscores may stand between two digits.  Padding around it does not count.
The decimal digits are those of every script of Unicode 14.
-/

namespace PromptMarkup

/-- The code points of the zeros of the scripts that write decimal digits; the
other nine digits follow each of them. -/
def decimalZeros : List Nat :=
  [48, 1632, 1776, 1984, 2406, 2534, 2662, 2790, 2918, 3046, 3174, 3302, 3430, 3558, 3664,
    3792, 3872, 4160, 4240, 6112, 6160, 6470, 6608, 6784, 6800, 6992, 7088, 7232, 7248, 42528,
    43216, 43264, 43472, 43504, 43600, 44016, 65296, 66720, 68912, 69734, 69872, 69942, 70096,
    70384, 70736, 70864, 71248, 71360, 71472, 71904, 72016, 72784, 73040, 73120, 92768, 92864,
    93008, 120782, 120792, 120802, 120812, 120822, 123200, 123632, 125264, 130032]

/-- The value of a decimal digit of any script. -/
def digitValue? (c : Char) : Option Nat :=
  (decimalZeros.find? fun first => first ≤ c.toNat && c.toNat < first + 10).map (c.toNat - ·)

/-- The value of an ASCII decimal digit. -/
def asciiDigitValue? (c : Char) : Option Nat :=
  if c.isDigit then some (c.toNat - 48) else none

/-- Read the rest of a run of digits, after a digit. -/
def digitsAfter? (digit : Char → Option Nat) (value : Nat) : Text → Option Nat
  | [] => some value
  | '_' :: c :: rest => (digit c).bind fun d => digitsAfter? digit (10 * value + d) rest
  | c :: rest => (digit c).bind fun d => digitsAfter? digit (10 * value + d) rest

/-- Read a run of digits with single underscores between them. -/
def digits? (digit : Char → Option Nat) : Text → Option Nat
  | [] => none
  | c :: rest => (digit c).bind fun d => digitsAfter? digit d rest

/-- Read an optional sign and a run of digits. -/
def signedDigits? (digit : Char → Option Nat) : Text → Option Int
  | '-' :: rest => (digits? digit rest).map fun n => -(n : Int)
  | '+' :: rest => (digits? digit rest).map fun n => (n : Int)
  | text => (digits? digit text).map fun n => (n : Int)

/-- A character that may stand around an integer: a blank one that is no information
separator. -/
def isPadding (c : Char) : Bool :=
  isBlank c && !inRanges [(0x1C, 0x1F)] c

/-- A text without the padding at its ends. -/
def unpadded (text : Text) : Text :=
  ((text.dropWhile isPadding).reverse.dropWhile isPadding).reverse

/-- The greatest number of digits that is read as an integer. -/
def maxDigits : Nat := 4300

/-- The integer that a text holds inside its padding. -/
def readInteger? (text : Text) : Option Int :=
  let text := unpadded text
  if maxDigits < (text.filter fun c => (digitValue? c).isSome).length then none
  else signedDigits? digitValue? text

end PromptMarkup
