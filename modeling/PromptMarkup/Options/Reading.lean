import PromptMarkup.Options.IntegerText
import PromptMarkup.Value.Basic

/-!
# Reading option values

Options are read leniently: an integer may be given as a whole number of any form
or as a text, and a truth value as one of a few words.  A value that cannot be read
is a fault of its field, and all faults are reported together.
-/

namespace PromptMarkup

/-- Why a value does not fit its field. -/
inductive Fault where
  | integerSpelling
  | integerType
  | fractionalInteger
  | hugeInteger
  | infiniteInteger
  | truthSpelling
  | truthType
  | tooSmall
  | tooLarge
  | notARecord
  | notAMap
  | notAText
deriving DecidableEq, Repr

/-- The name of a fault in a report. -/
def Fault.name : Fault → String
  | .integerSpelling => "int_parsing"
  | .integerType => "int_type"
  | .fractionalInteger => "int_from_float"
  | .hugeInteger => "int_parsing_size"
  | .infiniteInteger => "finite_number"
  | .truthSpelling => "bool_parsing"
  | .truthType => "bool_type"
  | .tooSmall => "greater_than_equal"
  | .tooLarge => "less_than_equal"
  | .notARecord => "model_type"
  | .notAMap => "dict_type"
  | .notAText => "string_type"

/-- A fault, with the path to the field that has it. -/
structure FieldFault where
  path : List String
  fault : Fault
deriving DecidableEq, Repr

/-- A fault in a report: the path, then the name of the fault. -/
def FieldFault.message (fault : FieldFault) : String :=
  String.intercalate "." fault.path ++ ":" ++ fault.fault.name

/-- The report of some faults, in the order of their messages. -/
def faultReport (faults : List FieldFault) : String :=
  String.intercalate "; " ((faults.map FieldFault.message).mergeSort fun a b => !(b < a))

/-! ## Integers -/

/-- Read an integer from a text. -/
def readIntegerText (text : Text) : Except Fault Int :=
  match plainInteger? text with
  | none => .error .integerSpelling
  | some plain =>
    if maxDigits < plain.length then .error .hugeInteger
    else match signedDigits? asciiDigitValue? plain with
      | some n => .ok n
      | none => .error .integerSpelling

/-- The least integer beyond those of 64 bits with a sign. -/
def wordBound : Nat := 0x8000000000000000

/-- Read an integer from a double-precision number. -/
def readIntegerFloat (x : Binary64) : Except Fault Int :=
  match x.view with
  | .nan => .error .infiniteInteger
  | .infinite _ => .error .infiniteInteger
  | .finite negative significand exponent =>
    let n := Binary64.truncated negative significand exponent
    if !Binary64.isIntegral significand exponent then .error .fractionalInteger
    else if n.natAbs < wordBound then .ok n
    else .error .hugeInteger

/-- Read an integer. -/
def readInteger : Value → Except Fault Int
  | .int n => .ok n
  | .bool b => .ok b.toInt
  | .float x => readIntegerFloat x
  | .str text => readIntegerText text
  | _ => .error .integerType

/-- Refuse an integer below a bound. -/
def atLeast (low : Int) (n : Int) : Except Fault Int :=
  if n < low then .error .tooSmall else .ok n

/-- Refuse an integer above a bound. -/
def atMost (high : Int) (n : Int) : Except Fault Int :=
  if high < n then .error .tooLarge else .ok n

/-! ## Truth values -/

/-- The words for false. -/
def falseWords : List String := ["0", "off", "f", "false", "n", "no"]

/-- The words for true. -/
def trueWords : List String := ["1", "on", "t", "true", "y", "yes"]

/-- Read a truth value from an integer. -/
def readTruthInteger (n : Int) : Except Fault Bool :=
  if n = 0 then .ok false
  else if n = 1 then .ok true
  else .error .truthSpelling

/-- Read a truth value. -/
def readTruth : Value → Except Fault Bool
  | .bool b => .ok b
  | .str text =>
    let word := String.ofList (text.map Char.toLower)
    if word ∈ falseWords then .ok false
    else if word ∈ trueWords then .ok true
    else .error .truthSpelling
  | .int n =>
    if -(wordBound : Int) ≤ n ∧ n < wordBound then readTruthInteger n else .error .truthType
  | .float x =>
    match readIntegerFloat x with
    | .ok n => readTruthInteger n
    | .error _ => .error .truthType
  | _ => .error .truthType

/-! ## Collecting faults -/

/-- The fault of a field that was not read, under a name. -/
def faultsOf {α : Type} (name : String) : Except Fault α → List FieldFault
  | .ok _ => []
  | .error fault => [⟨[name], fault⟩]

end PromptMarkup
