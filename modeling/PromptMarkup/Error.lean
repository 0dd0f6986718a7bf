import PromptMarkup.Segment.Basic
import PromptMarkup.Value.Printer

/-!
# Invalid arguments and broken trees

The reasons for which making or editing a segment is refused, each with its
message, and the other ways in which an operation on segments breaks off: a tree
may be damaged where the operation reaches it.
-/

namespace PromptMarkup

/-- A reason to refuse to make or edit a segment. -/
inductive Invalid where
  | contentRequired
  | bracketType (raw : Value)
  | levelNotInteger (raw : Value)
  | levelNegative
  | levelTooHigh (limit : Nat)
  | nameRequired
  | presetMode (raw : Value)
  | optionsNotList
  | optionsAllBlank
  | rootRequired
  | noSegment
  | wrongPatch (patch segment : SegmentType)
  | nameEmpty
  | fixedWithoutSelected
  | selectedRequired
  | newOptionsNotList
  | newOptionsAllBlank
  | notText
  | splitPosition (position : Value) (length : Nat)
deriving DecidableEq

/-- The name of the patches for a kind of segment. -/
def SegmentType.patchName : SegmentType → String
  | .text => "TextPatch"
  | .weighted => "WeightedPatch"
  | .preset => "PresetPatch"
  | .inlineWildcard => "InlineWildcardPatch"

namespace Invalid

/-- The quoted form of a value, in a message. -/
private def shown (value : Value) : String :=
  String.ofList (value.quotedForm false)

/-- What is said of the reason. -/
def message : Invalid → String
  | contentRequired => "Text segment content is required"
  | bracketType raw => "Invalid bracket type: " ++ shown raw
  | levelNotInteger raw => "Bracket level must be an integer, got " ++ shown raw
  | levelNegative => "Bracket level must be a non-negative integer"
  | levelTooHigh limit =>
    "Bracket level exceeds maximum allowed value (" ++ String.ofList (natText limit) ++ ")"
  | nameRequired => "Preset name is required"
  | presetMode raw => "Invalid preset mode: " ++ shown raw
  | optionsNotList => "Options must be a non-empty list of strings"
  | optionsAllBlank => "Inline wildcard must have at least one non-blank option"
  | rootRequired => "Root segment is required for compilation"
  | noSegment => "Cannot update undefined or null segment"
  | wrongPatch patch segment =>
    patch.patchName ++ " cannot be applied to a " ++ segment.name ++ " segment"
  | nameEmpty => "Preset name cannot be empty"
  | fixedWithoutSelected => "Fixed mode preset cannot have an empty selected value"
  | selectedRequired => "Fixed mode preset requires a selected value"
  | newOptionsNotList => "Options must be a list of strings"
  | newOptionsAllBlank => "Inline wildcard must have at least one valid option"
  | notText => "Only text segments can be split"
  | splitPosition position length =>
    "Invalid split position: " ++ String.ofList (position.text false) ++
      ". Content length: " ++ String.ofList (natText length)

end Invalid

/-- Why an operation on segments breaks off. -/
inductive EditError where
  /-- An argument is refused. -/
  | invalid (reason : Invalid)
  /-- A segment is missing where one is needed. -/
  | missingSegment
  /-- A text has no content where it is needed. -/
  | missingContent
  /-- A patch for one kind meets a segment of unknown kind. -/
  | unknownKind
  /-- What is given as an index is none. -/
  | notAnIndex
  /-- What is given as a list of values has no items. -/
  | notItems
deriving DecidableEq

end PromptMarkup
