import PromptMarkup.Error
import PromptMarkup.Text.Blank
import PromptMarkup.Weight

/-!
# Making segments

Each kind of segment has a builder, which is given well-formed fields, and a
checked constructor, which is given whatever there is and refuses it with a
reason.  A checked constructor that accepts its arguments gives what the builder
gives.
-/

namespace PromptMarkup

/-- The colour of a random preset. -/
def randomColor : String := "#8E6FD8"

/-- The colour of a fixed preset. -/
def fixedColor : String := "#4A9F8E"

/-- The colour of an inline wildcard. -/
def wildcardColor : String := "#8E6FD8"

/-- The colour of a preset of a mode. -/
def PresetMode.color : PresetMode → String
  | .random => randomColor
  | .fixed => fixedColor

namespace Segment

variable {ι : Type}

/-! ## Builders -/

/-- A text without a list of children. -/
def text (id : ι) (content : Text) : Segment ι :=
  .leaf ⟨id, .text (some content), none⟩

/-- A weighted span, tinted by its weight. -/
def weighted (id : ι) (type : BracketType) (level : Nat) (children : List (Segment ι)) :
    Segment ι :=
  .branch
    ⟨id, .weighted (.valid type) (.valid level),
      some [("intensity", .float (levelIntensity type level))]⟩
    children

/-- A preset, coloured by its mode, with the values that are known for it. -/
def preset (id : ι) (name : Text) (mode : PresetMode) (selected : Option Text)
    (values : List Value) : Segment ι :=
  .leaf
    ⟨id, .preset name (.valid mode) selected,
      some [("color", .ofString mode.color), ("values", .list values)]⟩

/-- An inline wildcard. -/
def inlineWildcard (id : ι) (options : List Value) : Segment ι :=
  .leaf ⟨id, .inlineWildcard options, some [("color", .ofString wildcardColor)]⟩

/-! ## Checked constructors -/

/-- Read a bracket type. -/
def checkBracketType (raw : Value) : Except Invalid BracketType :=
  match BracketType.ofValue? raw with
  | some type => .ok type
  | none => .error (.bracketType raw)

/-- Read a preset mode. -/
def checkPresetMode (raw : Value) : Except Invalid PresetMode :=
  match PresetMode.ofValue? raw with
  | some mode => .ok mode
  | none => .error (.presetMode raw)

/-- Read an integer; a truth value is none. -/
def checkLevel (raw : Value) : Except Invalid Int :=
  match raw with
  | .int n => .ok n
  | _ => .error (.levelNotInteger raw)

/-- Whether an option has no text to show. -/
def isBlankOption (option : Value) : Bool :=
  (trim (option.text false)).isEmpty

/-- Make a text, with a list of children where one is given. -/
def text? (id : ι) (content : Option Text) (children : Option (List (Segment ι))) :
    Except Invalid (Segment ι) :=
  match content with
  | none => .error .contentRequired
  | some content => .ok (ofHead ⟨id, .text (some content), none⟩ children)

/-- Make a weighted span of level 0 to 78. -/
def weighted? (id : ι) (children : List (Segment ι)) (bracketType level : Value) :
    Except Invalid (Segment ι) := do
  let type ← checkBracketType bracketType
  let level ← checkLevel level
  if level < 0 then .error .levelNegative
  else if maxLevel < level then .error (.levelTooHigh maxLevel)
  else .ok (weighted id type level.toNat children)

/-- Make a preset with a name. -/
def preset? (id : ι) (name : Option Text) (mode : Value) (selected : Option Text)
    (values : List Value) : Except Invalid (Segment ι) :=
  match name with
  | none | some [] => .error .nameRequired
  | some name => do
    let mode ← checkPresetMode mode
    .ok (preset id name mode selected values)

/-- Make a preset with a name; the values that are known for it are the items of a
value. -/
def presetOf (id : ι) (name : Option Text) (mode : Value) (selected : Option Text)
    (values : Value) : Except EditError (Segment ι) :=
  match values.items? with
  | some values => (preset? id name mode selected values).mapError .invalid
  | none => do
    let _ ← (preset? id name mode selected []).mapError .invalid
    .error .notItems

/-- Make an inline wildcard with at least one option that is not blank. -/
def inlineWildcard? (id : ι) (options : Value) : Except Invalid (Segment ι) :=
  match options with
  | .list [] => .error .optionsNotList
  | .list options =>
    if options.all isBlankOption then .error .optionsAllBlank
    else .ok (inlineWildcard id options)
  | _ => .error .optionsNotList

end Segment

end PromptMarkup
