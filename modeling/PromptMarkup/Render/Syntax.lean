import PromptMarkup.Draw.Source
import PromptMarkup.Segment.Basic
import PromptMarkup.Text.Integer
import PromptMarkup.Weight

/-!
# The text of a tree

Every segment is written in the syntax in which it is read.  Damaged segments are
written as well as they can be: a span without a bracket type is not bracketed, and
a level is taken by its size, up to the greatest level.
-/

namespace PromptMarkup

/-- Why a segment has no text. -/
inductive RenderError where
  /-- The level of a span is an infinite number. -/
  | infiniteLevel
  /-- An option is no text. -/
  | optionNotText
  /-- An option is no text, but holds a parenthesis as one of its items. -/
  | optionNotScanned
  /-- The values of a preset are something that has no items. -/
  | valuesNotList
  /-- A draw picks nothing. -/
  | draw (reason : DrawError)
deriving DecidableEq, Repr

/-! ## Fields as they are stored -/

/-- The bracket type that a field stands for. -/
def Stored.bracketType? : Stored BracketType → Option BracketType
  | .valid type => some type
  | .damaged raw => BracketType.ofValue? raw

/-- The preset mode that a field stands for. -/
def Stored.mode? : Stored PresetMode → Option PresetMode
  | .valid mode => some mode
  | .damaged raw => PresetMode.ofValue? raw

/-- The number of brackets for a level: its size, up to the greatest level. -/
def clampLevel (level : Int) : Nat :=
  min maxLevel level.natAbs

/-- The number of brackets for a level field.  What is no integer counts by its
integer part if it is a number, by the integer it holds if it is a text, and else
as zero. -/
def Stored.brackets : Stored Int → Except RenderError Nat
  | .valid level => .ok (clampLevel level)
  | .damaged (.int level) => .ok (clampLevel level)
  | .damaged (.bool b) => .ok (clampLevel b.toInt)
  | .damaged (.float x) =>
    match x.view with
    | .nan => .ok 0
    | .infinite _ => .error .infiniteLevel
    | .finite negative significand exponent =>
      .ok (clampLevel (Binary64.truncated negative significand exponent))
  | .damaged (.str text) =>
    .ok (match readInteger? text with
      | some level => clampLevel level
      | none => 0)
  | .damaged _ => .ok 0

/-- The texts that the options of an inline wildcard are. -/
def optionTexts : List Value → Except RenderError (List Text)
  | [] => .ok []
  | .str option :: rest => (optionTexts rest).map (option :: ·)
  | _ :: _ => .error .optionNotText

/-! ## Brackets -/

/-- A text inside a number of brackets. -/
def enclose (type : BracketType) (level : Nat) (content : Text) : Text :=
  repeated level type.opener ++ content ++ repeated level type.closer

/-- A text inside brackets of a span's type and level, and the bare text if the
span has no bracket type. -/
def wrapWeighted (bracketType : Stored BracketType) (level : Stored Int) (content : Text) :
    Except RenderError Text :=
  match bracketType.bracketType? with
  | none => .ok content
  | some type => level.brackets.map fun n => enclose type n content

/-- The number of brackets for which there is no room any more. -/
def bracketRoom : Nat := 0x10000000000

/-- The number of brackets that is no length of a text any more. -/
def bracketBound : Nat := 0x8000000000000000

/-- A text inside brackets given as values.  Brackets of no type go around a text
as long as there are none of them. -/
def applyBrackets (content : Text) (bracketType level : Value) : Except WeightError Text :=
  let enclosed (n : Int) : Except WeightError Text :=
    if n ≤ 0 then .ok content
    else match BracketType.ofValue? bracketType with
      | none => .error .notABracketType
      | some type =>
        if bracketBound ≤ n then .error .notALength
        else if bracketRoom ≤ n then .error .noRoom
        else .ok (enclose type n.toNat content)
  match level with
  | .int n => enclosed n
  | .bool b => enclosed b.toInt
  | .float x =>
    if x.isZero || x.lt (.zero false) then .ok content
    else match BracketType.ofValue? bracketType with
      | none => .error .notABracketType
      | some _ => .error .notANumber
  | _ => .error .notANumber

/-! ## Segments -/

/-- Whether the text of a kind of segment has the texts of its children in it. -/
def Kind.showsChildren : Kind → Bool
  | .text _ => true
  | .weighted .. => true
  | .preset .. => false
  | .inlineWildcard _ => false
  | .unknown => true

/-- The text of a segment, given the text of its children. -/
def Kind.render (inner : Text) : Kind → Except RenderError Text
  | .text content => .ok (content.getD [] ++ inner)
  | .weighted bracketType level => wrapWeighted bracketType level inner
  | .preset name mode selected =>
    if mode.mode? = some .fixed then .ok (name ++ ':' :: selected.getD [])
    else .ok ('!' :: name)
  | .inlineWildcard options =>
    (optionTexts options).map fun texts => '(' :: joinWith ['|'] texts ++ [')']
  | .unknown => .ok inner

namespace Segment

variable {ι : Type}

mutual

/-- The text of a tree. -/
def render : Segment ι → Except RenderError Text
  | .missing => .ok []
  | .leaf head => head.kind.render []
  | .branch head children =>
    if head.kind.showsChildren then
      match renderList children with
      | .ok inner => head.kind.render inner
      | .error e => .error e
    else head.kind.render []

/-- The text of a list of trees, one after the other. -/
def renderList : List (Segment ι) → Except RenderError Text
  | [] => .ok []
  | child :: rest =>
    match child.render with
    | .ok text => (renderList rest).map (text ++ ·)
    | .error e => .error e

end

end Segment

end PromptMarkup
