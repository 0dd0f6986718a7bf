import PromptMarkup.Markup.Document
import PromptMarkup.Segment.Normal

/-!
# Single segments

Readers for a text that is exactly one inline wildcard, one weighted span or one
preset, each with the reason when it is not.  A group may have a single option
here.
-/

namespace PromptMarkup

/-- Why a text is not a single segment of the wanted kind. -/
inductive ReadError where
  | notGroup
  | emptyGroup
  | noOptions
  | notSpan
  | unbalancedSpan
  | nestsTooDeeply
  | notPreset
deriving DecidableEq, Repr

/-- What is said of the reason. -/
def ReadError.message : ReadError → String
  | .notGroup => "Invalid inline wildcard pattern"
  | .emptyGroup => "Empty inline wildcard"
  | .noOptions => "No valid options found"
  | .notSpan => "Not a weighted text pattern"
  | .unbalancedSpan => "Unbalanced weighted text pattern"
  | .nestsTooDeeply => "Weighted text nests too deeply"
  | .notPreset => "Not a preset pattern"

/-- Read a text that is one group of options. -/
def readInlineWildcard : Text → Except ReadError (Segment Unit)
  | '(' :: rest =>
    match groupClose? 0 rest with
    | some (inside, []) =>
      if (trim inside).isEmpty then .error .emptyGroup
      else if groupOptions inside = [] then .error .noOptions
      else .ok (.inlineWildcard () ((groupOptions inside).map .str))
    | _ => .error .notGroup
  | _ => .error .notGroup

/-- The span that a text is, when spans may be nested to some depth. -/
def readSpan? : Nat → BracketType → Text → Option (Segment Unit)
  | 0, _, _ => none
  | depth + 1, type, inside => some (wrapSpan type (readSegments depth inside))

/-- Give a span without children one empty text. -/
def fillSpan (span : Segment Unit) : Segment Unit :=
  if span.children.isEmpty then span.withChildren [.text () []] else span

/-- Read a text that is one weighted span. -/
def readWeighted : Text → Except ReadError (Segment Unit)
  | [] => .error .notSpan
  | c :: rest =>
    match BracketType.ofOpener? c with
    | none => .error .notSpan
    | some type =>
      match closing type [] rest with
      | .matched inside [] =>
        match readSpan? maxNesting type inside with
        | none => .error .nestsTooDeeply
        | some span => .ok (fillSpan span.normalize)
      | _ => .error .unbalancedSpan

/-- Read a text that is one tag. -/
def readPreset (text : Text) : Except ReadError (Segment Unit) :=
  match text with
  | [] => .error .notPreset
  | '!' :: rest =>
    match readName? rest with
    | some (name, []) => .ok (.preset () name .random none [])
    | _ => .error .notPreset
  | text =>
    match readName? text with
    | some (name, rest) =>
      match readValue? rest with
      | some (value, []) => .ok (.preset () name .fixed (some value) [])
      | _ => .error .notPreset
    | none => .error .notPreset

end PromptMarkup
