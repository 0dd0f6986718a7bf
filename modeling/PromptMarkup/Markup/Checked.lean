import PromptMarkup.Markup.Document
import PromptMarkup.Segment.Normal

/-!
# Prompts with checks

A prompt is read as before, but each of its segments is made by the checked constructor of its
kind, and the tree is brought to normal form in the end.
-/

namespace PromptMarkup

/-- The content of the first text after literal text was put before some segments, and what
follows it. -/
def literalParts (literal : Text) (segments : List (Segment Unit)) :
    Text × List (Segment Unit) :=
  match segments with
  | .leaf ⟨_, .text (some content), none⟩ :: rest => (literal ++ content, rest)
  | _ => (literal, segments)

/-- Put the segment of a piece before some segments, as the checked constructor of its kind
makes it. -/
def addChecked (nested : Text → Except Invalid (List (Segment Unit))) (piece : Piece)
    (rest : List (Segment Unit)) : Except Invalid (List (Segment Unit)) :=
  match piece with
  | .literal text => do
    let first ← Segment.text? () (some (literalParts text rest).1) none
    return first :: (literalParts text rest).2
  | .weighted type inside => do
    let children ← nested inside
    let span ← Segment.weighted? () (spanParts type children).2 type.toValue
      (.int (spanParts type children).1)
    return span :: rest
  | .group options => do
    let choice ← Segment.inlineWildcard? () (.list (options.map .str))
    return choice :: rest
  | .random name => do
    let preset ← Segment.preset? () (some name) PresetMode.random.toValue none []
    return preset :: rest
  | .fixed name value => do
    let preset ← Segment.preset? () (some name) PresetMode.fixed.toValue (some value) []
    return preset :: rest

/-- The segments of some pieces, each made by a checked constructor. -/
def checkedPieces (nested : Text → Except Invalid (List (Segment Unit))) :
    List Piece → Except Invalid (List (Segment Unit))
  | [] => .ok []
  | piece :: rest => do addChecked nested piece (← checkedPieces nested rest)

/-- The segments of a text, each made by a checked constructor. -/
def checkedFrom : Nat → Bool → Text → Except Invalid (List (Segment Unit))
  | 0, boundary, text => checkedPieces (fun _ => .ok []) (pieces false boundary text)
  | depth + 1, boundary, text => checkedPieces (checkedFrom depth true) (pieces true boundary text)

/-- The tree of a prompt, made by checked constructors and brought to normal form. -/
def checkedPrompt (text : Text) : Except EditError (Segment Unit) := do
  let children ← (checkedFrom maxNesting true text).mapError .invalid
  let root ← (Segment.text? () (some []) (some children)).mapError .invalid
  root.checkedNormalize

end PromptMarkup
