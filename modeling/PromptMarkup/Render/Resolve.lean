import PromptMarkup.Render.Expansion
import PromptMarkup.Render.Syntax
import PromptMarkup.Value.Printer

/-!
# The resolved text of a tree

Resolving a tree writes it with every choice made, in document order: a random
preset becomes one of its values, an inline wildcard one of its options with the
groups in it expanded, and a fixed preset its selected value.
-/

namespace PromptMarkup

/-- The values that are stored for a preset. -/
def presetValues (metadata : Option Object) : Except RenderError (List Value) :=
  match (metadata.getD []).get? "values" with
  | none => .ok []
  | some stored =>
    match stored.items? with
    | some values => .ok values
    | none => .error .valuesNotList

variable {σ : Type}

/-- The text of one of the values of a preset; nothing if there are none.  As in {lit}`Value.text`,
integers are taken to be short enough to be written. -/
def drawValue (source : DrawSource σ) (values : List Value) (state : σ) :
    Except RenderError (Text × σ) :=
  match values with
  | [] => .ok ([], state)
  | _ =>
    let (draw, state) := source.next state
    match pick draw values with
    | .ok value => .ok (value.text true, state)
    | .error e => .error (.draw e)

/-- Whether a value that is no text has an opening parenthesis as one of its items. -/
def holdsOpening : Value → Bool
  | .list items => .ofString "(" ∈ items
  | .object fields => (Assoc.get? "(" fields).isSome
  | _ => false

/-- Why an option that is no text is not expanded.  As long as groups are expanded it
is looked through for an opening parenthesis first. -/
def optionError (limit : Int) (option : Value) : RenderError :=
  if 1 ≤ limit ∧ holdsOpening option then .optionNotScanned else .optionNotText

/-- One of the options of an inline wildcard, expanded; nothing if there are
none. -/
def drawOption (source : DrawSource σ) (limit : Int) (options : List Value) (state : σ) :
    Except RenderError (Text × σ) :=
  match options with
  | [] => .ok ([], state)
  | _ =>
    let (draw, state) := source.next state
    match pick draw options with
    | .ok (.str option) => (expandStack source limit state [⟨option, 1⟩]).mapError .draw
    | .ok option => .error (optionError limit option)
    | .error e => .error (.draw e)

/-- The resolved text of a segment, given that of its children. -/
def Head.resolve {ι : Type} (source : DrawSource σ) (limit : Int) (head : Head ι)
    (inner : Text) (state : σ) : Except RenderError (Text × σ) :=
  match head.kind with
  | .preset _ mode selected =>
    if mode.mode? = some .fixed then .ok (selected.getD [], state)
    else
      match presetValues head.metadata with
      | .ok values => drawValue source values state
      | .error e => .error e
  | .inlineWildcard options => drawOption source limit options state
  | kind => (kind.render inner).map fun text => (text, state)

namespace Segment

variable {ι : Type}

mutual

/-- The resolved text of a tree. -/
def resolve (source : DrawSource σ) (limit : Int) : Segment ι → σ →
    Except RenderError (Text × σ)
  | .missing, state => .ok ([], state)
  | .leaf head, state => head.resolve source limit [] state
  | .branch head children, state =>
    if head.kind.showsChildren then
      match resolveList source limit children state with
      | .ok (inner, state) => head.resolve source limit inner state
      | .error e => .error e
    else head.resolve source limit [] state

/-- The resolved text of a list of trees, one after the other. -/
def resolveList (source : DrawSource σ) (limit : Int) : List (Segment ι) → σ →
    Except RenderError (Text × σ)
  | [], state => .ok ([], state)
  | child :: rest, state =>
    match child.resolve source limit state with
    | .ok (text, state) =>
      (resolveList source limit rest state).map fun (texts, state) => (text ++ texts, state)
    | .error e => .error e

end

end Segment

end PromptMarkup
