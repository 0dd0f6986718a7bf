import PromptMarkup.Bracket

/-!
# Segments

A prompt is a tree of segments.  A segment is plain text, a weighted span, a
preset (a name for values kept elsewhere), or an inline wildcard (a choice of
options); a segment of unknown kind only holds its children.  Nothing here is
checked: a damaged segment, with a field that holds something else than it
should, is still a segment, and so is one that is missing.

The type of the identifiers is a parameter.  A tree read from text has none yet,
and its nodes get fresh ones when it is labelled.
-/

namespace PromptMarkup

/-- The kinds of segment that can be made. -/
inductive SegmentType where
  | text
  | weighted
  | preset
  | inlineWildcard
deriving DecidableEq, Repr

/-- The name of a kind of segment. -/
def SegmentType.name : SegmentType → String
  | .text => "text"
  | .weighted => "weighted"
  | .preset => "preset"
  | .inlineWildcard => "inline_wildcard"

/-- How fresh identifiers of a kind of segment begin. -/
def SegmentType.tag : SegmentType → String
  | .text => "txt"
  | .weighted => "wgt"
  | .preset => "pre"
  | .inlineWildcard => "wld"

/-- The identifier of a segment: a given name, or a fresh identifier that differs
from every name and from every fresh one with another number. -/
inductive NodeId where
  | named (name : String)
  | fresh (type : SegmentType) (serial : Nat)
deriving DecidableEq, Repr

/-- Whether an identifier is the empty name. -/
def NodeId.isEmpty (id : NodeId) : Bool :=
  id = .named ""

/-- Where the value of a preset comes from. -/
inductive PresetMode where
  | random
  | fixed
deriving DecidableEq, Repr

/-- The name of a preset mode. -/
def PresetMode.name : PresetMode → String
  | .random => "random"
  | .fixed => "fixed"

/-- A preset mode as a value. -/
def PresetMode.toValue (mode : PresetMode) : Value :=
  .ofString mode.name

/-- The preset mode that a value names. -/
def PresetMode.ofValue? (value : Value) : Option PresetMode :=
  if value = .ofString "random" then some .random
  else if value = .ofString "fixed" then some .fixed
  else none

/-- What is stored in a field: a value of the field's type, or whatever else was
put there. -/
inductive Stored (α : Type) where
  | valid (a : α)
  | damaged (raw : Value)
deriving DecidableEq

/-- The value that stands in a field. -/
def Stored.raw {α : Type} (write : α → Value) : Stored α → Value
  | .valid a => write a
  | .damaged raw => raw

/-- What a segment says by itself, without its children. -/
inductive Kind where
  | text (content : Option Text)
  | weighted (bracketType : Stored BracketType) (level : Stored Int)
  | preset (name : Text) (mode : Stored PresetMode) (selected : Option Text)
  | inlineWildcard (options : List Value)
  | unknown
deriving DecidableEq

/-- The type of a kind, if it is known. -/
def Kind.type? : Kind → Option SegmentType
  | .text _ => some .text
  | .weighted .. => some .weighted
  | .preset .. => some .preset
  | .inlineWildcard _ => some .inlineWildcard
  | .unknown => none

/-- The part of a segment that is its own. -/
structure Head (ι : Type) where
  id : ι
  kind : Kind
  metadata : Option Object
deriving DecidableEq

/-- A segment of a prompt tree. -/
inductive Segment (ι : Type) where
  /-- No segment stands where one should. -/
  | missing
  /-- A segment without a list of children. -/
  | leaf (head : Head ι)
  /-- A segment with a list of children, which may be empty. -/
  | branch (head : Head ι) (children : List (Segment ι))
deriving Inhabited

namespace Segment

variable {ι : Type}

/-- A property of all segments follows from the children of each. -/
@[elab_as_elim, induction_eliminator]
theorem induction {motive : Segment ι → Prop} (missing : motive .missing)
    (leaf : ∀ head, motive (.leaf head))
    (branch : ∀ head children, (∀ child ∈ children, motive child) →
      motive (.branch head children))
    (segment : Segment ι) : motive segment :=
  match segment with
  | .missing => missing
  | .leaf head => leaf head
  | .branch head children =>
    branch head children fun child _ => induction missing leaf branch child

/-! ## Equality -/

mutual

/-- Equality of segments is decidable. -/
def decEq [DecidableEq ι] : (s t : Segment ι) → Decidable (s = t)
  | .missing, .missing => isTrue rfl
  | .leaf h, .leaf k => if e : h = k then isTrue (by rw [e]) else isFalse (by simpa using e)
  | .branch h cs, .branch k ds =>
    match (inferInstance : Decidable (h = k)), decEqList cs ds with
    | isTrue e, isTrue es => isTrue (by rw [e, es])
    | isFalse e, _ => isFalse (by simp [e])
    | _, isFalse es => isFalse (by simp [es])
  | .missing, .leaf _ | .missing, .branch .. | .leaf _, .missing | .leaf _, .branch ..
  | .branch .., .missing | .branch .., .leaf _ => isFalse nofun

/-- Equality of lists of segments is decidable. -/
def decEqList [DecidableEq ι] : (ss ts : List (Segment ι)) → Decidable (ss = ts)
  | [], [] => isTrue rfl
  | [], _ :: _ | _ :: _, [] => isFalse nofun
  | s :: ss, t :: ts =>
    match decEq s t, decEqList ss ts with
    | isTrue e, isTrue es => isTrue (by rw [e, es])
    | isFalse e, _ => isFalse (by simp [e])
    | _, isFalse es => isFalse (by simp [es])

end

instance [DecidableEq ι] : DecidableEq (Segment ι) := decEq

/-! ## Parts -/

/-- The head of a segment that is there. -/
def head? : Segment ι → Option (Head ι)
  | .missing => none
  | .leaf head => some head
  | .branch head _ => some head

/-- The identifier of a segment that is there. -/
def id? (segment : Segment ι) : Option ι :=
  segment.head?.map (·.id)

/-- The children of a segment. -/
def children : Segment ι → List (Segment ι)
  | .missing => []
  | .leaf _ => []
  | .branch _ children => children

/-- The list of children of a segment, and nothing where there is no list. -/
def children? : Segment ι → Option (List (Segment ι))
  | .missing => none
  | .leaf _ => none
  | .branch _ children => some children

/-- Assemble a segment from its head and its list of children. -/
def ofHead (head : Head ι) : Option (List (Segment ι)) → Segment ι
  | none => .leaf head
  | some children => .branch head children

/-- A segment that is put together has its head. -/
@[simp] theorem head?_ofHead (head : Head ι) (children : Option (List (Segment ι))) :
    (ofHead head children).head? = some head := by
  cases children <;> rfl

/-- A segment that is put together has its children. -/
@[simp] theorem children?_ofHead (head : Head ι) (children : Option (List (Segment ι))) :
    (ofHead head children).children? = children := by
  cases children <;> rfl

/-- Replace the children of a segment that is there. -/
def withChildren (segment : Segment ι) (children : List (Segment ι)) : Segment ι :=
  match segment.head? with
  | none => .missing
  | some head => .branch head children

/-! ## Nodes in document order -/

mutual

/-- The segments of a tree, each before its children.  A missing segment stands at
its place like any other. -/
def nodes : Segment ι → List (Segment ι)
  | .missing => [.missing]
  | .leaf head => [.leaf head]
  | .branch head children => .branch head children :: nodesList children

/-- The nodes of a list of trees, one tree after the other. -/
def nodesList : List (Segment ι) → List (Segment ι)
  | [] => []
  | child :: rest => child.nodes ++ nodesList rest

end

/-- Whether a segment is there. -/
def isPresent : Segment ι → Bool
  | .missing => false
  | .leaf _ => true
  | .branch .. => true

/-- Whether no segment of a tree is missing. -/
def isWhole (root : Segment ι) : Bool :=
  root.nodes.all isPresent

/-- The identifiers of a tree, each before those of its children. -/
def ids (segment : Segment ι) : List ι :=
  segment.nodes.filterMap id?

end Segment

end PromptMarkup
