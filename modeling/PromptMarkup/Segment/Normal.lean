import PromptMarkup.Error

/-!
# Normal form

Plain text is a text segment without children.  A tree is brought to normal form
by joining neighbouring plain texts into the first of them and dropping empty
ones, at every level.  A text with children is left as it is, since its content
stands before its children.  A pass may also note whether it changed anything.

The checked operations do the same for a tree whose segments and contents are there,
and break off where one is missing.
-/

namespace PromptMarkup.Segment

variable {ι : Type}

/-- The content of plain text: of a text segment without children. -/
def plainText? : Segment ι → Option Text
  | .leaf ⟨_, .text content, _⟩ => content
  | .branch ⟨_, .text content, _⟩ [] => content
  | _ => none

/-- Replace the content of a text segment. -/
def withContent (segment : Segment ι) (content : Text) : Segment ι :=
  match segment with
  | .leaf ⟨id, .text _, metadata⟩ => .leaf ⟨id, .text (some content), metadata⟩
  | .branch ⟨id, .text _, metadata⟩ children =>
    .branch ⟨id, .text (some content), metadata⟩ children
  | other => other

/-- Join each run of plain texts into its first, given the segment before. -/
def mergeAfter (previous : Segment ι) : List (Segment ι) → List (Segment ι)
  | [] => [previous]
  | segment :: rest =>
    match previous.plainText?, segment.plainText? with
    | some before, some content => mergeAfter (previous.withContent (before ++ content)) rest
    | _, _ => previous :: mergeAfter segment rest

/-- Join each run of plain texts into its first. -/
def mergeRuns : List (Segment ι) → List (Segment ι)
  | [] => []
  | segment :: rest => mergeAfter segment rest

/-- Whether a segment is plain text, with content or without. -/
def isPlain : Segment ι → Bool
  | .leaf ⟨_, .text _, _⟩ => true
  | .branch ⟨_, .text _, _⟩ [] => true
  | _ => false

/-- Whether two segments are plain texts that cannot be joined, as a content is
missing. -/
def isBrokenPair (s t : Segment ι) : Bool :=
  s.isPlain && t.isPlain && (s.plainText?.isNone || t.plainText?.isNone)

/-- Whether some neighbours in a list cannot be joined. -/
def hasBrokenPair : List (Segment ι) → Bool
  | s :: t :: rest => s.isBrokenPair t || hasBrokenPair (t :: rest)
  | _ => false

/-- Join the runs of plain texts among the children of a segment, and say whether
there were any. -/
def mergeChildren (parent : Segment ι) : Segment ι × Bool :=
  match parent with
  | .branch head children =>
    let merged := mergeRuns children
    if merged.length < children.length then (.branch head merged, true) else (parent, false)
  | other => (other, false)

/-- Join the runs of plain texts among the children of a segment that is there. -/
def checkedMerge (parent : Segment ι) : Except EditError (Segment ι × Bool) :=
  if !parent.isPresent then .error .missingSegment
  else if hasBrokenPair parent.children then .error .missingContent
  else .ok parent.mergeChildren

/-- Whether a segment is plain text with empty content. -/
def isEmptyText (segment : Segment ι) : Bool :=
  segment.plainText? = some []

mutual

/-- Bring a tree to normal form, from its leaves up. -/
def normalize : Segment ι → Segment ι
  | .missing => .missing
  | .leaf head => .leaf head
  | .branch head children =>
    .branch head (mergeRuns ((normalizeList children).filter fun child => !child.isEmptyText))

/-- Bring each tree of a list to normal form. -/
def normalizeList : List (Segment ι) → List (Segment ι)
  | [] => []
  | child :: rest => child.normalize :: normalizeList rest

end

mutual

/-- Bring a tree to normal form and note whether something was dropped or joined on the way.  If
nothing was, the tree is given back as it stands. -/
def normalizeNoting : Segment ι → Segment ι × Bool
  | .missing => (.missing, false)
  | .leaf head => (.leaf head, false)
  | .branch head children =>
    let (trees, changed) := normalizeNotingList children
    let kept := trees.filter fun child => !child.isEmptyText
    let merged := mergeRuns kept
    if changed || decide (kept.length < trees.length) || decide (merged.length < kept.length) then
      (.branch head merged, true)
    else (.branch head children, false)

/-- Bring each tree of a list to normal form and note whether something was dropped or joined in
one of them. -/
def normalizeNotingList : List (Segment ι) → List (Segment ι) × Bool
  | [] => ([], false)
  | child :: rest =>
    let (tree, changed) := child.normalizeNoting
    let (trees, others) := normalizeNotingList rest
    (tree :: trees, changed || others)

end

mutual

/-- What breaks off the way to normal form, if something does: the first missing
part in the order from the leaves up. -/
def normalizeError? : Segment ι → Option EditError
  | .missing => some .missingSegment
  | .leaf _ => none
  | .branch _ children =>
    match normalizeErrorIn? children with
    | some e => some e
    | none =>
      if hasBrokenPair ((normalizeList children).filter fun child => !child.isEmptyText) then
        some .missingContent
      else none

/-- What breaks off the way to normal form in a list of trees. -/
def normalizeErrorIn? : List (Segment ι) → Option EditError
  | [] => none
  | child :: rest => child.normalizeError? <|> normalizeErrorIn? rest

end

/-- Bring a tree to normal form, unless something in it is missing. -/
def checkedNormalize (root : Segment ι) : Except EditError (Segment ι) :=
  match root.normalizeError? with
  | some e => .error e
  | none => .ok root.normalize

end PromptMarkup.Segment
