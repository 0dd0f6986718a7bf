import PromptMarkup.Error

/-!
# Structural edits

Insertion, removal and splitting of segments.  A removal looks at all children of
a segment before it looks below any of them, and breaks off when it comes to one
that is missing.
-/

namespace PromptMarkup.Segment

variable {ι : Type}

/-! ## Insertion -/

/-- Insert a child before the one at an index, or at the end when there is none at
that index. -/
def insertChild (parent node : Segment ι) (index : Option Int) : Segment ι :=
  let children := parent.children
  match index with
  | none => parent.withChildren (children ++ [node])
  | some index =>
    if index < 0 ∨ (children.length : Int) ≤ index then parent.withChildren (children ++ [node])
    else
      parent.withChildren
        (children.take index.toNat ++ node :: children.drop index.toNat)

/-- The index that a value stands for among a number of children: that of an integer
or a truth value, and the end for nothing and for a number out of range. -/
def insertionIndex (count : Nat) : Value → Except EditError (Option Int)
  | .null => .ok none
  | .int n => .ok (some n)
  | .bool b => .ok (some b.toInt)
  | .float x =>
    if x.lt (.zero false) || (Binary64.ofInt count).le x then .ok none
    else .error .notAnIndex
  | _ => .error .notAnIndex

/-- Insert a child into a segment that is there. -/
def checkedInsert (parent node : Segment ι) (index : Value) : Except EditError (Segment ι) :=
  if !parent.isPresent then .error .missingSegment
  else (insertionIndex parent.children.length index).map (parent.insertChild node)

/-! ## Removal -/

/-- Remove the first segment of a list that has an identifier, if one has it. -/
def removeDirect [DecidableEq ι] (id : ι) :
    List (Segment ι) → Except EditError (Option (List (Segment ι)))
  | [] => .ok none
  | child :: rest =>
    match child.id? with
    | none => .error .missingSegment
    | some other =>
      if other = id then .ok (some rest)
      else (removeDirect id rest).map (·.map (child :: ·))

mutual

/-- Remove a segment below another one: a child if one has the identifier, else
the first found below the children in turn. -/
def removeBelow [DecidableEq ι] (id : ι) : Segment ι → Except EditError (Option (Segment ι))
  | .missing => .error .missingSegment
  | .leaf _ => .ok none
  | .branch head children =>
    match removeDirect id children with
    | .error e => .error e
    | .ok (some children) => .ok (some (.branch head children))
    | .ok none => (removeBelowList id children).map (·.map (.branch head))

/-- Remove a segment below one of a list, the first that has it. -/
def removeBelowList [DecidableEq ι] (id : ι) :
    List (Segment ι) → Except EditError (Option (List (Segment ι)))
  | [] => .ok none
  | child :: rest =>
    match removeBelow id child with
    | .error e => .error e
    | .ok (some child) => .ok (some (child :: rest))
    | .ok none => (removeBelowList id rest).map (·.map (child :: ·))

end

/-- Remove a segment below the root, and say whether there was one. -/
def remove [DecidableEq ι] (root : Segment ι) (id : ι) : Except EditError (Segment ι × Bool) :=
  (removeBelow id root).map fun
    | some root => (root, true)
    | none => (root, false)

/-! ## Splitting -/

/-- Split a text at an offset.  The left half keeps all but the rest of the
content, and the right half is a new text with that. -/
def splitText (segment : Segment ι) (position : Value) (fresh : ι) :
    Except EditError (Segment ι × Segment ι) :=
  match segment.head? with
  | some ⟨id, .text (some content), metadata⟩ =>
    match position with
    | .int (.ofNat offset) =>
      if offset ≤ content.length then
        .ok (ofHead ⟨id, .text (some (content.take offset)), metadata⟩ segment.children?,
          .leaf ⟨fresh, .text (some (content.drop offset)), none⟩)
      else .error (.invalid (.splitPosition position content.length))
    | _ => .error (.invalid (.splitPosition position content.length))
  | some ⟨_, .text none, _⟩ => .error .missingContent
  | _ => .error (.invalid .notText)

end PromptMarkup.Segment
