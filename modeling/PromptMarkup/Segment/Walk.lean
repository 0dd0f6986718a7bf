import PromptMarkup.Error

/-!
# Walking a tree

Searches visit a segment before its children, and a rebuild changes the children
of a segment before the segment itself.  A walk breaks off when it comes to a
missing segment; a search that has found what it looks for goes no further.
-/

namespace PromptMarkup.Segment

variable {ι : Type}

/-! ## Searches -/

/-- The first of some nodes with an identifier, looked for one after the other. -/
def findIn [DecidableEq ι] (id : ι) :
    List (Segment ι) → Except EditError (Option (Segment ι))
  | [] => .ok none
  | node :: rest =>
    match node.id? with
    | none => .error .missingSegment
    | some other => if other = id then .ok (some node) else findIn id rest

/-- The first node in document order with an identifier. -/
def find [DecidableEq ι] (root : Segment ι) (id : ι) : Except EditError (Option (Segment ι)) :=
  findIn id root.nodes

/-- The nodes for which a test holds, in document order. -/
def findAll (root : Segment ι) (test : Segment ι → Bool) : Except EditError (List (Segment ι)) :=
  if root.isWhole then .ok (root.nodes.filter test) else .error .missingSegment

/-- The child at a position, counted from zero. -/
def childAt? (segment : Segment ι) : Int → Option (Segment ι)
  | .ofNat index => segment.children[index]?
  | .negSucc _ => none

/-- What stands where a path of child positions leads, a missing segment too; the
path does not go on from there. -/
def follow : Segment ι → List Int → Except EditError (Option (Segment ι))
  | segment, [] => .ok (some segment)
  | .missing, _ :: _ => .error .missingSegment
  | segment, index :: path =>
    match segment.childAt? index with
    | none => .ok none
    | some child => child.follow path

/-! ## Rebuilding -/

mutual

/-- Rebuild a tree, changing each node after its children. -/
def mapNodes (f : Segment ι → Segment ι) : Segment ι → Segment ι
  | .missing => .missing
  | .leaf head => f (.leaf head)
  | .branch head children => f (.branch head (mapNodesList f children))

/-- Rebuild each tree of a list. -/
def mapNodesList (f : Segment ι → Segment ι) : List (Segment ι) → List (Segment ι)
  | [] => []
  | child :: rest => child.mapNodes f :: mapNodesList f rest

end

/-- Rebuild a tree in which no segment is missing. -/
def rebuild (root : Segment ι) (f : Segment ι → Segment ι) : Except EditError (Segment ι) :=
  if root.isWhole then .ok (root.mapNodes f) else .error .missingSegment

mutual

/-- The identifiers of a tree in the order of a rebuild, each after those of its
children. -/
def rebuildOrder : Segment ι → List ι
  | .missing => []
  | .leaf head => [head.id]
  | .branch head children => rebuildOrderList children ++ [head.id]

/-- The identifiers of a list of trees in the order of a rebuild. -/
def rebuildOrderList : List (Segment ι) → List ι
  | [] => []
  | child :: rest => child.rebuildOrder ++ rebuildOrderList rest

end

/-- Put a node in the place of every node with its identifier. -/
def putBack [DecidableEq ι] (root node : Segment ι) : Except EditError (Segment ι) :=
  root.rebuild fun old => if old.id? = node.id? then node else old

end PromptMarkup.Segment
