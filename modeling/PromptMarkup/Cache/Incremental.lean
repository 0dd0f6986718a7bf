import PromptMarkup.Cache.Basic
import PromptMarkup.Render.Compile

/-!
# Incremental compilation

An edit changes a tree only on the paths from the root to the segments it touched.
Incremental compilation forgets the texts on those paths and everything that hangs
on their ends, and takes all other texts from the cache.  Choices depend on the
place of a segment in the document, so a tree with every choice made is compiled
without the cache.  Otherwise no segment of the tree may be missing.
-/

namespace PromptMarkup

mutual

/-- The paths of identifiers from the root down to each changed node, in document
order, after the path above the tree. -/
def Segment.affectedPaths (changed above : List NodeId) :
    Segment NodeId → List (List NodeId)
  | .missing => []
  | .leaf head => if head.id ∈ changed then [above ++ [head.id]] else []
  | .branch head children =>
    let path := above ++ [head.id]
    (if head.id ∈ changed then [path] else []) ++ affectedPathsList changed path children

/-- The paths down to each changed node of a list of trees. -/
def Segment.affectedPathsList (changed above : List NodeId) :
    List (Segment NodeId) → List (List NodeId)
  | [] => []
  | child :: rest =>
    Segment.affectedPaths changed above child ++ affectedPathsList changed above rest

end

/-- The paths down to each changed node of a tree in which no segment is missing. -/
def Segment.checkedPaths (root : Segment NodeId) (changed : List NodeId) :
    Except EditError (List (List NodeId)) :=
  if root.isWhole then .ok (root.affectedPaths changed []) else .error .missingSegment

namespace Cache

/-- Forget what a path to a changed node makes stale: all below its end, and the
texts of the segments above. -/
def invalidatePath (cache : Cache) (path : List NodeId) : Cache :=
  match path.getLast? with
  | none => cache
  | some last => path.dropLast.foldl invalidate (cache.invalidateTree last)

/-- Finish a segment whose text was not found: write it and keep it. -/
def finish (options : CompileOptions) (head : Head NodeId) (inner : Text) (cache : Cache) :
    Except RenderError Text × Cache :=
  match head.kind.render inner with
  | .ok text => (.ok text, cache.set (.of head.id options) text)
  | .error e => (.error e, cache)

/-- Record that a segment depends on a child that is there. -/
def dependOn (cache : Cache) (parent : NodeId) (child : Segment NodeId) : Cache :=
  match child.id? with
  | none => cache
  | some id => cache.depend parent id

mutual

/-- The text of a tree, from the cache where it has one.  The dependency on a child
is recorded before the child is compiled, and what was recorded and kept stays even
when a later segment has no text. -/
def compileTree (options : CompileOptions) (segment : Segment NodeId) (cache : Cache) :
    Except RenderError Text × Cache :=
  match segment with
  | .missing => (.ok [], cache)
  | .leaf head =>
    match cache.get (.of head.id options) with
    | (some text, cache) => (.ok text, cache)
    | (none, cache) => finish options head [] cache
  | .branch head children =>
    match cache.get (.of head.id options) with
    | (some text, cache) => (.ok text, cache)
    | (none, cache) =>
      match compileChildren options head.id children cache with
      | (.ok inner, cache) => finish options head inner cache
      | (.error e, cache) => (.error e, cache)

/-- The text of the children of a segment, one after the other. -/
def compileChildren (options : CompileOptions) (parent : NodeId) (children : List (Segment NodeId))
    (cache : Cache) : Except RenderError Text × Cache :=
  match children with
  | [] => (.ok [], cache)
  | child :: rest =>
    match compileTree options child (cache.dependOn parent child) with
    | (.ok text, cache) =>
      match compileChildren options parent rest cache with
      | (.ok texts, cache) => (.ok (text ++ texts), cache)
      | (.error e, cache) => (.error e, cache)
    | (.error e, cache) => (.error e, cache)

end

/-- Compile a tree that is there, forgetting first what the changes made stale. -/
def compileChanged (cache : Cache) (options : CompileOptions) (changed : List NodeId)
    (root : Segment NodeId) : Except RenderError Text × Cache :=
  compileTree options root ((root.affectedPaths changed []).foldl invalidatePath cache)

/-- Compile a tree incrementally. -/
def incremental (cache : Cache) (surroundings : Surroundings) (options : Option CompileOptions)
    (changed : List NodeId) (root : Segment NodeId) : Except CompileError Text × Cache :=
  match root with
  | .missing => (.error (.invalid .rootRequired), cache)
  | root =>
    match surroundings.optionsFor options with
    | .error e => (.error e, cache)
    | .ok options =>
      if options.expandWildcards then (compileWith surroundings options root, cache)
      else if !root.isWhole then (.error .missingSegment, cache)
      else
        match cache.compileChanged options changed root with
        | (.ok text, cache) => (.ok text, cache)
        | (.error e, cache) => (.error (.render e), cache)

end Cache

end PromptMarkup
