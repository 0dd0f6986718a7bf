import PromptMarkup.Cache.Incremental
import PromptMarkup.Library.Presets
import PromptMarkup.Markup.Document
import PromptMarkup.Segment.Edit
import PromptMarkup.Segment.Label
import PromptMarkup.Segment.Normal
import PromptMarkup.Segment.Patch

/-!
# Editing sessions

A session edits one tree step by step and compiles it along the way, with one cache
that lives through the steps.  A step that fails leaves the tree as it was.  What a
step edits is put back into the tree, and that needs a tree without missing segments.
-/

namespace PromptMarkup

/-- A node of the tree: the first with an identifier, or the one that a path of child
positions leads to. -/
inductive Target where
  | node (id : NodeId)
  | place (positions : List Int)

/-- The node that a target names. -/
def Target.find (root : Segment NodeId) :
    Target → Except EditError (Option (Segment NodeId))
  | .node id => root.find id
  | .place positions => root.follow positions

/-- A step of a session. -/
inductive Step where
  | read (text : Text)
  | update (target : Target) (patch : Patch NodeId)
  | insert (target : Target) (node : Segment NodeId) (index : Value)
  | remove (target : Target)
  | split (target : Target) (child : Int) (position : Value)
  | merge (target : Target)
  | normalize
  | inject (library : Library)
  | compile (options : Option (Except (List FieldFault) CompileOptions))
  | incremental (changed : List Target)
    (options : Option (Except (List FieldFault) CompileOptions))

/-- What a step answers. -/
inductive StepAnswer where
  /-- The tree after the step. -/
  | root (root : Segment NodeId)
  /-- The tree after the step, and whether the step changed it. -/
  | changed (root : Segment NodeId) (flag : Bool)
  /-- The text of the tree. -/
  | text (text : Text)
  /-- The text of the tree, compiled through the cache. -/
  | cachedText (text : Text)

/-- Why a step fails. -/
inductive StepError where
  | noSuchNode
  | edit (reason : EditError)
  | compile (reason : CompileError)

/-- A session: its tree, its cache, and the next number for fresh identifiers. -/
structure Session where
  root : Segment NodeId
  cache : Cache
  serial : Nat

namespace Session

/-- The outcome of a step and the session after it. -/
abbrev Outcome := Except StepError StepAnswer × Session

/-- A failed step. -/
def fail (session : Session) (error : StepError) : Outcome :=
  (.error error, session)

/-- The session with an edited tree, which is the answer. -/
def answerRoot (session : Session) : Except EditError (Segment NodeId) → Outcome
  | .ok root => (.ok (.root root), { session with root })
  | .error reason => session.fail (.edit reason)

/-- The session with an edited tree, which is the answer with a flag. -/
def answerChanged (session : Session) : Except EditError (Segment NodeId × Bool) → Outcome
  | .ok (root, flag) => (.ok (.changed root flag), { session with root })
  | .error reason => session.fail (.edit reason)

/-- The node that a target has to name. -/
def target (session : Session) (target : Target) : Except StepError (Segment NodeId) :=
  match target.find session.root with
  | .ok (some node) => .ok node
  | .ok none => .error .noSuchNode
  | .error reason => .error (.edit reason)

/-- Go on with the node that a target names. -/
def withTarget (session : Session) (target : Target) (go : Segment NodeId → Outcome) : Outcome :=
  match session.target target with
  | .ok node => go node
  | .error e => session.fail e

/-- The identifier of the node that a target names. -/
def targetId (session : Session) (target : Target) : Except StepError NodeId := do
  let node ← session.target target
  match node.id? with
  | some id => .ok id
  | none => .error (.edit .missingSegment)

/-- Split a text child of a node in two. -/
def splitChild (session : Session) (parent : Segment NodeId) (index : Int) (position : Value) :
    Outcome :=
  if !parent.isPresent then session.fail (.edit .missingSegment)
  else
    match parent.childAt? index with
    | none => session.fail .noSuchNode
    | some child =>
      match child.splitText position (.fresh .text session.serial) with
      | .error reason => session.fail (.edit reason)
      | .ok (left, right) =>
        let halves := (parent.withChildren (parent.children.set index.toNat left)).insertChild
          right (some (index + 1))
        match session.root.putBack halves with
        | .ok root => { session with serial := session.serial + 1 }.answerRoot (.ok root)
        | .error reason => session.fail (.edit reason)

/-- The options of a step, once they are read. -/
def optionsOf : Option (Except (List FieldFault) CompileOptions) →
    Except StepError (Option CompileOptions)
  | none => .ok none
  | some (.ok options) => .ok (some options)
  | some (.error faults) => .error (.compile (.options faults))

/-- Take a step. -/
def step (surroundings : Surroundings) (session : Session) : Step → Outcome
  | .read text =>
    let (root, serial) := (readPrompt text).label session.serial
    { session with serial }.answerRoot (.ok root)
  | .update target patch =>
    session.withTarget target fun node =>
      session.answerRoot (node.update patch >>= session.root.putBack)
  | .insert target node index =>
    session.withTarget target fun parent =>
      session.answerRoot (parent.checkedInsert node index >>= session.root.putBack)
  | .remove (.node id) => session.answerChanged (session.root.remove id)
  | .remove (.place positions) =>
    match session.targetId (.place positions) with
    | .ok id => session.answerChanged (session.root.remove id)
    | .error e => session.fail e
  | .split target child position =>
    session.withTarget target fun parent => session.splitChild parent child position
  | .merge target =>
    session.withTarget target fun parent =>
      session.answerChanged do
        let (merged, flag) ← parent.checkedMerge
        let root ← session.root.putBack merged
        .ok (root, flag)
  | .normalize =>
    session.answerChanged
      (session.root.checkedNormalize.map fun root => (root, decide (root ≠ session.root)))
  | .inject library => session.answerRoot (session.root.checkedInject library)
  | .compile options =>
    match optionsOf options with
    | .error e => session.fail e
    | .ok options =>
      match compile surroundings options session.root with
      | .ok text => (.ok (.text text), session)
      | .error e => session.fail (.compile e)
  | .incremental changed options =>
    match changed.mapM session.targetId, optionsOf options with
    | .error e, _ => session.fail e
    | .ok _, .error e => session.fail e
    | .ok ids, .ok options =>
      match session.cache.incremental surroundings options ids session.root with
      | (.ok text, cache) => (.ok (.cachedText text), { session with cache })
      | (.error e, cache) => { session with cache }.fail (.compile e)

end Session

end PromptMarkup
