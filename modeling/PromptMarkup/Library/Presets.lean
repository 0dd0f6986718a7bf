import PromptMarkup.Library.ValueFile
import PromptMarkup.Segment.Walk
import PromptMarkup.Text.LetterCase

/-!
# Preset libraries

A library gives the values of presets by lower-cased names.  It is read from a
folder: every entry at any depth whose name ends in {lit}`.txt` is a preset named
by the rest, and of several with one name the first path counts.
-/

namespace PromptMarkup

/-- Values by the names of presets; a name may also be known to have none given. -/
abbrev Library := Assoc Text (Option (List Text))

/-- How the names of files of values end. -/
def valueSuffix : Text := ['.', 't', 'x', 't']

/-- The name of a preset from the name of its file; a name that is only the ending is
kept. -/
def fileStem (name : Text) : Text :=
  if name.length ≤ valueSuffix.length then name
  else name.take (name.length - valueSuffix.length)

/-- Whether a path comes before another, name by name. -/
def pathBefore (p q : List Text) : Bool :=
  p.lex q textBefore

/-- The files of values in a folder, in the order of their paths. -/
def valueFiles (folder : Entry) : List (List Text × Entry) :=
  ((folder.everything []).filter fun (path, _) =>
    match path.getLast? with
    | some name => valueSuffix.isSuffixOf name
    | none => false).mergeSort fun a b => !pathBefore b.1 a.1

/-- Add a file of values to a library that has none of its name. -/
def addValueFile (library : Library) (file : List Text × Entry) : Library :=
  let name := lower (fileStem (file.1.getLast?.getD []))
  match library.get? name with
  | some _ => library
  | none => library ++ [(name, some file.2.values)]

/-- The library of a folder. -/
def Library.ofFolder (folder : Entry) : Library :=
  (valueFiles folder).foldl addValueFile []

/-- The library of the folder at a path, empty if there is no folder. -/
def Library.atPath (base : Entry) (path : Text) : Except PathError Library :=
  match base.resolve path with
  | .ok entry => .ok (Library.ofFolder entry)
  | .error .tooLong => .error .tooLong
  | .error _ => .ok []

namespace Segment

variable {ι : Type}

/-- A segment with values stored in its metadata. -/
def storeValues (head : Head ι) (values : List Text) : Head ι :=
  { head with
    metadata := some ((head.metadata.getD []).set "values" (.list (values.map .str))) }

/-- Store the values that a library has for a preset; any other segment stays. -/
def injectNode (library : Library) (segment : Segment ι) : Segment ι :=
  match segment.head? with
  | some head =>
    match head.kind with
    | .preset name _ _ =>
      match library.get? (lower name) with
      | some (some values) => ofHead (storeValues head values) segment.children?
      | _ => segment
    | _ => segment
  | none => segment

/-- Store the values that a library has for the presets of a tree. -/
def inject (library : Library) (root : Segment ι) : Segment ι :=
  root.mapNodes (injectNode library)

/-- Store the values of a library for the presets of a tree in which no segment is
missing; an empty library leaves any tree alone. -/
def checkedInject (library : Library) (root : Segment ι) : Except EditError (Segment ι) :=
  if library.isEmpty then .ok root else root.rebuild (injectNode library)

end Segment

end PromptMarkup
