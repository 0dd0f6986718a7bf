import PromptMarkup.Assoc
import PromptMarkup.Text.Basic

/-!
# Folders

A folder holds files and other folders under their names.  A path is the list of
the names on the way, and paths are compared name by name.

A path that is written with slashes is followed from a folder name by name.  An empty
name or a single point stays in the folder, two points lead back to the folder above,
and nothing is reached through a file.
-/

namespace PromptMarkup

/-- A file with its bytes, or a folder. -/
inductive Entry where
  | file (content : ByteArray)
  | folder (entries : List (Text × Entry))

/-- Why a path leads to no entry. -/
inductive PathError where
  /-- The path has a null character in it. -/
  | nullCharacter
  /-- The path, or a name on it, is longer than it may be. -/
  | tooLong
  /-- A folder has no entry under the name. -/
  | absent
  /-- A name is looked up in a file. -/
  | notFolder
deriving DecidableEq, Repr

/-- The greatest number of bytes in a name. -/
def maxNameBytes : Nat := 255

/-- The greatest number of bytes in a path. -/
def maxPathBytes : Nat := 4095

/-- The number of bytes of a text. -/
def byteCount (text : Text) : Nat :=
  (String.ofList text).utf8ByteSize

namespace Entry

/-- What a folder holds; a file holds nothing. -/
def entries : Entry → Assoc Text Entry
  | .file _ => []
  | .folder entries => entries

/-- Whether an entry is a folder. -/
def isFolder : Entry → Bool
  | .file _ => false
  | .folder _ => true

/-- The entry at a path. -/
def at? : Entry → List Text → Option Entry
  | entry, [] => some entry
  | entry, name :: path =>
    match entry.entries.get? name with
    | none => none
    | some inner => inner.at? path

/-- Follow names from an entry, given the folders above it, the nearest first. -/
def follow (above : List Entry) (entry : Entry) : List Text → Except PathError Entry
  | [] => .ok entry
  | name :: path =>
    if !entry.isFolder then .error .notFolder
    else if name = [] ∨ name = ['.'] then follow above entry path
    else if name = ['.', '.'] then
      match above with
      | [] => .error .absent
      | parent :: above => follow above parent path
    else if maxNameBytes < byteCount name then .error .tooLong
    else
      match entry.entries.get? name with
      | none => .error .absent
      | some inner => follow (entry :: above) inner path

/-- The entry that a path leads to from a folder.  A path from the root of everything
leads out of the folder. -/
def resolve (base : Entry) (path : Text) : Except PathError Entry :=
  if '\x00' ∈ path then .error .nullCharacter
  else if path.head? = some '/' then .error .absent
  else if maxPathBytes < byteCount path then .error .tooLong
  else follow [] base (path.splitOn '/')

/-- Put an entry at a path, making the folders on the way.  A folder that is there
already is kept. -/
def put (new : Entry) : List Text → Entry → Entry
  | [], old => if new.isFolder && old.isFolder then old else new
  | name :: path, old =>
    let inner := (old.entries.get? name).getD (.folder [])
    .folder (old.entries.set name (put new path inner))

/-- The names on a path that is written with slashes; empty names and single points
lead nowhere, and two points lead back over a name. -/
def pathNames (path : Text) : List Text :=
  (path.splitOn '/').foldl
    (fun names name =>
      if name = [] ∨ name = ['.'] then names
      else if name = ['.', '.'] ∧ names ≠ [] ∧ names.getLast? ≠ some ['.', '.'] then
        names.dropLast
      else names ++ [name])
    []

mutual

/-- Everything in a folder at any depth, with its path after the path of the
folder. -/
def everything (above : List Text) : Entry → List (List Text × Entry)
  | .file _ => []
  | .folder entries => everythingIn above entries

/-- Everything in a list of entries at any depth. -/
def everythingIn (above : List Text) : List (Text × Entry) → List (List Text × Entry)
  | [] => []
  | (name, entry) :: rest =>
    (above ++ [name], entry) ::
      (everything (above ++ [name]) entry ++ everythingIn above rest)

end

end Entry

end PromptMarkup
