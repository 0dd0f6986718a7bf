import PromptMarkup.Library.Folder
import PromptMarkup.Text.LetterCase

/-!
# Categories of presets

Folders whose names begin with {lit}`wildcards` are offered as libraries under a
label: the rest of the name in upper case, and {lit}`Default` where there is no
rest.  The plain name is always offered, as the first.
-/

namespace PromptMarkup

/-- How the names of folders of presets begin. -/
def categoryStem : Text := "wildcards".toList

/-- The label of a folder. -/
def categoryLabel (name : Text) : Text :=
  match (name.drop categoryStem.length).dropWhile fun c => c == '_' || c == '-' with
  | [] => "Default".toList
  | suffix => upper suffix

/-- The names of the folders of presets in a folder, in order, the plain name first
whether it is there or not. -/
def categoryFolders (base : Entry) : List Text :=
  let names := (base.entries.filter fun (name, entry) =>
    entry.isFolder && categoryStem.isPrefixOf name).map (·.1)
  categoryStem :: (names.mergeSort fun a b => !textBefore b a).erase categoryStem

/-- The categories on offer: the labels in order, the folder of each label, and the
hint that goes with them. -/
structure Categories where
  labels : List Text
  folders : Assoc Text Text
  tooltip : String

/-- The hint for the choice of a category. -/
def categoryTooltip : String :=
  "Select which wildcards folder to use. Create alternate folders named " ++
    "'wildcards_*' (eg. 'wildcards_fresh') inside the package root."

/-- The categories in a folder.  Of two folders with one label the later counts. -/
def Categories.of (base : Entry) : Categories :=
  let names := categoryFolders base
  { labels := names.map categoryLabel
    folders := names.foldl (fun folders name => folders.set (categoryLabel name) name) []
    tooltip := categoryTooltip }

/-- The categories in the folder at a path; where there is no folder, only the plain
name is on offer. -/
def Categories.atPath (base : Entry) (path : Text) : Except PathError Categories :=
  match base.resolve path with
  | .ok entry => .ok (.of entry)
  | .error .nullCharacter => .error .nullCharacter
  | .error _ => .ok (.of (.folder []))

end PromptMarkup
