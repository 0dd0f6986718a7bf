import Mathlib.Data.List.Nodup
import PromptMarkup.Library.Folder
import PromptMarkup.Proofs.MapKeys

/-!
# Trees of folders

In a tree of folders no folder has two entries of one name, so each path leads to one entry at
most.  The walk through a folder comes to every entry below it once, whatever the order in which
the folders list what they hold.

Main statements:

- {lit}`mem_everything_iff`: the walk comes to what lies at the paths of the tree.
- {lit}`nodup_everything_paths`: the walk comes to each path once.
-/

namespace PromptMarkup

namespace Entry

/-- A file, or a folder of trees with different names. -/
inductive IsTree : Entry → Prop where
  | file (content : ByteArray) : IsTree (.file content)
  | folder {entries : List (Text × Entry)} (hnames : (Assoc.keys entries).Nodup)
      (hinner : ∀ entry ∈ entries, IsTree entry.2) : IsTree (.folder entries)

/-- Every entry comes before what lies in it. -/
theorem everythingIn_eq (above : List Text) (entries : List (Text × Entry)) :
    everythingIn above entries = entries.flatMap fun entry =>
      (above ++ [entry.1], entry.2) :: everything (above ++ [entry.1]) entry.2 := by
  induction entries with
  | nil => rfl
  | cons entry rest ih => rw [everythingIn, ih, List.flatMap_cons, List.cons_append]

/-- A path into a folder leads on from the entry of its first name. -/
theorem at?_folder_cons {entries : List (Text × Entry)} (hnames : (Assoc.keys entries).Nodup)
    {name : Text} {path : List Text} {inner : Entry} :
    (Entry.folder entries).at? (name :: path) = some inner ↔
      ∃ entry, (name, entry) ∈ entries ∧ entry.at? path = some inner := by
  constructor
  · intro h
    cases hget : Assoc.get? name entries with
    | none => simp only [at?, Entry.entries, hget, reduceCtorEq] at h
    | some entry =>
      simp only [at?, Entry.entries, hget] at h
      exact ⟨entry, Assoc.mem_of_get?_eq_some hget, h⟩
  · rintro ⟨entry, hentry, hinner⟩
    have hget : Assoc.get? name entries = some entry := Assoc.get?_of_mem hnames hentry
    simp only [at?, Entry.entries, hget, hinner]

/-- The walk through a tree comes to what lies at the paths of the tree. -/
theorem mem_everything_iff {entry : Entry} (h : entry.IsTree) {above path : List Text}
    {inner : Entry} :
    (path, inner) ∈ entry.everything above ↔
      ∃ rest, rest ≠ [] ∧ path = above ++ rest ∧ entry.at? rest = some inner := by
  induction h generalizing above with
  | file content =>
    refine iff_of_false nofun ?_
    rintro ⟨_ | ⟨name, rest⟩, hne, -, hinner⟩
    · exact hne rfl
    · cases hinner
  | @folder entries hnames _ ih =>
    rw [everything, everythingIn_eq, List.mem_flatMap]
    constructor
    · rintro ⟨⟨name, entry⟩, hentry, hmem⟩
      rcases List.mem_cons.mp hmem with heq | hmem
      · cases heq
        exact ⟨[name], List.cons_ne_nil _ _, rfl,
          (at?_folder_cons hnames).mpr ⟨entry, hentry, rfl⟩⟩
      · rcases (ih _ hentry).mp hmem with ⟨rest, -, rfl, hinner⟩
        exact ⟨name :: rest, List.cons_ne_nil _ _, by simp,
          (at?_folder_cons hnames).mpr ⟨entry, hentry, hinner⟩⟩
    · rintro ⟨_ | ⟨name, rest⟩, hne, rfl, hinner⟩
      · exact absurd rfl hne
      · rcases (at?_folder_cons hnames).mp hinner with ⟨entry, hentry, hinner⟩
        refine ⟨(name, entry), hentry, ?_⟩
        rcases eq_or_ne rest [] with rfl | hrest
        · cases hinner
          exact List.mem_cons_self
        · refine List.mem_cons_of_mem _ ((ih _ hentry).mpr ⟨rest, hrest, by simp, hinner⟩)

/-- The walk through a tree comes to each path once. -/
theorem nodup_everything_paths {entry : Entry} (h : entry.IsTree) (above : List Text) :
    ((entry.everything above).map (·.1)).Nodup := by
  induction h generalizing above with
  | file content => exact List.nodup_nil
  | @folder entries hnames hinner ih =>
    rw [everything, everythingIn_eq, List.map_flatMap, List.nodup_flatMap]
    -- All that an entry contributes lies at paths through its name.
    have hthrough : ∀ entry ∈ entries, ∀ path ∈
        ((above ++ [entry.1], entry.2) :: everything (above ++ [entry.1]) entry.2).map (·.1),
        ∃ rest, path = above ++ entry.1 :: rest := by
      intro entry hentry path hpath
      rcases List.mem_cons.mp hpath with rfl | hpath
      · exact ⟨[], rfl⟩
      · rcases List.mem_map.mp hpath with ⟨⟨path, inner⟩, hmem, rfl⟩
        rcases (mem_everything_iff (hinner entry hentry)).mp hmem with ⟨rest, -, rfl, -⟩
        exact ⟨rest, by simp⟩
    constructor
    · intro entry hentry
      refine List.nodup_cons.mpr ⟨fun hmem => ?_, ih entry hentry _⟩
      rcases List.mem_map.mp hmem with ⟨⟨path, inner⟩, hmem, heq⟩
      rcases (mem_everything_iff (hinner entry hentry)).mp hmem with ⟨rest, hne, rfl, -⟩
      exact hne (by simpa using heq)
    · refine (List.pairwise_map.mp hnames).imp_of_mem fun {first second} hfirst hsecond hne => ?_
      refine List.disjoint_left.mpr fun path hpath hother => ?_
      rcases hthrough first hfirst path hpath with ⟨rest, rfl⟩
      rcases hthrough second hsecond _ hother with ⟨rest', heq⟩
      exact hne (List.cons.inj (List.append_cancel_left heq)).1

end Entry

end PromptMarkup
