import PromptMarkup.Proofs.FolderTrees
import PromptMarkup.Proofs.NameOrder

/-!
# Libraries of folders

The library of a folder gives each name of a preset the values of the first entry that has it, in
the order of paths.  A folder whose name ends like that of a file of values counts as an entry
without values, so it hides the files of its name that come after it.  Where no folder does that,
the library is the one of the files alone.

Main statements:

- {lit}`mem_valueFiles_iff`: the files of values are the entries with the name of a preset.
- {lit}`lists_files_iff`: when the library is that of the files alone.
- {lit}`Library.ofFolder_lists`: the library lists all entries, whatever order they are found in.
-/

namespace PromptMarkup

/-! ## Names of presets -/

/-- The name of the preset whose values lie at a path. -/
def presetName? (path : List Text) : Option Text :=
  match path.getLast? with
  | some name => if valueSuffix.isSuffixOf name then some (lower (fileStem name)) else none
  | none => none

/-- What a folder has at a path for the name of a preset. -/
structure Entry.Offers (folder : Entry) (key : Text) (path : List Text) (entry : Entry) : Prop where
  found : folder.at? path = some entry
  named : presetName? path = some key

/-- The first entry for the name of a preset among those that count, in the order of paths. -/
structure Entry.OffersFirst (folder : Entry) (counts : Entry → Bool) (key : Text)
    (path : List Text) (entry : Entry) : Prop where
  offers : folder.Offers key path entry
  counted : counts entry = true
  first : ∀ other inner, folder.Offers key other inner → counts inner = true →
    other = path ∨ pathBefore path other = true

/-- A library with the names of the entries that count, each with the values of the first one. -/
structure Library.Lists (library : Library) (folder : Entry) (counts : Entry → Bool) : Prop where
  distinct : library.keys.Nodup
  keys : ∀ key, key ∈ library.keys ↔
    ∃ path entry, folder.Offers key path entry ∧ counts entry = true
  values : ∀ key ∈ library.keys, ∃ path entry, folder.OffersFirst counts key path entry ∧
    library.get? key = some (some entry.values)

/-- Any entry counts. -/
def Entry.anyKind (_ : Entry) : Bool := true

/-- Only files count. -/
def Entry.isFile (entry : Entry) : Bool :=
  !entry.isFolder

/-- The walk through a tree comes to all that the tree has for the name of a preset. -/
theorem Entry.Offers.mem_everything {folder entry : Entry} (h : folder.IsTree) {key : Text}
    {path : List Text} (hoffers : folder.Offers key path entry) :
    (path, entry) ∈ folder.everything [] := by
  refine (Entry.mem_everything_iff h).mpr ⟨path, ?_, rfl, hoffers.found⟩
  rintro rfl
  cases hoffers.named

/-! ## Files of values -/

/-- The name that the values of an entry are filed under. -/
def filedName (path : List Text) : Text :=
  lower (fileStem (path.getLast?.getD []))

/-- The files of values that are filed under a name are the entries with that name of a preset. -/
theorem mem_valueFiles_iff {folder : Entry} (h : folder.IsTree) {key : Text} {path : List Text}
    {entry : Entry} :
    (path, entry) ∈ valueFiles folder ∧ filedName path = key ↔ folder.Offers key path entry := by
  rw [valueFiles, (List.mergeSort_perm _ _).mem_iff, List.mem_filter]
  constructor
  · rintro ⟨⟨hmem, hsuffix⟩, rfl⟩
    rcases (Entry.mem_everything_iff h).mp hmem with ⟨rest, -, hpath, hfound⟩
    rw [List.nil_append] at hpath
    subst hpath
    refine ⟨hfound, ?_⟩
    unfold presetName? filedName
    cases hlast : path.getLast? with
    | none => simp only [hlast, Bool.false_eq_true] at hsuffix
    | some name =>
      simp only [hlast] at hsuffix
      simp only [hsuffix, if_true, Option.getD_some]
  · intro hoffers
    have hmem := hoffers.mem_everything h
    have hnamed := hoffers.named
    unfold presetName? at hnamed
    unfold filedName
    split at hnamed
    · rename_i name hlast
      split at hnamed
      · rename_i hsuffix
        simp only [hlast, hsuffix, Option.getD_some]
        exact ⟨⟨hmem, trivial⟩, Option.some.inj hnamed⟩
      · cases hnamed
    · cases hnamed

/-- The files of values stand in the order of their paths, which are all different. -/
theorem pairwise_valueFiles {folder : Entry} (h : folder.IsTree) :
    (valueFiles folder).Pairwise fun a b => pathBefore a.1 b.1 = true := by
  refine pairwise_mergeSort_before pathBefore Prod.fst ?_
  exact (Entry.nodup_everything_paths h []).sublist (List.filter_sublist.map _)

/-- The first file of values that is filed under a name is the first entry of all with that
name. -/
theorem find?_valueFiles_iff {folder : Entry} (h : folder.IsTree) {key : Text}
    {path : List Text} {entry : Entry} :
    (valueFiles folder).find? (fun file => filedName file.1 = key) = some (path, entry) ↔
      folder.OffersFirst Entry.anyKind key path entry := by
  have hasymm : Std.Asymm fun a b : List Text × Entry => pathBefore a.1 b.1 = true :=
    ⟨fun a b => asymm_of (fun p q => pathBefore p q = true)⟩
  rw [find?_eq_some_iff_of_pairwise (pairwise_valueFiles h)]
  simp only [decide_eq_true_eq]
  constructor
  · rintro ⟨hmem, hnamed, hfirst⟩
    refine ⟨(mem_valueFiles_iff h).mp ⟨hmem, hnamed⟩, rfl, fun other inner hother _ => ?_⟩
    rcases (mem_valueFiles_iff h).mpr hother with ⟨hmem, hnamed⟩
    exact (hfirst (other, inner) hmem hnamed).imp_left (congrArg Prod.fst)
  · rintro ⟨hoffers, -, hfirst⟩
    rcases (mem_valueFiles_iff h).mpr hoffers with ⟨hmem, hnamed⟩
    refine ⟨hmem, hnamed, fun ⟨other, inner⟩ hother hnamed => ?_⟩
    have hinner := (mem_valueFiles_iff h).mp ⟨hother, hnamed⟩
    rcases hfirst other inner hinner rfl with rfl | hbefore
    · exact Or.inl (Prod.ext rfl (Option.some.inj (hinner.found.symm.trans hoffers.found)))
    · exact Or.inr hbefore

/-! ## Filing values -/

/-- A file of values does not count if there are values under its name. -/
theorem addValueFile_of_some {library : Library} {file : List Text × Entry}
    {values : Option (List Text)} (h : library.get? (filedName file.1) = some values) :
    addValueFile library file = library := by
  unfold filedName at h
  simp only [addValueFile, h]

/-- The values of a file are set under its name if there are none. -/
theorem addValueFile_of_none {library : Library} {file : List Text × Entry}
    (h : library.get? (filedName file.1) = none) :
    addValueFile library file = library.set (filedName file.1) (some file.2.values) := by
  rw [Assoc.set_eq_append fun hkey => Assoc.mem_keys_iff.mp hkey h]
  unfold filedName at h ⊢
  simp only [addValueFile, h]

/-- A file of values is filed under its name if nothing is filed there yet. -/
theorem get?_addValueFile (library : Library) (file : List Text × Entry) (key : Text) :
    (addValueFile library file).get? key = (library.get? key).or
      (if filedName file.1 = key then some (some file.2.values) else none) := by
  cases hfiled : library.get? (filedName file.1) with
  | some values =>
    rw [addValueFile_of_some hfiled]
    split
    · rename_i hkey
      rw [← hkey, hfiled, Option.some_or]
    · exact Option.or_none.symm
  | none =>
    rw [addValueFile_of_none hfiled, Assoc.get?_set]
    split
    · rename_i hkey
      rw [← hkey, hfiled, Option.none_or]
    · exact Option.or_none.symm

/-- Filing values keeps the names distinct. -/
theorem nodup_keys_addValueFile {library : Library} (h : library.keys.Nodup)
    (file : List Text × Entry) : (addValueFile library file).keys.Nodup := by
  cases hfiled : library.get? (filedName file.1) with
  | some values =>
    rw [addValueFile_of_some hfiled]
    exact h
  | none =>
    rw [addValueFile_of_none hfiled]
    exact Assoc.nodup_keys_set h _ _

/-- Of the values for one name the first are filed, unless there are some already. -/
theorem get?_foldl_addValueFile (files : List (List Text × Entry)) (library : Library)
    (key : Text) :
    (files.foldl addValueFile library).get? key = (library.get? key).or
      ((files.find? fun file => filedName file.1 = key).map fun file => some file.2.values) := by
  induction files generalizing library with
  | nil => exact Option.or_none.symm
  | cons file files ih =>
    rw [List.foldl_cons, ih, get?_addValueFile, Option.or_assoc, List.find?_cons]
    by_cases hkey : filedName file.1 = key
    · simp [hkey]
    · simp [hkey]

/-- A library has the values of the first file that is filed under a name. -/
theorem get?_ofFolder (folder : Entry) (key : Text) :
    (Library.ofFolder folder).get? key =
      ((valueFiles folder).find? fun file => filedName file.1 = key).map
        fun file => some file.2.values :=
  (get?_foldl_addValueFile _ [] key).trans Option.none_or

/-! ## All entries -/

/-- The library of a folder lists all entries in it. -/
theorem ofFolder_lists_anyKind {folder : Entry} (h : folder.IsTree) :
    (Library.ofFolder folder).Lists folder Entry.anyKind where
  distinct := by
    refine List.foldlRecOn (motive := fun library : Library => library.keys.Nodup) _ _
      List.nodup_nil fun library hlibrary file _ => nodup_keys_addValueFile hlibrary file
  keys key := by
    rw [Assoc.mem_keys_iff, get?_ofFolder, Ne, Option.map_eq_none_iff, List.find?_eq_none]
    simp only [decide_eq_true_eq, not_forall, not_not, exists_prop]
    constructor
    · rintro ⟨⟨path, entry⟩, hmem, hnamed⟩
      exact ⟨path, entry, (mem_valueFiles_iff h).mp ⟨hmem, hnamed⟩, rfl⟩
    · rintro ⟨path, entry, hoffers, -⟩
      exact ⟨(path, entry), (mem_valueFiles_iff h).mpr hoffers⟩
  values key hkey := by
    rw [Assoc.mem_keys_iff, get?_ofFolder, Ne, Option.map_eq_none_iff] at hkey
    rcases Option.ne_none_iff_exists'.mp hkey with ⟨⟨path, entry⟩, hfind⟩
    refine ⟨path, entry, (find?_valueFiles_iff h).mp hfind, ?_⟩
    rw [get?_ofFolder, hfind, Option.map_some]

/-! ## Files alone -/

/-- A folder has no values. -/
theorem values_of_isFolder {entry : Entry} (h : entry.isFolder = true) : entry.values = [] := by
  cases entry with
  | file content => cases h
  | folder entries => rfl

/-- The library of a folder lists the files alone if no folder counts whose values would be
others. -/
theorem lists_files_iff {folder : Entry} (h : folder.IsTree) :
    (Library.ofFolder folder).Lists folder Entry.isFile ↔
      ∀ key path entry, folder.Offers key path entry → entry.isFolder = true →
        ∃ first file, folder.OffersFirst Entry.isFile key first file ∧
          (pathBefore first path = true ∨ file.values = []) := by
  have hall := ofFolder_lists_anyKind h
  constructor
  · intro hfiles key path entry hoffers hfolder
    have hkey := (hall.keys key).mpr ⟨path, entry, hoffers, rfl⟩
    rcases hfiles.values key hkey with ⟨first, file, hfirst, hvalues⟩
    rcases hall.values key hkey with ⟨start, counted, hstart, hstored⟩
    refine ⟨first, file, hfirst, ?_⟩
    rw [hvalues, Option.some.injEq, Option.some.injEq] at hstored
    cases hkind : counted.isFolder with
    | true => exact Or.inr (hstored.trans (values_of_isFolder hkind))
    | false =>
      -- The first entry of all is a file, so it is the first file as well.
      have hsame : first = start := by
        rcases hfirst.first start counted hstart.offers (by simp [Entry.isFile, hkind]) with
          heq | hbefore
        · exact heq.symm
        · rcases hstart.first first file hfirst.offers rfl with heq | hafter
          · exact heq
          · exact absurd hafter (asymm_of (fun p q => pathBefore p q = true) hbefore)
      rcases hstart.first path entry hoffers rfl with rfl | hbefore
      · have hentry := Option.some.inj (hoffers.found.symm.trans hstart.offers.found)
        rw [hentry, hkind] at hfolder
        cases hfolder
      · exact Or.inl (hsame ▸ hbefore)
  · intro hcond
    refine ⟨hall.distinct, fun key => (hall.keys key).trans ⟨?_, ?_⟩, fun key hkey => ?_⟩
    · rintro ⟨path, entry, hoffers, -⟩
      cases hkind : entry.isFolder with
      | true =>
        rcases hcond key path entry hoffers hkind with ⟨first, file, hfirst, -⟩
        exact ⟨first, file, hfirst.offers, hfirst.counted⟩
      | false => exact ⟨path, entry, hoffers, by simp [Entry.isFile, hkind]⟩
    · rintro ⟨path, entry, hoffers, -⟩
      exact ⟨path, entry, hoffers, rfl⟩
    · rcases hall.values key hkey with ⟨start, counted, hstart, hstored⟩
      cases hkind : counted.isFolder with
      | true =>
        rcases hcond key start counted hstart.offers hkind with ⟨first, file, hfirst, hlate⟩
        have hempty : file.values = [] := by
          refine hlate.resolve_left fun hbefore => ?_
          rcases hstart.first first file hfirst.offers rfl with rfl | hafter
          · exact irrefl_of (fun p q => pathBefore p q = true) first hbefore
          · exact asymm_of (fun p q => pathBefore p q = true) hbefore hafter
        refine ⟨first, file, hfirst, ?_⟩
        rw [hstored, hempty, values_of_isFolder hkind]
      | false =>
        refine ⟨start, counted, ⟨hstart.offers, by simp [Entry.isFile, hkind], ?_⟩, hstored⟩
        exact fun other inner hother _ => hstart.first other inner hother rfl

/-! ## The order of a listing -/

/-- An entry without what lies in it. -/
def Entry.bare : Entry → Entry
  | .file content => .file content
  | .folder _ => .folder []

/-- The order in which a folder lists what it holds does not show at any path. -/
theorem bare_at?_of_perm {entries others : List (Text × Entry)}
    (hnames : (Assoc.keys entries).Nodup) (hperm : entries.Perm others) (path : List Text) :
    ((Entry.folder others).at? path).map Entry.bare =
      ((Entry.folder entries).at? path).map Entry.bare := by
  cases path with
  | nil => rfl
  | cons name path =>
    congr 1
    refine Option.ext fun inner => ?_
    have hothers : (Assoc.keys others).Nodup := (hperm.map Prod.fst).nodup_iff.mp hnames
    rw [Entry.at?_folder_cons hnames, Entry.at?_folder_cons hothers]
    simp only [hperm.mem_iff]

/-- What lies in an entry of a library does not count. -/
theorem ofFolder_eq_foldl_bare (folder : Entry) :
    Library.ofFolder folder =
      ((valueFiles folder).map fun file => (file.1, file.2.bare)).foldl addValueFile [] := by
  have hbare : ∀ (library : Library) (file : List Text × Entry),
      addValueFile library (file.1, file.2.bare) = addValueFile library file := by
    rintro library ⟨path, content | entries⟩ <;> rfl
  rw [List.foldl_map, Library.ofFolder]
  simp only [hbare]

/-- The library is the same for all listings of a tree. -/
theorem ofFolder_eq_of_bare_at? {folder other : Entry} (h : folder.IsTree) (hother : other.IsTree)
    (hsame : ∀ path, (other.at? path).map Entry.bare = (folder.at? path).map Entry.bare) :
    Library.ofFolder other = Library.ofFolder folder := by
  -- What both have under a name is the same but for what lies in it.
  have hmem : ∀ {first second : Entry}, first.IsTree → second.IsTree →
      (∀ path, (first.at? path).map Entry.bare = (second.at? path).map Entry.bare) →
      ∀ file, (file ∈ (valueFiles first).map fun file => (file.1, file.2.bare)) →
        file ∈ (valueFiles second).map fun file => (file.1, file.2.bare) := by
    intro first second hfirst hsecond hsame file hfile
    rcases List.mem_map.mp hfile with ⟨⟨path, entry⟩, hentry, rfl⟩
    have hoffers := (mem_valueFiles_iff hfirst).mp ⟨hentry, rfl⟩
    have hbare := hsame path
    rw [hoffers.found, Option.map_some, eq_comm, Option.map_eq_some_iff] at hbare
    rcases hbare with ⟨inner, hinner, heq⟩
    refine List.mem_map.mpr ⟨(path, inner), ?_, by rw [heq]⟩
    exact ((mem_valueFiles_iff hsecond).mpr ⟨hinner, hoffers.named⟩).1
  rw [ofFolder_eq_foldl_bare, ofFolder_eq_foldl_bare]
  congr 1
  refine eq_of_pairwise_before pathBefore Prod.fst ?_ ?_ fun file => ⟨?_, ?_⟩
  · exact List.pairwise_map.mpr (pairwise_valueFiles hother)
  · exact List.pairwise_map.mpr (pairwise_valueFiles h)
  · exact hmem hother h hsame file
  · exact hmem h hother (fun path => (hsame path).symm) file

/-! ## Libraries -/

/-- The library of a folder has the names of all entries in it, each with the values of the first
entry of that name.  It is the library of the files alone exactly if every folder with the name of a
preset comes after the first file of that name, or that file has no values either.  The order in
which the folders list what they hold does not count. -/
theorem Library.ofFolder_lists {folder : Entry} (h : folder.IsTree) :
    (Library.ofFolder folder).Lists folder Entry.anyKind ∧
    ((Library.ofFolder folder).Lists folder Entry.isFile ↔
      ∀ key path entry, folder.Offers key path entry → entry.isFolder = true →
        ∃ first file, folder.OffersFirst Entry.isFile key first file ∧
          (pathBefore first path = true ∨ file.values = [])) ∧
    ∀ other : Entry, other.IsTree →
      (∀ path, (other.at? path).map Entry.bare = (folder.at? path).map Entry.bare) →
      Library.ofFolder other = Library.ofFolder folder :=
  ⟨ofFolder_lists_anyKind h, lists_files_iff h, fun _ hother => ofFolder_eq_of_bare_at? h hother⟩

/-- The files in two folders, listed in the order of the folders. -/
def seasonFolders : List (Text × Entry) :=
  [("north".toList, .folder [("season.txt".toList, .file "winter\n".toUTF8)]),
    ("south".toList, .folder [("Season.txt".toList, .file "summer\n".toUTF8)])]

/-- Two files for one name are a library with the values of the first, however the folders are
listed. -/
theorem Library.ofFolder_lists_seasonFolders :
    (Entry.folder seasonFolders).IsTree ∧ (Entry.folder seasonFolders.reverse).IsTree ∧
    (Library.ofFolder (.folder seasonFolders)).Lists (.folder seasonFolders) Entry.isFile ∧
    Library.ofFolder (.folder seasonFolders.reverse) = Library.ofFolder (.folder seasonFolders) ∧
    Library.ofFolder (.folder seasonFolders) = [("season".toList, some ["winter".toList])] := by
  have hinner : ∀ entry ∈ seasonFolders, entry.2.IsTree := by
    intro entry hentry
    simp only [seasonFolders, List.mem_cons, List.not_mem_nil, or_false] at hentry
    rcases hentry with rfl | rfl
    · exact .folder (by decide) (List.forall_mem_singleton.mpr (.file _))
    · exact .folder (by decide) (List.forall_mem_singleton.mpr (.file _))
  have htree : (Entry.folder seasonFolders).IsTree := .folder (by decide) hinner
  have hback : (Entry.folder seasonFolders.reverse).IsTree :=
    .folder (by decide) fun entry hentry => hinner entry (List.mem_reverse.mp hentry)
  have hsorted : valueFiles (.folder seasonFolders) =
      [(["north".toList, "season.txt".toList], .file "winter\n".toUTF8),
        (["south".toList, "Season.txt".toList], .file "summer\n".toUTF8)] := by
    rw [valueFiles]
    exact List.mergeSort_of_pairwise (by decide)
  rcases Library.ofFolder_lists htree with ⟨-, hfiles, hlistings⟩
  refine ⟨htree, hback, hfiles.mpr fun key path entry hoffers hfolder => ?_, ?_, ?_⟩
  · -- Neither folder has the name of a preset.
    have hmem := hoffers.mem_everything htree
    have hnamed := hoffers.named
    simp only [seasonFolders, Entry.everything, Entry.everythingIn, List.nil_append,
      List.append_nil, List.singleton_append, List.mem_cons, List.not_mem_nil, or_false,
      Prod.mk.injEq] at hmem
    rcases hmem with ⟨rfl, rfl⟩ | ⟨rfl, rfl⟩ | ⟨rfl, rfl⟩ | ⟨rfl, rfl⟩
    · cases hnamed
    · cases hfolder
    · cases hnamed
    · cases hfolder
  · exact hlistings _ hback (bare_at?_of_perm (by decide) (List.reverse_perm _).symm)
  · rw [Library.ofFolder, hsorted]
    decide +kernel

/-- A folder that comes before the file of its name. -/
def hiddenSeason : Entry :=
  .folder [("Season.txt".toList, .folder []),
    ("winter".toList, .folder [("season.txt".toList, .file "spring\n".toUTF8)])]

/-- The values of a file are hidden by a folder that comes before it. -/
theorem Library.ofFolder_hides_file :
    hiddenSeason.IsTree ∧ ¬ (Library.ofFolder hiddenSeason).Lists hiddenSeason Entry.isFile := by
  have htree : hiddenSeason.IsTree := by
    refine .folder (by decide) (List.forall_mem_cons.mpr ⟨?_, List.forall_mem_singleton.mpr ?_⟩)
    · exact .folder List.nodup_nil nofun
    · exact .folder (by decide) (List.forall_mem_singleton.mpr (.file _))
  refine ⟨htree, fun hfiles => ?_⟩
  have hfolder : hiddenSeason.Offers "season".toList ["Season.txt".toList] (.folder []) :=
    ⟨rfl, by decide⟩
  rcases (lists_files_iff htree).mp hfiles _ _ _ hfolder rfl with ⟨path, file, hfirst, hlate⟩
  have hmem := hfirst.offers.mem_everything htree
  simp only [hiddenSeason, Entry.everything, Entry.everythingIn, List.nil_append,
    List.append_nil, List.singleton_append, List.mem_cons, List.not_mem_nil, or_false,
    Prod.mk.injEq] at hmem
  rcases hmem with ⟨rfl, rfl⟩ | ⟨rfl, rfl⟩ | ⟨rfl, rfl⟩
  · cases hfirst.counted
  · cases hfirst.offers.named
  · rcases hlate with hbefore | hempty
    · exact absurd hbefore (by decide)
    · exact absurd hempty (by decide +kernel)

end PromptMarkup
