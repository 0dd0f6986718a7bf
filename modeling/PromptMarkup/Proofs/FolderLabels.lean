import Mathlib.Data.List.Nodup
import PromptMarkup.Library.Categories
import PromptMarkup.Proofs.MapKeys
import PromptMarkup.Proofs.NameOrder

/-!
# Labels of folders

A folder of presets is offered under the rest of its name in upper case.  Where no two of the
folders on offer have rests with one upper case, their labels tell them apart.  Where two have,
only the one whose name comes last is found under the label.

Main statements:

- {lit}`isLower_of_mem_upper`: there is no lower-case letter of ASCII in upper case.
- {lit}`categoryLabel_eq_iff`: which folders have the same label.
- {lit}`Categories.get?_folders_iff`: which folder is found under a label.
- {lit}`Categories.labels_identify`: when the labels identify the folders.
-/

namespace PromptMarkup

/-! ## Upper case -/

/-- The lower-case letters of ASCII are those from 97 to 122. -/
theorem isLower_eq_false_iff {c : Char} : c.isLower = false ↔ c.toNat < 97 ∨ 122 < c.toNat := by
  show (decide (97 ≤ c.val) && decide (c.val ≤ 122)) = false ↔ _
  rw [Bool.and_eq_false_iff, decide_eq_false_iff_not, decide_eq_false_iff_not,
    UInt32.not_le, UInt32.not_le, UInt32.lt_iff_toNat_lt, UInt32.lt_iff_toNat_lt]
  rfl

/-- A number that is no code point gives the null character. -/
theorem toNat_ofNat_cases (code : Nat) :
    (Char.ofNat code).toNat = code ∨ (Char.ofNat code).toNat = 0 := by
  by_cases hvalid : code.isValidChar
  · left
    rw [Char.ofNat, dif_pos hvalid]
    rfl
  · right
    rw [Char.ofNat, dif_neg hvalid]
    rfl

/-- In ASCII the upper case of a character is no lower-case letter. -/
theorem isLower_toUpper {c : Char} (h : c.toNat < 128) : c.toUpper.isLower = false := by
  have hall : ∀ code : Fin 128, (Char.ofNat code).toUpper.isLower = false := by decide +kernel
  have hc := hall ⟨c.toNat, h⟩
  rwa [Char.ofNat_toNat] at hc

/-- What changes by a distance in upper case does not become a lower-case letter of ASCII. -/
theorem upperRuns_avoid_isLower : ∀ run ∈ upperRuns,
    ((run.2.1 : Int) + run.2.2.2 < 97 ∨ 122 < (run.1 : Int) + run.2.2.2) := by
  decide +kernel

/-- What becomes several characters in upper case becomes no lower-case letters of ASCII. -/
theorem upperExpansions_avoid_isLower : ∀ expansion ∈ upperExpansions,
    expansion.2 ≠ [] ∧ ∀ code ∈ expansion.2, (Char.ofNat code).isLower = false := by
  decide +kernel

/-- Outside ASCII the upper case of one character is no lower-case letter of ASCII. -/
theorem isLower_shiftCase {c : Char} (h : 128 ≤ c.toNat) :
    (shiftCase upperRuns c).isLower = false := by
  rw [isLower_eq_false_iff]
  unfold shiftCase
  split
  · rename_i first last step offset hfind
    have hholds := List.find?_some hfind
    simp only [CaseRun.holds, Bool.and_eq_true, decide_eq_true_eq] at hholds
    have havoid := upperRuns_avoid_isLower _ (List.mem_of_find?_eq_some hfind)
    simp only at havoid
    have hcode := toNat_ofNat_cases ((c.toNat : Int) + offset).toNat
    omega
  · omega

/-- The upper case of a character has characters, none of them a lower-case letter of ASCII. -/
theorem upperChar_cases (c : Char) :
    upperChar c ≠ [] ∧ ∀ d ∈ upperChar c, d.isLower = false := by
  unfold upperChar
  split
  · rename_i hascii
    exact ⟨List.cons_ne_nil _ _, List.forall_mem_singleton.mpr (isLower_toUpper hascii)⟩
  · rename_i hascii
    split
    · rename_i codes hcodes
      rcases List.lookup_eq_some_iff.mp hcodes with ⟨before, after, hsplit, -⟩
      have havoid := upperExpansions_avoid_isLower (c.toNat, codes) (by simp [hsplit])
      exact ⟨by simpa using havoid.1, List.forall_mem_map.mpr havoid.2⟩
    · exact ⟨List.cons_ne_nil _ _,
        List.forall_mem_singleton.mpr (isLower_shiftCase (Nat.le_of_not_lt hascii))⟩

/-- There is no lower-case letter of ASCII in upper case. -/
theorem isLower_of_mem_upper {text : Text} {c : Char} (h : c ∈ upper text) :
    c.isLower = false := by
  rcases List.mem_flatMap.mp h with ⟨d, -, hc⟩
  exact (upperChar_cases d).2 c hc

/-- Only the empty text is empty in upper case. -/
theorem upper_eq_nil_iff {text : Text} : upper text = [] ↔ text = [] := by
  rw [upper, List.flatMap_eq_nil_iff]
  refine ⟨fun h => List.eq_nil_iff_forall_not_mem.mpr fun c hc => ?_, ?_⟩
  · exact (upperChar_cases c).1 (h c hc)
  · rintro rfl
    exact nofun

/-! ## Labels -/

/-- What is left of the name of a folder for its label. -/
def categoryRest (name : Text) : Text :=
  (name.drop categoryStem.length).dropWhile fun c => c == '_' || c == '-'

/-- A folder without a rest has the label of the plain name. -/
theorem categoryLabel_of_eq_nil {name : Text} (h : categoryRest name = []) :
    categoryLabel name = "Default".toList := by
  unfold categoryRest at h
  rw [categoryLabel, h]

/-- The label of a folder with a rest is the rest in upper case. -/
theorem categoryLabel_of_ne_nil {name : Text} (h : categoryRest name ≠ []) :
    categoryLabel name = upper (categoryRest name) := by
  unfold categoryRest at h ⊢
  rw [categoryLabel]
  split
  · rename_i hnil
    exact absurd hnil h
  · rfl

/-- No rest has the label of the plain name in upper case. -/
theorem upper_ne_default (text : Text) : upper text ≠ "Default".toList := by
  intro h
  have he : 'e' ∈ upper text := by
    rw [h]
    decide
  exact absurd (isLower_of_mem_upper he) (by decide)

/-- Two folders have the same label if their rests have the same upper case. -/
theorem categoryLabel_eq_iff {name other : Text} :
    categoryLabel name = categoryLabel other ↔
      upper (categoryRest name) = upper (categoryRest other) := by
  by_cases hname : categoryRest name = []
  · by_cases hother : categoryRest other = []
    · rw [categoryLabel_of_eq_nil hname, categoryLabel_of_eq_nil hother, hname, hother]
      exact iff_of_true rfl rfl
    · rw [categoryLabel_of_eq_nil hname, categoryLabel_of_ne_nil hother, hname]
      refine iff_of_false (fun h => upper_ne_default _ h.symm) fun h => ?_
      exact hother (upper_eq_nil_iff.mp h.symm)
  · by_cases hother : categoryRest other = []
    · rw [categoryLabel_of_ne_nil hname, categoryLabel_of_eq_nil hother, hother]
      refine iff_of_false (upper_ne_default _) fun h => ?_
      exact hname (upper_eq_nil_iff.mp h)
    · rw [categoryLabel_of_ne_nil hname, categoryLabel_of_ne_nil hother]

/-! ## Folders on offer -/

/-- The names on offer are the plain name and those of the folders whose names begin with it. -/
def Entry.OffersCategory (base : Entry) (name : Text) : Prop :=
  name = categoryStem ∨
    categoryStem <+: name ∧ ∃ entry, (name, entry) ∈ base.entries ∧ entry.isFolder = true

/-- The names on offer are those that are listed. -/
theorem mem_categoryFolders_iff {base : Entry} {name : Text} :
    name ∈ categoryFolders base ↔ base.OffersCategory name := by
  rw [categoryFolders, List.mem_cons, Entry.OffersCategory]
  refine or_congr_right' fun hne => ?_
  rw [List.mem_erase_of_ne hne, (List.mergeSort_perm _ _).mem_iff]
  simp only [List.mem_map, List.mem_filter, Bool.and_eq_true, List.isPrefixOf_iff_prefix]
  constructor
  · rintro ⟨⟨name, entry⟩, ⟨hmem, hfolder, hstem⟩, rfl⟩
    exact ⟨hstem, entry, hmem, hfolder⟩
  · rintro ⟨hstem, entry, hmem, hfolder⟩
    exact ⟨(name, entry), ⟨hmem, hfolder, hstem⟩, rfl⟩

/-- The names on offer are listed in their order. -/
theorem pairwise_categoryFolders {base : Entry} (hnames : base.entries.keys.Nodup) :
    (categoryFolders base).Pairwise fun a b => textBefore a b = true := by
  have hfound : ∀ {found : List (Text × Entry)}, found.Sublist base.entries →
      (found.map (·.1)).Nodup := fun h => hnames.sublist (h.map _)
  refine List.pairwise_cons.mpr ⟨fun name hname => ?_, ?_⟩
  · -- Any other name on offer is the plain one with more after it.
    have hdifferent : name ≠ categoryStem := by
      rintro rfl
      refine List.Nodup.not_mem_erase ?_ hname
      exact (List.mergeSort_perm _ _).nodup_iff.mpr (hfound List.filter_sublist)
    rcases mem_categoryFolders_iff.mp (List.mem_cons_of_mem _ hname) with heq | ⟨⟨more, rfl⟩, -⟩
    · exact absurd heq hdifferent
    · refine textBefore_append ?_
      rintro rfl
      exact hdifferent (List.append_nil _)
  · refine (pairwise_mergeSort_before textBefore id ?_).sublist List.erase_sublist
    rw [List.map_id]
    exact hfound List.filter_sublist

/-! ## Folders by labels -/

/-- The folders are searched for a label from the last to the first. -/
theorem Categories.get?_folders (base : Entry) (label : Text) :
    (Categories.of base).folders.get? label =
      (categoryFolders base).reverse.find? fun name => categoryLabel name = label := by
  refine (Assoc.get?_foldl_set categoryLabel id _ [] label).trans ?_
  rw [Option.map_id, id]
  exact Option.or_none

/-- The folder that is found under a label is the last one with that label. -/
theorem Categories.get?_folders_iff {base : Entry} (hnames : base.entries.keys.Nodup)
    {label name : Text} :
    (Categories.of base).folders.get? label = some name ↔
      base.OffersCategory name ∧ categoryLabel name = label ∧
        ∀ other, base.OffersCategory other → categoryLabel other = label →
          other = name ∨ textBefore other name = true := by
  have hasymm : Std.Asymm fun a b : Text => textBefore b a = true :=
    ⟨fun a b => asymm_of (fun a b => textBefore b a = true)⟩
  rw [get?_folders, find?_eq_some_iff_of_pairwise
    (List.pairwise_reverse.mpr (pairwise_categoryFolders hnames))]
  simp only [List.mem_reverse, mem_categoryFolders_iff, decide_eq_true_eq]

/-- The labels are those of the folders on offer. -/
theorem Categories.mem_labels_iff {base : Entry} {label : Text} :
    label ∈ (Categories.of base).labels ↔
      ∃ name, base.OffersCategory name ∧ categoryLabel name = label := by
  simp only [Categories.of, List.mem_map, mem_categoryFolders_iff]

/-- A folder is found under every label, and under nothing else. -/
theorem Categories.mem_keys_folders_iff {base : Entry} {label : Text} :
    label ∈ (Categories.of base).folders.keys ↔ label ∈ (Categories.of base).labels := by
  rw [Assoc.mem_keys_iff, get?_folders, mem_labels_iff, Ne, List.find?_eq_none]
  simp only [List.mem_reverse, mem_categoryFolders_iff, decide_eq_true_eq, not_forall, not_not,
    exists_prop]

/-- Labels that identify the folders on offer: they are all different, the plain name is found under
its own label, a folder is found under each of them and under nothing else, and each folder on offer
is found under one of them. -/
structure Categories.Identify (categories : Categories) (base : Entry) : Prop where
  distinct : categories.labels.Nodup
  plain : categories.folders.get? "Default".toList = some categoryStem
  keys : ∀ label, label ∈ categories.folders.keys ↔ label ∈ categories.labels
  offered : ∀ label name, categories.folders.get? label = some name → base.OffersCategory name
  injective : ∀ label other name, categories.folders.get? label = some name →
    categories.folders.get? other = some name → label = other
  surjective : ∀ name, base.OffersCategory name →
    ∃ label, categories.folders.get? label = some name

/-- The labels identify the folders if no two rests have one upper case. -/
theorem Categories.identify_iff {base : Entry} (hnames : base.entries.keys.Nodup) :
    (Categories.of base).Identify base ↔
      ∀ name other, base.OffersCategory name → base.OffersCategory other →
        upper (categoryRest name) = upper (categoryRest other) → name = other := by
  constructor
  · intro hidentify name other hname hother hrest
    exact List.inj_on_of_nodup_map hidentify.distinct (mem_categoryFolders_iff.mpr hname)
      (mem_categoryFolders_iff.mpr hother) (categoryLabel_eq_iff.mpr hrest)
  · intro hdifferent
    -- A folder on offer is the only one with its label.
    have hfound : ∀ {name}, base.OffersCategory name →
        (Categories.of base).folders.get? (categoryLabel name) = some name := by
      intro name hname
      refine (get?_folders_iff hnames).mpr ⟨hname, rfl, fun other hother hlabel => Or.inl ?_⟩
      exact hdifferent other name hother hname (categoryLabel_eq_iff.mp hlabel)
    constructor
    · refine List.Nodup.map_on (fun name hname other hother hlabel => ?_) ?_
      · exact hdifferent name other (mem_categoryFolders_iff.mp hname)
          (mem_categoryFolders_iff.mp hother) (categoryLabel_eq_iff.mp hlabel)
      · refine (pairwise_categoryFolders hnames).imp fun {a b} hab heq => ?_
        exact irrefl_of (fun a b => textBefore a b = true) a (heq ▸ hab)
    · exact hfound (Or.inl rfl)
    · exact fun label => mem_keys_folders_iff
    · exact fun label name hget => ((get?_folders_iff hnames).mp hget).1
    · intro label other name hlabel hother
      rw [← ((get?_folders_iff hnames).mp hlabel).2.1,
        ← ((get?_folders_iff hnames).mp hother).2.1]
    · exact fun name hname => ⟨_, hfound hname⟩

/-- The labels are those of the folders on offer in the order of their names, and a folder is found
under each of them: the last of those with the label.  They identify the folders exactly if no two
folders on offer have rests with one upper case. -/
theorem Categories.labels_identify {base : Entry} (hnames : base.entries.keys.Nodup) :
    (∃ names : List Text, (names.Pairwise fun a b => textBefore a b = true) ∧
      (∀ name, name ∈ names ↔ base.OffersCategory name) ∧
      (Categories.of base).labels = names.map categoryLabel) ∧
    ((Categories.of base).folders.keys.Nodup ∧
      ∀ label, label ∈ (Categories.of base).folders.keys ↔ label ∈ (Categories.of base).labels) ∧
    (∀ label name, (Categories.of base).folders.get? label = some name ↔
      base.OffersCategory name ∧ categoryLabel name = label ∧
        ∀ other, base.OffersCategory other → categoryLabel other = label →
          other = name ∨ textBefore other name = true) ∧
    ((Categories.of base).Identify base ↔
      ∀ name other, base.OffersCategory name → base.OffersCategory other →
        upper (categoryRest name) = upper (categoryRest other) → name = other) := by
  refine ⟨⟨categoryFolders base, pairwise_categoryFolders hnames, ?_, rfl⟩, ⟨?_, ?_⟩, ?_,
    identify_iff hnames⟩
  · exact fun name => mem_categoryFolders_iff
  · exact Assoc.nodup_keys_foldl_set categoryLabel id _ List.nodup_nil
  · exact fun label => mem_keys_folders_iff
  · exact fun label name => get?_folders_iff hnames

/-- A folder with a rest, and a file that does not count. -/
def freshBase : Entry :=
  .folder [("wildcards_fresh".toList, .folder []), ("wildcards.txt".toList, .file "".toUTF8)]

/-- The folder with a rest and the plain name, which is not there, have different labels. -/
theorem Categories.labels_identify_freshBase :
    freshBase.entries.keys.Nodup ∧ (Categories.of freshBase).Identify freshBase ∧
    (Categories.of freshBase).labels = ["Default".toList, "FRESH".toList] := by
  have hnames : freshBase.entries.keys.Nodup := by decide
  have hlisted : categoryFolders freshBase = [categoryStem, "wildcards_fresh".toList] := by
    show categoryStem :: (["wildcards_fresh".toList].mergeSort _).erase categoryStem = _
    rw [List.mergeSort_singleton]
    decide
  have hrests : ∀ name ∈ [categoryStem, "wildcards_fresh".toList],
      ∀ other ∈ [categoryStem, "wildcards_fresh".toList],
        upper (categoryRest name) = upper (categoryRest other) → name = other := by decide
  refine ⟨hnames, (Categories.labels_identify hnames).2.2.2.mpr ?_, ?_⟩
  · intro name other hname hother
    rw [← mem_categoryFolders_iff, hlisted] at hname hother
    exact hrests name hname other hother
  · rw [Categories.of, hlisted]
    decide

/-- A folder without a rest. -/
def restlessBase : Entry :=
  .folder [("wildcards_".toList, .folder [])]

/-- A folder without a rest takes the label of the plain name. -/
theorem Categories.labels_clash :
    restlessBase.entries.keys.Nodup ∧ ¬ (Categories.of restlessBase).Identify restlessBase ∧
    (Categories.of restlessBase).folders.get? "Default".toList = some "wildcards_".toList := by
  have hnames : restlessBase.entries.keys.Nodup := by decide
  have hoffers : restlessBase.OffersCategory "wildcards_".toList :=
    Or.inr ⟨by decide, .folder [], List.mem_singleton_self _, rfl⟩
  have hlisted : categoryFolders restlessBase = [categoryStem, "wildcards_".toList] := by
    show categoryStem :: (["wildcards_".toList].mergeSort _).erase categoryStem = _
    rw [List.mergeSort_singleton]
    decide
  refine ⟨hnames, fun hidentify => ?_, ?_⟩
  · have hsame := (identify_iff hnames).mp hidentify categoryStem "wildcards_".toList
      (Or.inl rfl) hoffers (by decide)
    exact absurd hsame (by decide)
  · rw [get?_folders, hlisted]
    decide

end PromptMarkup
