import PromptMarkup.Proofs.PatchedSegments

/-!
# Edits of valid segments

A checked constructor makes valid segments only, and a patch that is accepted keeps a segment valid:
whatever it writes was checked, and whatever it leaves was valid before.  A fixed preset may be made
without a selected value, and patches of its name leave it so, but no patch makes one of a preset
that is none.  A patch that is refused changes nothing, so all of this holds through any sequence of
patches.

Main statements:

- {lit}`Segment.weighted?_eq_ok_iff`, {lit}`Segment.preset?_eq_ok_iff` and
  {lit}`Segment.inlineWildcard?_eq_ok_iff`: what the checked constructors make.
- {lit}`Segment.Made.exists_head?`: what a checked constructor makes is valid.
- {lit}`KindPatch.Makes.staysValid`: what a patch that is accepted keeps of own fields.
- {lit}`editAll_staysValid`: what a sequence of patches keeps of a segment.
-/

namespace PromptMarkup

/-! ## Own fields -/

/-- Own fields that pass the checks: a text has a content, a span has a bracket type and a level in
range, a preset has a name and a mode, and an inline wildcard has an option that is not blank. -/
inductive Kind.IsValid : Kind → Prop where
  | text (content : Text) : IsValid (.text (some content))
  | weighted (type : BracketType) (level : Nat) :
    level ≤ maxLevel → IsValid (.weighted (.valid type) (.valid level))
  | preset (name : Text) (mode : PresetMode) (selected : Option Text) :
    name ≠ [] → IsValid (.preset name (.valid mode) selected)
  | inlineWildcard (options : List Value) :
    (∃ option ∈ options, Segment.isBlankOption option = false) → IsValid (.inlineWildcard options)

/-- Valid own fields are of a known kind. -/
theorem Kind.IsValid.exists_type? {kind : Kind} (h : kind.IsValid) :
    ∃ type, kind.type? = some type := by
  cases h <;> exact ⟨_, rfl⟩

/-- A fixed preset without a selected value. -/
def Kind.LacksSelected : Kind → Prop
  | .preset _ mode selected => mode = .valid .fixed ∧ hasSelected selected = false
  | _ => False

/-- What patches keep of own fields: their kind, their validity, and that they are no fixed preset
without a selected value. -/
structure Kind.StaysValid (old new : Kind) : Prop where
  type : new.type? = old.type?
  valid : old.IsValid → new.IsValid
  selected : new.LacksSelected → old.LacksSelected

/-- Own fields that stay as they are stay valid. -/
theorem Kind.StaysValid.refl (kind : Kind) : kind.StaysValid kind :=
  ⟨rfl, id, id⟩

/-- Own fields stay valid through one change after another. -/
theorem Kind.StaysValid.trans {first middle last : Kind} (hfirst : first.StaysValid middle)
    (hlast : middle.StaysValid last) : first.StaysValid last :=
  ⟨hlast.type.trans hfirst.type, hlast.valid ∘ hfirst.valid, hfirst.selected ∘ hlast.selected⟩

/-- One of the options that are written is not blank. -/
theorem exists_shown_of_writesOptions {raw : Value} {options : List Value}
    (h : writesOptions raw options) :
    ∃ option ∈ options, Segment.isBlankOption option = false := by
  rcases h with ⟨items, -, hoptions, hne⟩
  rcases List.exists_mem_of_ne_nil options hne with ⟨option, hoption⟩
  have hkept : isKeptOption option = true := by
    rw [hoptions] at hoption
    exact (List.mem_filter.mp hoption).2
  simp only [isKeptOption, Bool.and_eq_true, Bool.not_eq_true'] at hkept
  exact ⟨option, hoption, hkept.2⟩

/-- What a patch that is accepted makes of own fields stays valid. -/
theorem KindPatch.Makes.staysValid {patch : KindPatch} {old new : Kind} (h : patch.Makes old new) :
    old.StaysValid new := by
  cases h with
  | any => exact .refl _
  | text hcontent =>
    refine ⟨rfl, fun hvalid => ?_, id⟩
    cases hvalid with
    | text content =>
      have hcontents := hcontent.keeps (fun content => ∃ text, content = some text)
        (fun _ hnew => ⟨_, hnew⟩) ⟨content, rfl⟩
      rcases hcontents with ⟨new, rfl⟩
      exact .text new
  | weighted htype hlevel =>
    refine ⟨rfl, fun hvalid => ?_, id⟩
    cases hvalid with
    | weighted type level hrange =>
      have htypes := htype.keeps (fun stored => ∃ type, stored = .valid type)
        (fun _ ⟨written, _, hnew⟩ => ⟨written, hnew⟩) ⟨type, rfl⟩
      have hlevels := hlevel.keeps
        (fun stored => ∃ level : Nat, level ≤ maxLevel ∧ stored = .valid level)
        (fun _ ⟨_, _, hnew⟩ => ⟨_, Nat.min_le_left _ _, hnew⟩) ⟨level, hrange, rfl⟩
      rcases htypes with ⟨newType, rfl⟩
      rcases hlevels with ⟨newLevel, hnewRange, rfl⟩
      exact .weighted newType newLevel hnewRange
  | preset hname hmode hselected hcheck =>
    refine ⟨rfl, fun hvalid => ?_, fun hlacks => ?_⟩
    · cases hvalid with
      | preset name mode selected hne =>
        have hmodes := hmode.keeps (fun stored => ∃ mode, stored = .valid mode)
          (fun _ ⟨written, _, hnew⟩ => ⟨written, hnew⟩) ⟨mode, rfl⟩
        rcases hmodes with ⟨newMode, rfl⟩
        exact .preset _ newMode _ (hname.keeps (· ≠ []) (fun _ hnew => hnew.2) hne)
    · rcases hcheck hlacks.1 hlacks.2 with ⟨hkeepSelected, hkeepMode⟩
      rw [hmode.eq_of_isSet hkeepMode, hselected.eq_of_isSet hkeepSelected] at hlacks
      exact hlacks
  | inlineWildcard hoptions =>
    refine ⟨rfl, fun hvalid => ?_, id⟩
    cases hvalid with
    | inlineWildcard options hshown =>
      exact .inlineWildcard _ (hoptions.keeps
        (fun options => ∃ option ∈ options, Segment.isBlankOption option = false)
        (fun _ => exists_shown_of_writesOptions) hshown)

/-! ## Segments -/

namespace Segment

variable {ι : Type}

/-- A segment that a checked constructor makes. -/
inductive Made : Segment ι → Prop where
  | text {id : ι} {content : Option Text} {children : Option (List (Segment ι))}
    {segment : Segment ι} : text? id content children = .ok segment → Made segment
  | weighted {id : ι} {children : List (Segment ι)} {bracketType level : Value}
    {segment : Segment ι} : weighted? id children bracketType level = .ok segment → Made segment
  | preset {id : ι} {name : Option Text} {mode : Value} {selected : Option Text} {values : Value}
    {segment : Segment ι} : presetOf id name mode selected values = .ok segment → Made segment
  | inlineWildcard {id : ι} {options : Value} {segment : Segment ι} :
    inlineWildcard? id options = .ok segment → Made segment

/-- The constructor of spans makes a span of a type that is named and a level in range. -/
theorem weighted?_eq_ok_iff {id : ι} {children : List (Segment ι)} {bracketType level : Value}
    {segment : Segment ι} :
    weighted? id children bracketType level = .ok segment ↔
      ∃ (type : BracketType) (number : Nat), BracketType.ofValue? bracketType = some type ∧
        level = .int number ∧ number ≤ maxLevel ∧ segment = weighted id type number children := by
  constructor
  · intro h
    simp only [weighted?, bind_eq_ok_iff, checkBracketType, checkLevel] at h
    rcases h with ⟨type, htype, number, hnumber, h⟩
    split at htype
    · rename_i hnamed
      cases htype
      split at hnumber
      · cases hnumber
        split at h
        · cases h
        · split at h
          · cases h
          · rename_i hnegative hhigh
            cases h
            have hsize : ((number.toNat : Nat) : Int) = number := by omega
            exact ⟨type, number.toNat, hnamed, by rw [hsize], by omega, rfl⟩
      · cases hnumber
    · cases htype
  · rintro ⟨type, number, htype, rfl, hrange, rfl⟩
    have hnegative : ¬(number : Int) < 0 := by omega
    have hhigh : ¬(maxLevel : Int) < number := by omega
    simp only [weighted?, checkBracketType, htype, checkLevel, Except.bind, bind, if_neg hnegative,
      if_neg hhigh, Int.toNat_natCast]

/-- The constructor of presets makes a preset of a name that is not empty and a mode that is
named. -/
theorem preset?_eq_ok_iff {id : ι} {name : Option Text} {mode : Value} {selected : Option Text}
    {values : List Value} {segment : Segment ι} :
    preset? id name mode selected values = .ok segment ↔
      ∃ written stored, name = some written ∧ written ≠ [] ∧
        PresetMode.ofValue? mode = some stored ∧
        segment = preset id written stored selected values := by
  rcases name with _ | _ | ⟨c, name⟩
  · exact iff_of_false nofun (by simp)
  · exact iff_of_false nofun (by simp)
  · cases hmode : PresetMode.ofValue? mode <;>
      simp [preset?, checkPresetMode, hmode, bind, Except.bind, eq_comm]

/-- The values that are given for a preset are the items of a value. -/
theorem presetOf_eq_ok_iff {id : ι} {name : Option Text} {mode : Value} {selected : Option Text}
    {values : Value} {segment : Segment ι} :
    presetOf id name mode selected values = .ok segment ↔
      ∃ items, values.items? = some items ∧ preset? id name mode selected items = .ok segment := by
  unfold presetOf
  cases values.items? with
  | none => simp [bind_eq_ok_iff]
  | some items => simp [mapError_eq_ok_iff]

/-- The constructor of inline wildcards takes the options of a list, unless all of them are
blank. -/
theorem inlineWildcard?_eq_ok_iff {id : ι} {raw : Value} {segment : Segment ι} :
    inlineWildcard? id raw = .ok segment ↔
      ∃ options, raw = .list options ∧ (∃ option ∈ options, isBlankOption option = false) ∧
        segment = inlineWildcard id options := by
  constructor
  · intro h
    unfold inlineWildcard? at h
    split at h
    · cases h
    · rename_i options _
      split at h
      · cases h
      · rename_i hshown
        cases h
        exact ⟨options, rfl, by simpa using hshown, rfl⟩
    · cases h
  · rintro ⟨options, rfl, ⟨option, hoption, hshown⟩, rfl⟩
    have hall : ¬options.all isBlankOption = true := fun hall =>
      Bool.eq_false_iff.mp hshown (List.all_eq_true.mp hall option hoption)
    rw [inlineWildcard?, if_neg hall]
    rintro rfl
    cases hoption

/-- What a checked constructor makes is there and valid. -/
theorem Made.exists_head? {segment : Segment ι} (h : segment.Made) :
    ∃ head, segment.head? = some head ∧ head.kind.IsValid := by
  cases h with
  | @text id content children _ h =>
    cases content with
    | none => cases h
    | some content =>
      cases h
      exact ⟨_, head?_ofHead _ _, .text content⟩
  | weighted h =>
    rcases weighted?_eq_ok_iff.mp h with ⟨type, number, -, -, hrange, rfl⟩
    exact ⟨_, rfl, .weighted type number hrange⟩
  | @preset _ _ _ selected _ _ h =>
    rcases presetOf_eq_ok_iff.mp h with ⟨items, -, hpreset⟩
    rcases preset?_eq_ok_iff.mp hpreset with ⟨name, mode, -, hname, -, rfl⟩
    exact ⟨_, rfl, .preset name mode selected hname⟩
  | inlineWildcard h =>
    rcases inlineWildcard?_eq_ok_iff.mp h with ⟨options, -, hshown, rfl⟩
    exact ⟨_, rfl, .inlineWildcard options hshown⟩

/-- A segment after a patch; one that is refused leaves the segment as it is. -/
def edit (segment : Segment ι) (patch : Patch ι) : Segment ι :=
  match segment.update patch with
  | .ok after => after
  | .error _ => segment

/-- A segment after some patches, one after the other. -/
def editAll (segment : Segment ι) (patches : List (Patch ι)) : Segment ι :=
  patches.foldl edit segment

/-- A patch keeps the identifier of a segment, and its own fields stay valid. -/
theorem exists_head?_edit {segment : Segment ι} {head : Head ι}
    (hhead : segment.head? = some head) (patch : Patch ι) :
    ∃ last, (segment.edit patch).head? = some last ∧ last.id = head.id ∧
      head.kind.StaysValid last.kind := by
  cases hupdate : segment.update patch with
  | error reason =>
    refine ⟨head, ?_, rfl, .refl _⟩
    rwa [edit, hupdate]
  | ok after =>
    rcases update_eq_ok_iff.mp hupdate with ⟨old, kind, hold, hkind, rfl⟩
    rw [hhead] at hold
    cases hold
    refine ⟨⟨head.id, kind, patchMetadata head.metadata patch.metadata⟩, ?_, rfl, hkind.staysValid⟩
    simp only [edit, hupdate, head?_ofHead]

/-- Patches keep the identifier of a segment, and its own fields stay valid. -/
theorem exists_head?_editAll {segment : Segment ι} {head : Head ι}
    (hhead : segment.head? = some head) (patches : List (Patch ι)) :
    ∃ last, (segment.editAll patches).head? = some last ∧ last.id = head.id ∧
      head.kind.StaysValid last.kind := by
  induction patches generalizing segment head with
  | nil => exact ⟨head, hhead, rfl, .refl _⟩
  | cons patch rest ih =>
    rcases exists_head?_edit hhead patch with ⟨middle, hmiddle, hmiddleId, hmiddleValid⟩
    rcases ih hmiddle with ⟨last, hlast, hlastId, hlastValid⟩
    exact ⟨last, hlast, hlastId.trans hmiddleId, hmiddleValid.trans hlastValid⟩

/-- A patch for another kind than that of a segment is refused. -/
theorem update_of_type?_ne {segment : Segment ι} {head : Head ι} {patch : Patch ι}
    {patchType segmentType : SegmentType} (hhead : segment.head? = some head)
    (hpatch : patch.kind.type? = some patchType) (htype : head.kind.type? = some segmentType)
    (hne : patchType ≠ segmentType) :
    segment.update patch = .error (.invalid (.wrongPatch patchType segmentType)) := by
  rw [update, hhead]
  simp only [patch_of_type?_ne hpatch htype hne]
  rfl

/-- A segment that a checked constructor made keeps its identifier and its kind through any patches
and stays valid.  Once it is no fixed preset without a selected value it never becomes one, and
patches for another kind are refused. -/
theorem editAll_staysValid {first : Segment ι} (hmade : first.Made) (patches : List (Patch ι)) :
    ∃ start last type, first.head? = some start ∧
      (first.editAll patches).head? = some last ∧ last.id = start.id ∧
      start.kind.type? = some type ∧ last.kind.type? = some type ∧ last.kind.IsValid ∧
      (¬last.kind.LacksSelected → ∀ more, ∃ later,
        (first.editAll (patches ++ more)).head? = some later ∧ ¬later.kind.LacksSelected) ∧
      ∀ patch patchType, patch.kind.type? = some patchType → patchType ≠ type →
        (first.editAll patches).update patch = .error (.invalid (.wrongPatch patchType type)) := by
  rcases hmade.exists_head? with ⟨start, hstart, hvalid⟩
  rcases exists_head?_editAll hstart patches with ⟨last, hlast, hid, hstays⟩
  rcases hvalid.exists_type? with ⟨type, htype⟩
  have hlastType := hstays.type.trans htype
  refine ⟨start, last, type, hstart, hlast, hid, htype, hlastType, hstays.valid hvalid,
    fun hselected more => ?_, fun patch patchType hpatch hne =>
    update_of_type?_ne hlast hpatch hlastType hne⟩
  rcases exists_head?_editAll hlast more with ⟨later, hlater, -, hlaterStays⟩
  refine ⟨later, ?_, mt hlaterStays.selected hselected⟩
  rw [editAll, List.foldl_append]
  exact hlater

/-- Patches of a preset: one with an empty name, which is refused, one that makes it random, one
that makes it fixed again, which is refused as there is no selected value, and one for a span. -/
def presetPatches : List (Patch NodeId) :=
  [⟨.preset (.set (some [])) .keep .keep, .keep, .keep⟩,
    ⟨.preset .keep (.set PresetMode.random.toValue) .keep, .keep, .keep⟩,
    ⟨.preset .keep (.set PresetMode.fixed.toValue) .keep, .keep, .set (some [("a", .null)])⟩,
    ⟨.weighted .keep (.set (.int 2)), .set none, .keep⟩]

/-- A fixed preset is made without a selected value and patched. -/
theorem editAll_staysValid_presetPatches :
    let first : Segment NodeId := .preset (.named "p") ['k'] .fixed none []
    let last := first.editAll presetPatches
    first.Made ∧ last = .leaf ⟨.named "p", .preset ['k'] (.valid .random) none,
        some [("color", .ofString fixedColor), ("values", .list [])]⟩ ∧
      ∃ start lastHead type, first.head? = some start ∧ last.head? = some lastHead ∧
        lastHead.id = start.id ∧ start.kind.type? = some type ∧
        lastHead.kind.type? = some type ∧ lastHead.kind.IsValid ∧
        (¬lastHead.kind.LacksSelected → ∀ more, ∃ later,
          (first.editAll (presetPatches ++ more)).head? = some later ∧
            ¬later.kind.LacksSelected) ∧
        ∀ patch patchType, patch.kind.type? = some patchType → patchType ≠ type →
          last.update patch = .error (.invalid (.wrongPatch patchType type)) := by
  intro first last
  have hfirst : presetOf (NodeId.named "p") (some ['k']) PresetMode.fixed.toValue none .null =
      .ok first := rfl
  exact ⟨.preset hfirst, rfl, editAll_staysValid (.preset hfirst) presetPatches⟩

end Segment

end PromptMarkup
