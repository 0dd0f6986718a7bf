import PromptMarkup.Proofs.MergedObjects

/-!
# Patched segments

A patch that is accepted leaves each field that it does not name, and writes each field that it
names in a form that depends on nothing else: a level by its size up to the greatest level, the
options that are not blank.  Only the check of a fixed preset looks at fields together, and it looks
at them as they are after the patch.  So a patch that was accepted is accepted again and finds
nothing to do.

Main statements:

- {lit}`patch_eq_ok_iff` and {lit}`update_eq_ok_iff`: what a patch that is accepted makes of a
  segment.
- {lit}`patch_of_type?_ne`: a patch for another kind is refused.
- {lit}`update_settles`: a patch is accepted again, and touches only what it names.
-/

namespace PromptMarkup

/-! ## One field -/

/-- What a change makes of a field: the field stays if the change does not name it, and is what the
change writes if it does. -/
def Change.Makes {α β : Type} (change : Change α) (writes : α → β → Prop) (old new : β) : Prop :=
  match change with
  | .keep => new = old
  | .set a => writes a new

/-- A field that was changed is what the same change makes of it. -/
theorem Change.Makes.again {α β : Type} {change : Change α} {writes : α → β → Prop} {old new : β}
    (h : change.Makes writes old new) : change.Makes writes new new := by
  cases change with
  | keep => rfl
  | set a => exact h

/-- A field that a change does not name stays. -/
theorem Change.Makes.eq_of_isSet {α β : Type} {change : Change α} {writes : α → β → Prop}
    {old new : β} (h : change.Makes writes old new) (hkeep : change.isSet = false) : new = old := by
  cases change with
  | keep => exact h
  | set a => cases hkeep

/-- What holds of a field, and of whatever a change writes, holds of the changed field. -/
theorem Change.Makes.keeps {α β : Type} {change : Change α} {writes : α → β → Prop} {old new : β}
    (h : change.Makes writes old new) (holds : β → Prop) (hwrites : ∀ a, writes a new → holds new)
    (hold : holds old) : holds new := by
  cases change with
  | keep => exact h ▸ hold
  | set a => exact hwrites a h

/-- A change by a given value is what is found after it. -/
@[simp] theorem Change.apply_apply {α : Type} (change : Change α) (old : α) :
    change.apply (change.apply old) = change.apply old := by
  cases change <;> rfl

/-- A content is written, an empty one for nothing. -/
def writesContent (written new : Option Text) : Prop :=
  new = some (written.getD [])

/-- A bracket type is written if it is named. -/
def writesBracketType (raw : Value) (new : Stored BracketType) : Prop :=
  ∃ type, BracketType.ofValue? raw = some type ∧ new = .valid type

/-- The size of an integer is written as a level, up to the greatest level. -/
def writesLevel (raw : Value) (new : Stored Int) : Prop :=
  ∃ level : Int, raw = .int level ∧ new = .valid (min maxLevel level.natAbs : Nat)

/-- A name is written if it is not empty. -/
def writesName (written : Option Text) (new : Text) : Prop :=
  written = some new ∧ new ≠ []

/-- A mode is written if it is named. -/
def writesMode (raw : Value) (new : Stored PresetMode) : Prop :=
  ∃ mode, PresetMode.ofValue? raw = some mode ∧ new = .valid mode

/-- A selected value is written as it is. -/
def writesSelected (written new : Option Text) : Prop :=
  new = written

/-- The options of a list that are not blank are written if there are any. -/
def writesOptions (raw : Value) (new : List Value) : Prop :=
  ∃ options, raw = .list options ∧ new = options.filter isKeptOption ∧ new ≠ []

/-- A bracket type is patched to what the change makes of it. -/
theorem patchBracketType_eq_ok_iff {old new : Stored BracketType} {change : Change Value} :
    patchBracketType old change = .ok new ↔ change.Makes writesBracketType old new := by
  cases change with
  | keep => simp [patchBracketType, Change.Makes, eq_comm]
  | set raw =>
    cases h : BracketType.ofValue? raw <;>
      simp [patchBracketType, Segment.checkBracketType, Change.Makes, writesBracketType, h,
        Except.map, eq_comm]

/-- A level is patched to what the change makes of it. -/
theorem patchLevel_eq_ok_iff {old new : Stored Int} {change : Change Value} :
    patchLevel old change = .ok new ↔ change.Makes writesLevel old new := by
  cases change with
  | keep => simp [patchLevel, Change.Makes, eq_comm]
  | set raw =>
    cases raw <;>
      simp [patchLevel, Segment.checkLevel, Change.Makes, writesLevel, Except.map, eq_comm]

/-- A name is patched to what the change makes of it. -/
theorem patchName_eq_ok_iff {old new : Text} {change : Change (Option Text)} :
    patchName old change = .ok new ↔ change.Makes writesName old new := by
  cases change with
  | keep => simp [patchName, Change.Makes, eq_comm]
  | set written =>
    rcases written with _ | _ | ⟨c, name⟩
    · exact iff_of_false nofun fun h => nomatch h.1
    · exact iff_of_false nofun fun h => h.2 (Option.some.inj h.1).symm
    · refine ⟨fun h => ?_, fun h => congrArg _ (Option.some.inj h.1)⟩
      cases h
      exact ⟨rfl, List.cons_ne_nil c name⟩

/-- A mode is patched to what the change makes of it. -/
theorem patchMode_eq_ok_iff {old new : Stored PresetMode} {change : Change Value} :
    patchMode old change = .ok new ↔ change.Makes writesMode old new := by
  cases change with
  | keep => simp [patchMode, Change.Makes, eq_comm]
  | set raw =>
    cases h : PresetMode.ofValue? raw <;>
      simp [patchMode, Segment.checkPresetMode, Change.Makes, writesMode, h, Except.map, eq_comm]

/-! ## Own fields -/

/-- What a patch that is accepted makes of the own fields of a segment.  A preset that is fixed and
has no selected value after the patch was already so before it. -/
inductive KindPatch.Makes : KindPatch → Kind → Kind → Prop where
  | any (kind : Kind) : Makes .any kind kind
  | text {content : Change (Option Text)} {old new : Option Text} :
    content.Makes writesContent old new →
      Makes (.text content) (.text old) (.text new)
  | weighted {bracketType level : Change Value} {oldType newType : Stored BracketType}
    {oldLevel newLevel : Stored Int} :
    bracketType.Makes writesBracketType oldType newType →
      level.Makes writesLevel oldLevel newLevel →
      Makes (.weighted bracketType level) (.weighted oldType oldLevel) (.weighted newType newLevel)
  | preset {name selected : Change (Option Text)} {mode : Change Value} {oldName newName : Text}
    {oldMode newMode : Stored PresetMode} {oldSelected newSelected : Option Text} :
    name.Makes writesName oldName newName → mode.Makes writesMode oldMode newMode →
      selected.Makes writesSelected oldSelected newSelected →
      (newMode = .valid .fixed → hasSelected newSelected = false →
        selected.isSet = false ∧ mode.isSet = false) →
      Makes (.preset name mode selected) (.preset oldName oldMode oldSelected)
        (.preset newName newMode newSelected)
  | inlineWildcard {options : Change Value} {old new : List Value} :
    options.Makes writesOptions old new →
      Makes (.inlineWildcard options) (.inlineWildcard old) (.inlineWildcard new)

/-- Own fields that were patched are what the same patch makes of them. -/
theorem KindPatch.Makes.again {patch : KindPatch} {old new : Kind} (h : patch.Makes old new) :
    patch.Makes new new := by
  cases h with
  | any => exact .any _
  | text hcontent => exact .text hcontent.again
  | weighted htype hlevel => exact .weighted htype.again hlevel.again
  | preset hname hmode hselected hcheck =>
    exact .preset hname.again hmode.again hselected.again hcheck
  | inlineWildcard hoptions => exact .inlineWildcard hoptions.again

/-- A reason under another name is a reason. -/
theorem mapError_eq_ok_iff {ε ε' α : Type} {name : ε → ε'} {result : Except ε α} {a : α} :
    result.mapError name = .ok a ↔ result = .ok a := by
  cases result with
  | error reason => exact iff_of_false nofun nofun
  | ok value =>
    constructor
    · rintro ⟨⟩
      rfl
    · rintro ⟨⟩
      rfl

/-- Two parts succeed one after the other. -/
theorem bind_eq_ok_iff {ε α β : Type} {first : Except ε α} {next : α → Except ε β} {b : β} :
    first >>= next = .ok b ↔ ∃ a, first = .ok a ∧ next a = .ok b := by
  cases first <;> simp [bind, Except.bind]

/-- The content of a text is patched to what the change makes of it. -/
theorem patch_text_eq_ok_iff {old : Option Text} {content : Change (Option Text)} {after : Kind} :
    (Kind.text old).patch (.text content) = .ok after ↔
      ∃ new, content.Makes writesContent old new ∧ after = .text new := by
  cases content <;> simp [Kind.patch, Change.Makes, writesContent, eq_comm]

/-- The type and the level of a span are patched to what the changes make of them. -/
theorem patch_weighted_eq_ok_iff {oldType : Stored BracketType} {oldLevel : Stored Int}
    {bracketType level : Change Value} {after : Kind} :
    (Kind.weighted oldType oldLevel).patch (.weighted bracketType level) = .ok after ↔
      ∃ newType newLevel, bracketType.Makes writesBracketType oldType newType ∧
        level.Makes writesLevel oldLevel newLevel ∧ after = .weighted newType newLevel := by
  simp only [Kind.patch, bind_eq_ok_iff, mapError_eq_ok_iff, patchBracketType_eq_ok_iff,
    patchLevel_eq_ok_iff, Except.ok.injEq]
  constructor
  · rintro ⟨newType, htype, newLevel, hlevel, rfl⟩
    exact ⟨newType, newLevel, htype, hlevel, rfl⟩
  · rintro ⟨newType, newLevel, htype, hlevel, rfl⟩
    exact ⟨newType, htype, newLevel, hlevel, rfl⟩

/-- A preset is checked for a selected value, with its fields as they are after a patch, if the
patch names its mode or its selected value. -/
theorem checkSelected_eq_ok_iff {name : Text} {mode : Stored PresetMode} {selected : Option Text}
    {modeChange : Change Value} {selectedChange : Change (Option Text)} {after : Kind} :
    (if mode = .valid .fixed ∧ !hasSelected selected then
      if selectedChange.isSet then .error (EditError.invalid .fixedWithoutSelected)
      else if modeChange.isSet then .error (.invalid .selectedRequired)
      else .ok (.preset name mode selected)
    else .ok (.preset name mode selected)) = Except.ok after ↔
      (mode = .valid .fixed → hasSelected selected = false →
        selectedChange.isSet = false ∧ modeChange.isSet = false) ∧
      after = .preset name mode selected := by
  have hok : (Except.ok (Kind.preset name mode selected) : Except EditError Kind) = .ok after ↔
      after = .preset name mode selected := by
    rw [Except.ok.injEq, eq_comm]
  by_cases hlacks : mode = .valid .fixed ∧ hasSelected selected = false
  · rw [if_pos ⟨hlacks.1, by rw [hlacks.2]; rfl⟩]
    cases hselected : selectedChange.isSet with
    | true => exact iff_of_false nofun fun h => nomatch (h.1 hlacks.1 hlacks.2).1
    | false =>
      cases hmode : modeChange.isSet with
      | true => exact iff_of_false nofun fun h => nomatch (h.1 hlacks.1 hlacks.2).2
      | false => exact hok.trans ⟨fun h => ⟨fun _ _ => ⟨rfl, rfl⟩, h⟩, And.right⟩
  · rw [if_neg fun h => hlacks ⟨h.1, by simpa using h.2⟩]
    exact hok.trans ⟨fun h => ⟨fun hfixed hempty => absurd ⟨hfixed, hempty⟩ hlacks, h⟩, And.right⟩

/-- The name, the mode and the selected value of a preset are patched to what the changes make of
them, if it has a selected value afterwards or needs none. -/
theorem patch_preset_eq_ok_iff {oldName : Text} {oldMode : Stored PresetMode}
    {oldSelected : Option Text} {name selected : Change (Option Text)} {mode : Change Value}
    {after : Kind} :
    (Kind.preset oldName oldMode oldSelected).patch (.preset name mode selected) = .ok after ↔
      ∃ newName newMode newSelected, name.Makes writesName oldName newName ∧
        mode.Makes writesMode oldMode newMode ∧
        selected.Makes writesSelected oldSelected newSelected ∧
        (newMode = .valid .fixed → hasSelected newSelected = false →
          selected.isSet = false ∧ mode.isSet = false) ∧
        after = .preset newName newMode newSelected := by
  simp only [Kind.patch, bind_eq_ok_iff, mapError_eq_ok_iff, patchName_eq_ok_iff,
    patchMode_eq_ok_iff, checkSelected_eq_ok_iff]
  have hselected : ∀ new, selected.Makes writesSelected oldSelected new ↔
      new = selected.apply oldSelected := by
    intro new
    cases selected <;> rfl
  simp only [hselected]
  constructor
  · rintro ⟨newName, hname, newMode, hmode, hcheck, rfl⟩
    exact ⟨newName, newMode, _, hname, hmode, rfl, hcheck, rfl⟩
  · rintro ⟨newName, newMode, _, hname, hmode, rfl, hcheck, rfl⟩
    exact ⟨newName, hname, newMode, hmode, hcheck, rfl⟩

/-- The options of an inline wildcard are patched to what the change makes of them. -/
theorem patch_inlineWildcard_eq_ok_iff {old : List Value} {options : Change Value} {after : Kind} :
    (Kind.inlineWildcard old).patch (.inlineWildcard options) = .ok after ↔
      ∃ new, options.Makes writesOptions old new ∧ after = .inlineWildcard new := by
  cases options with
  | keep => simp [Kind.patch, Change.Makes, eq_comm]
  | set raw =>
    cases raw with
    | list items =>
      cases hkept : items.filter isKeptOption with
      | nil =>
        simp [Kind.patch, Change.Makes, writesOptions, hkept]
      | cons first rest =>
        simp only [Kind.patch, hkept, Except.ok.injEq]
        constructor
        · intro h
          exact ⟨_, ⟨items, rfl, hkept.symm, List.cons_ne_nil first rest⟩, h.symm⟩
        · rintro ⟨new, ⟨_, ⟨⟩, hnew, _⟩, rfl⟩
          rw [hnew, hkept]
    | _ => simp [Kind.patch, Change.Makes, writesOptions]

/-- A patch for another kind is refused. -/
theorem patch_of_type?_ne {kind : Kind} {patch : KindPatch} {patchType segmentType : SegmentType}
    (hpatch : patch.type? = some patchType) (hkind : kind.type? = some segmentType)
    (hne : patchType ≠ segmentType) :
    kind.patch patch = .error (.invalid (.wrongPatch patchType segmentType)) := by
  cases patch <;> cases hpatch <;> cases kind <;> cases hkind <;>
    simp [Kind.patch, KindPatch.type?, Kind.type?] at hne ⊢

/-- A patch for one kind is accepted by segments of that kind only. -/
theorem type?_eq_of_patch_eq_ok {kind after : Kind} {patch : KindPatch} {type : SegmentType}
    (h : kind.patch patch = .ok after) (hpatch : patch.type? = some type) :
    kind.type? = some type := by
  cases hkind : kind.type? with
  | none =>
    cases kind <;> cases hkind
    cases patch <;> cases hpatch <;> cases h
  | some segmentType =>
    by_cases heq : type = segmentType
    · rw [heq]
    · rw [patch_of_type?_ne hpatch hkind heq] at h
      cases h

/-- The own fields of a segment are patched to what the patch makes of them. -/
theorem patch_eq_ok_iff {kind after : Kind} {patch : KindPatch} :
    kind.patch patch = .ok after ↔ patch.Makes kind after := by
  constructor
  · intro h
    cases patch with
    | any =>
      cases h
      exact .any kind
    | text content =>
      cases kind <;> cases type?_eq_of_patch_eq_ok h rfl
      rcases patch_text_eq_ok_iff.mp h with ⟨new, hcontent, rfl⟩
      exact .text hcontent
    | weighted bracketType level =>
      cases kind <;> cases type?_eq_of_patch_eq_ok h rfl
      rcases patch_weighted_eq_ok_iff.mp h with ⟨newType, newLevel, htype, hlevel, rfl⟩
      exact .weighted htype hlevel
    | preset name mode selected =>
      cases kind <;> cases type?_eq_of_patch_eq_ok h rfl
      rcases patch_preset_eq_ok_iff.mp h with
        ⟨newName, newMode, newSelected, hname, hmode, hselected, hcheck, rfl⟩
      exact .preset hname hmode hselected hcheck
    | inlineWildcard options =>
      cases kind <;> cases type?_eq_of_patch_eq_ok h rfl
      rcases patch_inlineWildcard_eq_ok_iff.mp h with ⟨new, hoptions, rfl⟩
      exact .inlineWildcard hoptions
  · intro h
    cases h with
    | any => rfl
    | text hcontent => exact patch_text_eq_ok_iff.mpr ⟨_, hcontent, rfl⟩
    | weighted htype hlevel => exact patch_weighted_eq_ok_iff.mpr ⟨_, _, htype, hlevel, rfl⟩
    | preset hname hmode hselected hcheck =>
      exact patch_preset_eq_ok_iff.mpr ⟨_, _, _, hname, hmode, hselected, hcheck, rfl⟩
    | inlineWildcard hoptions => exact patch_inlineWildcard_eq_ok_iff.mpr ⟨_, hoptions, rfl⟩

/-! ## Metadata -/

/-- The value at a path of keys in metadata. -/
def metadataAt (metadata : Option Object) (path : List String) : Option Value :=
  (Value.object (metadata.getD [])).at? path

/-- The same metadata merged a second time finds what it has written. -/
theorem patchMetadata_patchMetadata {change : Change (Option Object)}
    (h : ∀ fields, change = .set (some fields) → (Value.object fields).HasDistinctKeys)
    (old : Option Object) :
    patchMetadata (patchMetadata old change) change = patchMetadata old change := by
  cases change with
  | keep => rfl
  | set written =>
    cases written with
    | none => rfl
    | some fields => exact congrArg some (merge_merge_self (h fields rfl) _)

/-- Metadata stays where a change gives none. -/
theorem patchMetadata_of_ne {change : Change (Option Object)}
    (h : ∀ fields, change ≠ .set (some fields)) (old : Option Object) :
    patchMetadata old change = old := by
  cases change with
  | keep => rfl
  | set written =>
    cases written with
    | none => rfl
    | some fields => exact absurd rfl (h fields)

/-! ## Segments -/

namespace Segment

variable {ι : Type}

/-- A segment is patched to what the patch makes of its own fields, its children and its
metadata. -/
theorem update_eq_ok_iff {segment after : Segment ι} {patch : Patch ι} :
    segment.update patch = .ok after ↔
      ∃ head kind, segment.head? = some head ∧ patch.kind.Makes head.kind kind ∧
        after = ofHead ⟨head.id, kind, patchMetadata head.metadata patch.metadata⟩
          (patch.children.apply segment.children?) := by
  rw [update]
  cases segment.head? with
  | none => simp
  | some head =>
    simp only [bind_eq_ok_iff, patch_eq_ok_iff, Except.ok.injEq]
    constructor
    · rintro ⟨kind, hkind, hafter⟩
      exact ⟨head, kind, rfl, hkind, hafter.symm⟩
    · rintro ⟨_, kind, ⟨⟩, hkind, hafter⟩
      exact ⟨kind, hkind, hafter.symm⟩

end Segment

/-- The metadata of a patch is a map. -/
def Patch.HasDistinctKeys {ι : Type} (patch : Patch ι) : Prop :=
  ∀ fields, patch.metadata = .set (some fields) → (Value.object fields).HasDistinctKeys

/-- A patch mentions a path of keys if the metadata that it gives does. -/
def Patch.Mentions {ι : Type} (patch : Patch ι) (path : List String) : Prop :=
  ∃ fields, patch.metadata = .set (some fields) ∧ Object.Mentions fields path

/-- A path that a patch does not mention leads in the metadata to where it led before. -/
theorem metadataAt_of_not_mentions {ι : Type} {patch : Patch ι} {path : List String}
    (h : ¬patch.Mentions path) (old : Option Object) :
    metadataAt (patchMetadata old patch.metadata) path = metadataAt old path := by
  cases hchange : patch.metadata with
  | keep => rfl
  | set written =>
    cases written with
    | none => rfl
    | some fields =>
      exact at?_merge_of_not_mentions (fun hmentions => h ⟨fields, hchange, hmentions⟩) _

namespace Segment

variable {ι : Type}

/-- A patch that is accepted is accepted again and changes nothing more.  It keeps the identifier,
leaves each field that it does not name, and writes those that it names.  Without metadata in the
patch the metadata stays; with it, paths of keys that the patch does not mention lead to where they
led, and those at which it has a value that is no object lead to that value. -/
theorem update_settles {segment after : Segment ι} {patch : Patch ι}
    (hkeys : patch.HasDistinctKeys) (h : segment.update patch = .ok after) :
    after.update patch = .ok after ∧
      ∃ old new, segment.head? = some old ∧ after.head? = some new ∧ new.id = old.id ∧
        patch.kind.Makes old.kind new.kind ∧
        patch.children.Makes (fun written new => new = written) segment.children?
          after.children? ∧
        ((∀ fields, patch.metadata ≠ .set (some fields)) → new.metadata = old.metadata) ∧
        (∀ path, ¬patch.Mentions path →
          metadataAt new.metadata path = metadataAt old.metadata path) ∧
        ∀ fields path value, patch.metadata = .set (some fields) →
          (Value.object fields).at? path = some value → value.isObject = false →
            metadataAt new.metadata path = some value := by
  rcases update_eq_ok_iff.mp h with ⟨old, kind, hhead, hkind, rfl⟩
  refine ⟨update_eq_ok_iff.mpr ⟨_, kind, head?_ofHead _ _, hkind.again, ?_⟩, old, _, hhead,
    head?_ofHead _ _, rfl, hkind, ?_, fun hnone => patchMetadata_of_ne hnone _,
    fun path hpath => metadataAt_of_not_mentions hpath _,
    fun fields path value hset hvalue hother => ?_⟩
  · rw [children?_ofHead, Change.apply_apply, patchMetadata_patchMetadata hkeys]
  · rw [children?_ofHead]
    cases patch.children <;> rfl
  · rw [hset]
    exact at?_merge_of_at? (hkeys fields hset) hvalue hother _

/-- A span with a damaged bracket type, and with metadata in metadata. -/
def notedSpan (level : Int) (metadata : Object) : Segment NodeId :=
  .branch ⟨.named "span", .weighted (.damaged (.str ['x'])) (.valid level), some metadata⟩
    [.text (.named "inside") ['c']]

/-- A level out of range is patched, and a list in the metadata of the metadata. -/
theorem update_settles_notedSpan :
    let segment := notedSpan 3
      [("note", .object [("a", .int 1), ("b", .list [.null])]), ("c", .null)]
    let after := notedSpan 78 [("note", .object [("a", .int 1), ("b", .object [])]), ("c", .null)]
    let patch : Patch NodeId := ⟨.weighted .keep (.set (.int (-200))), .keep,
      .set (some [("note", .object [("b", .object [])])])⟩
    patch.HasDistinctKeys ∧ segment.update patch = .ok after ∧
      after.update patch = .ok after ∧
      ∃ old new, segment.head? = some old ∧ after.head? = some new ∧ new.id = old.id ∧
        patch.kind.Makes old.kind new.kind ∧
        patch.children.Makes (fun written new => new = written) segment.children?
          after.children? ∧
        ((∀ fields, patch.metadata ≠ .set (some fields)) → new.metadata = old.metadata) ∧
        (∀ path, ¬patch.Mentions path →
          metadataAt new.metadata path = metadataAt old.metadata path) ∧
        ∀ fields path value, patch.metadata = .set (some fields) →
          (Value.object fields).at? path = some value → value.isObject = false →
            metadataAt new.metadata path = some value := by
  intro segment after patch
  have hkeys : patch.HasDistinctKeys := by
    rintro fields ⟨⟩
    have hinner : (Value.object []).HasDistinctKeys := .object _ List.nodup_nil nofun
    exact .object _ (by decide) (List.forall_mem_singleton.mpr
      (.object _ (by decide) (List.forall_mem_singleton.mpr hinner)))
  exact ⟨hkeys, rfl, update_settles hkeys rfl⟩

end Segment

end PromptMarkup
