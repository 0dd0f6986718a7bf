import PromptMarkup.Proofs.ShownWeights
import PromptMarkup.Proofs.ValidEdits

/-!
# Stored tints

The tint of a span and the colour of a preset are computed when the segment is made, and stored in
its metadata.  A patch changes the metadata only by what it gives itself.  So through patches that
give no metadata the tint stays that of the first level and type, and the colour that of the first
mode, whatever the fields are changed to.  They are those of the fields as long as the level stays
in the range of its tint, and the mode is the first one.

Main statements:

- {lit}`shownTint_eq`: the tint that is shown for a bracket type and a level in range.
- {lit}`exists_head?_editAll_of_keep`: patches without metadata keep the metadata.
- {lit}`editAll_keepsTint`: the stored tint and the stored colour after patches without metadata.
-/

namespace PromptMarkup

/-- The tint that is shown for whatever the two fields of a span hold. -/
def shownTint (bracketType level : Value) : Except WeightError Binary64 := do
  let value ← displayWeight bracketType level
  displayIntensity bracketType value

/-- The tint that is shown for a bracket type and a level in range is that of the brackets. -/
theorem shownTint_eq (type : BracketType) {level : Nat} (h : level ≤ maxLevel) :
    shownTint type.toValue (.int level) = .ok (type.tint level).intensity := by
  rw [shownTint, displayWeight_eq type h, ← levelIntensity_eq type h]
  exact displayIntensity_eq type level

/-- The tint that is shown for a level in range is known by its intensity. -/
theorem shownTint_eq_ok_iff {type : BracketType} {level : Nat} {tint : Tint}
    (h : level ≤ maxLevel) :
    shownTint type.toValue (.int level) = .ok tint.intensity ↔ type.tint level = tint := by
  rw [shownTint_eq type h, Except.ok.injEq, Tint.intensity_inj]

/-- Preset modes differ in their colour. -/
theorem PresetMode.color_inj {first second : PresetMode} :
    first.color = second.color ↔ first = second := by
  cases first <;> cases second <;> decide

/-! ## Kinds -/

/-- A valid span has a bracket type and a level in range. -/
theorem Kind.IsValid.exists_weighted {kind : Kind} (h : kind.IsValid)
    (htype : kind.type? = some .weighted) :
    ∃ (type : BracketType) (level : Nat), level ≤ maxLevel ∧
      kind = .weighted (.valid type) (.valid level) := by
  cases h <;> cases htype
  exact ⟨_, _, ‹_›, rfl⟩

/-- A valid preset has a name and a mode. -/
theorem Kind.IsValid.exists_preset {kind : Kind} (h : kind.IsValid)
    (htype : kind.type? = some .preset) :
    ∃ name mode selected, kind = .preset name (.valid mode) selected := by
  cases h <;> cases htype
  exact ⟨_, _, _, rfl⟩

/-! ## Patches without metadata -/

namespace Segment

variable {ι : Type}

/-- A patch without metadata keeps the identifier and the metadata of a segment, and its own fields
stay valid. -/
theorem exists_head?_edit_of_keep {segment : Segment ι} {head : Head ι}
    (hhead : segment.head? = some head) {patch : Patch ι}
    (hkeep : ∀ fields, patch.metadata ≠ .set (some fields)) :
    ∃ kind, (segment.edit patch).head? = some ⟨head.id, kind, head.metadata⟩ ∧
      head.kind.StaysValid kind := by
  cases hupdate : segment.update patch with
  | error reason =>
    refine ⟨head.kind, ?_, .refl _⟩
    rwa [edit, hupdate]
  | ok after =>
    rcases update_eq_ok_iff.mp hupdate with ⟨old, kind, hold, hkind, rfl⟩
    rw [hhead] at hold
    cases hold
    refine ⟨kind, ?_, hkind.staysValid⟩
    simp only [edit, hupdate, head?_ofHead, patchMetadata_of_ne hkeep]

/-- Patches without metadata keep the identifier and the metadata of a segment, and its own fields
stay valid. -/
theorem exists_head?_editAll_of_keep {segment : Segment ι} {head : Head ι}
    (hhead : segment.head? = some head) {patches : List (Patch ι)}
    (hkeep : ∀ patch ∈ patches, ∀ fields, patch.metadata ≠ .set (some fields)) :
    ∃ kind, (segment.editAll patches).head? = some ⟨head.id, kind, head.metadata⟩ ∧
      head.kind.StaysValid kind := by
  induction patches generalizing segment head with
  | nil => exact ⟨head.kind, hhead, .refl _⟩
  | cons patch rest ih =>
    rcases List.forall_mem_cons.mp hkeep with ⟨hpatch, hrest⟩
    rcases exists_head?_edit_of_keep hhead hpatch with ⟨middle, hmiddle, hfirst⟩
    rcases ih hmiddle hrest with ⟨last, hlast, hstays⟩
    exact ⟨last, hlast, hfirst.trans hstays⟩

/-- A segment is a span with the tint of a first type and level in its metadata, which is the tint
that is shown for its type and level if and only if those have the same tint as the first. -/
def HasFirstTint (bracketType level : Value) (id : ι) (segment : Segment ι) : Prop :=
  ∃ (first last : BracketType) (low high : Nat) (tint : Binary64),
    BracketType.ofValue? bracketType = some first ∧ level = .int low ∧ low ≤ maxLevel ∧
    high ≤ maxLevel ∧
    segment.head? =
      some ⟨id, .weighted (.valid last) (.valid high), some [("intensity", .float tint)]⟩ ∧
    shownTint first.toValue (.int low) = .ok tint ∧
    (shownTint last.toValue (.int high) = .ok tint ↔ last.tint high = first.tint low)

/-- A segment is a preset with the colour of a first mode in its metadata, which is the colour of
its mode if and only if that is the first one. -/
def HasFirstColor (mode values : Value) (id : ι) (segment : Segment ι) : Prop :=
  ∃ (first last : PresetMode) (items : List Value) (name : Text) (selected : Option Text),
    PresetMode.ofValue? mode = some first ∧ values.items? = some items ∧
    segment.head? =
      some ⟨id, .preset name (.valid last) selected,
        some [("color", .ofString first.color), ("values", .list items)]⟩ ∧
    (last.color = first.color ↔ last = first)

/-- A span that is made keeps the tint of its first type and level, and a preset that is made the
colour of its first mode, through any patches without metadata. -/
theorem editAll_keepsTint {patches : List (Patch ι)}
    (hkeep : ∀ patch ∈ patches, ∀ fields, patch.metadata ≠ .set (some fields)) :
    (∀ {id : ι} {children : List (Segment ι)} {bracketType level : Value} {made : Segment ι},
      weighted? id children bracketType level = .ok made →
        (made.editAll patches).HasFirstTint bracketType level id) ∧
    ∀ {id : ι} {name : Option Text} {mode : Value} {selected : Option Text} {values : Value}
      {made : Segment ι}, presetOf id name mode selected values = .ok made →
        (made.editAll patches).HasFirstColor mode values id := by
  constructor
  · intro id children bracketType level made hmade
    rcases weighted?_eq_ok_iff.mp hmade with ⟨first, low, hfirst, rfl, hlow, rfl⟩
    have hmadeHead : (weighted id first low children).head? =
        some ⟨id, .weighted (.valid first) (.valid low),
          some [("intensity", .float (first.tint low).intensity)]⟩ := by
      rw [← levelIntensity_eq first hlow]
      rfl
    rcases exists_head?_editAll_of_keep hmadeHead hkeep with ⟨kind, hhead, hstays⟩
    rcases (hstays.valid (.weighted first low hlow)).exists_weighted hstays.type with
      ⟨last, high, hhigh, rfl⟩
    exact ⟨first, last, low, high, _, hfirst, rfl, hlow, hhigh, hhead, shownTint_eq first hlow,
      shownTint_eq_ok_iff hhigh⟩
  · intro id name mode selected values made hmade
    rcases presetOf_eq_ok_iff.mp hmade with ⟨items, hitems, hpreset⟩
    rcases preset?_eq_ok_iff.mp hpreset with ⟨written, first, -, hname, hfirst, rfl⟩
    have hmadeHead : (preset id written first selected items).head? =
        some ⟨id, .preset written (.valid first) selected,
          some [("color", .ofString first.color), ("values", .list items)]⟩ := rfl
    rcases exists_head?_editAll_of_keep hmadeHead hkeep with ⟨kind, hhead, hstays⟩
    rcases (hstays.valid (.preset written first selected hname)).exists_preset hstays.type with
      ⟨newName, last, newSelected, rfl⟩
    exact ⟨first, last, items, newName, newSelected, hfirst, hitems, hhead, PresetMode.color_inj⟩

/-- Patches without metadata: one that gives a span 14 brackets, one that turns it round, and one
that makes a preset fixed. -/
def barePatches : List (Patch NodeId) :=
  [⟨.weighted .keep (.set (.int 14)), .keep, .keep⟩,
    ⟨.weighted (.set BracketType.decrease.toValue) .keep, .set none, .set none⟩,
    ⟨.preset .keep (.set PresetMode.fixed.toValue) (.set (some ['a'])), .keep, .keep⟩]

/-- Each of the patches is accepted by a span or by a preset, and refused by the other. -/
theorem editAll_keepsTint_barePatches :
    let span : Segment NodeId := .weighted (.named "w") .increase 9 [.text (.named "t") ['b']]
    let tag : Segment NodeId := .preset (.named "p") ['k'] .random none [.ofString "a"]
    (∀ patch ∈ barePatches, ∀ fields, patch.metadata ≠ .set (some fields)) ∧
      weighted? (.named "w") [.text (.named "t") ['b']] BracketType.increase.toValue (.int 9) =
        .ok span ∧
      presetOf (.named "p") (some ['k']) PresetMode.random.toValue none
        (.list [.ofString "a"]) = .ok tag ∧
      (span.editAll barePatches).HasFirstTint BracketType.increase.toValue (.int 9) (.named "w") ∧
      (tag.editAll barePatches).HasFirstColor PresetMode.random.toValue (.list [.ofString "a"])
        (.named "p") := by
  intro span tag
  have hkeep : ∀ patch ∈ barePatches, ∀ fields, patch.metadata ≠ .set (some fields) := by
    simp [barePatches]
  have hspan : weighted? (.named "w") [.text (.named "t") ['b']] BracketType.increase.toValue
      (.int 9) = .ok span := rfl
  have htag : presetOf (.named "p") (some ['k']) PresetMode.random.toValue none
      (.list [.ofString "a"]) = .ok tag := rfl
  exact ⟨hkeep, hspan, htag, (editAll_keepsTint hkeep).1 hspan, (editAll_keepsTint hkeep).2 htag⟩

/-- A span of level 1 that gets 78 brackets keeps its faint tint, and a random preset that is made
fixed its colour. -/
theorem editAll_keepsTint_stale :
    let span : Segment NodeId := .weighted (.named "w") .increase 1 [.text (.named "t") ['b']]
    let tag : Segment NodeId := .preset (.named "p") ['k'] .random none []
    weighted? (.named "w") [.text (.named "t") ['b']] BracketType.increase.toValue (.int 1) =
        .ok span ∧
      span.update ⟨.weighted .keep (.set (.int 78)), .keep, .keep⟩ =
        .ok (.branch ⟨.named "w", .weighted (.valid .increase) (.valid 78),
          some [("intensity", .float Tint.faint.intensity)]⟩ [.text (.named "t") ['b']]) ∧
      shownTint BracketType.increase.toValue (.int 78) ≠ .ok Tint.faint.intensity ∧
      presetOf (.named "p") (some ['k']) PresetMode.random.toValue none .null = .ok tag ∧
      tag.update ⟨.preset .keep (.set PresetMode.fixed.toValue) (.set (some ['a'])), .keep,
          .keep⟩ =
        .ok (.leaf ⟨.named "p", .preset ['k'] (.valid .fixed) (some ['a']),
          some [("color", .ofString PresetMode.random.color), ("values", .list [])]⟩) ∧
      PresetMode.fixed.color ≠ PresetMode.random.color := by
  intro span tag
  have hfaint : levelIntensity .increase 1 = Tint.faint.intensity :=
    levelIntensity_eq .increase (by decide : 1 ≤ maxLevel)
  have hspan : span = .branch ⟨.named "w", .weighted (.valid .increase) (.valid 1),
      some [("intensity", .float Tint.faint.intensity)]⟩ [.text (.named "t") ['b']] := by
    rw [← hfaint]
    rfl
  refine ⟨rfl, ?_, ?_, rfl, rfl, by decide⟩
  · rw [hspan]
    rfl
  · have hshown : shownTint BracketType.increase.toValue (.int (78 : Nat)) =
        .ok Tint.faint.intensity ↔ BracketType.increase.tint 78 = .faint :=
      shownTint_eq_ok_iff (by decide)
    exact fun h => absurd (hshown.mp h) (by decide)

end Segment

end PromptMarkup
