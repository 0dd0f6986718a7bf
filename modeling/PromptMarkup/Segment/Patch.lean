import PromptMarkup.Segment.Create
import PromptMarkup.Value.Merge

/-!
# Patches

A patch names the fields that an update changes; it has none for the identifier
or the kind, so an update never renames or retypes a segment.  Metadata is merged
and every other field replaced.
-/

namespace PromptMarkup

/-- What a patch does to a field. -/
inductive Change (α : Type) where
  | keep
  | set (a : α)

/-- The value of a field after a change. -/
def Change.apply {α : Type} (old : α) : Change α → α
  | .keep => old
  | .set a => a

/-- Whether a change names its field. -/
def Change.isSet {α : Type} : Change α → Bool
  | .keep => false
  | .set _ => true

/-- The changes to the own fields of a segment.  A patch for any kind has none. -/
inductive KindPatch where
  | any
  | text (content : Change (Option Text))
  | weighted (bracketType level : Change Value)
  | preset (name : Change (Option Text)) (mode : Change Value) (selected : Change (Option Text))
  | inlineWildcard (options : Change Value)

/-- The kind of segment that a patch is for, if it is for one kind. -/
def KindPatch.type? : KindPatch → Option SegmentType
  | .any => none
  | .text _ => some .text
  | .weighted .. => some .weighted
  | .preset .. => some .preset
  | .inlineWildcard _ => some .inlineWildcard

/-- A patch for a segment.  Children can be replaced by a list or by none, and
metadata that is nothing leaves the metadata alone. -/
structure Patch (ι : Type) where
  kind : KindPatch
  children : Change (Option (List (Segment ι)))
  metadata : Change (Option Object)

/-! ## Own fields -/

/-- The bracket type after a change. -/
def patchBracketType (old : Stored BracketType) : Change Value →
    Except Invalid (Stored BracketType)
  | .keep => .ok old
  | .set raw => (Segment.checkBracketType raw).map .valid

/-- The level after a change: its size, and no more than the greatest level. -/
def patchLevel (old : Stored Int) : Change Value → Except Invalid (Stored Int)
  | .keep => .ok old
  | .set raw =>
    (Segment.checkLevel raw).map fun level => .valid (min maxLevel level.natAbs : Nat)

/-- The name of a preset after a change. -/
def patchName (old : Text) : Change (Option Text) → Except Invalid Text
  | .keep => .ok old
  | .set none => .error .nameEmpty
  | .set (some []) => .error .nameEmpty
  | .set (some name) => .ok name

/-- The mode of a preset after a change. -/
def patchMode (old : Stored PresetMode) : Change Value → Except Invalid (Stored PresetMode)
  | .keep => .ok old
  | .set raw => (Segment.checkPresetMode raw).map .valid

/-- Whether a selected value is there and not empty. -/
def hasSelected (selected : Option Text) : Bool :=
  !(selected.getD []).isEmpty

/-- Whether an option of a patch is kept: it is something, and not blank. -/
def isKeptOption (option : Value) : Bool :=
  option ≠ .null && !Segment.isBlankOption option

/-- Apply the changes to the own fields of a segment. -/
def Kind.patch (kind : Kind) (patch : KindPatch) : Except EditError Kind :=
  match patch, kind with
  | .any, kind => .ok kind
  | .text content, .text old =>
    .ok (.text (match content with
      | .keep => old
      | .set new => some (new.getD [])))
  | .weighted bracketType level, .weighted oldType oldLevel => do
    let newType ← (patchBracketType oldType bracketType).mapError .invalid
    let newLevel ← (patchLevel oldLevel level).mapError .invalid
    .ok (.weighted newType newLevel)
  | .preset name mode selected, .preset oldName oldMode oldSelected => do
    let newName ← (patchName oldName name).mapError .invalid
    let newMode ← (patchMode oldMode mode).mapError .invalid
    let newSelected := selected.apply oldSelected
    if newMode = .valid .fixed ∧ !hasSelected newSelected then
      if selected.isSet then .error (.invalid .fixedWithoutSelected)
      else if mode.isSet then .error (.invalid .selectedRequired)
      else .ok (.preset newName newMode newSelected)
    else .ok (.preset newName newMode newSelected)
  | .inlineWildcard options, .inlineWildcard old =>
    match options with
    | .keep => .ok (.inlineWildcard old)
    | .set (.list options) =>
      match options.filter isKeptOption with
      | [] => .error (.invalid .newOptionsAllBlank)
      | kept => .ok (.inlineWildcard kept)
    | .set _ => .error (.invalid .newOptionsNotList)
  | patch, kind =>
    match patch.type?, kind.type? with
    | some patchType, some segmentType =>
      .error (.invalid (.wrongPatch patchType segmentType))
    | _, _ => .error .unknownKind

/-! ## Updating -/

/-- Metadata after a change. -/
def patchMetadata (old : Option Object) : Change (Option Object) → Option Object
  | .keep => old
  | .set none => old
  | .set (some new) => some (Object.merge (old.getD []) new)

/-- Apply a patch to a segment. -/
def Segment.update {ι : Type} (segment : Segment ι) (patch : Patch ι) :
    Except EditError (Segment ι) :=
  match segment.head? with
  | none => .error (.invalid .noSegment)
  | some head => do
    let kind ← head.kind.patch patch.kind
    .ok (ofHead ⟨head.id, kind, patchMetadata head.metadata patch.metadata⟩
      (patch.children.apply segment.children?))

end PromptMarkup
