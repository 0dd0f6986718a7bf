import PromptMarkup.Options.Settings

/-!
# Compile options

Whether choices are made, the seed for them, and how deep groups are expanded.  The
depth comes from the settings where it is not given, so faulty settings are found
only then.
-/

namespace PromptMarkup

/-- Options for compiling a tree. -/
structure CompileOptions where
  expandWildcards : Bool
  seed : Option Int
  maxDepth : Int
deriving DecidableEq, Repr

/-- The options where none are given. -/
def CompileOptions.default (settings : SettingsResult) :
    Except (List FieldFault) CompileOptions :=
  settings.map fun settings => ⟨false, none, settings.maxExpansionDepth⟩

/-- Read a seed, which may be left open. -/
def readSeed : Option Value → Except Fault (Option Int)
  | none => .ok none
  | some .null => .ok none
  | some value => (readInteger value).map some

/-- Read options from the fields that are given. -/
def CompileOptions.read (settings : SettingsResult) (fields : Object) :
    Except (List FieldFault) CompileOptions :=
  let expand : Except Fault Bool :=
    match fields.get? "expand_wildcards" with
    | none => .ok false
    | some value => readTruth value
  let seed := readSeed (fields.get? "seed")
  let withDepth (depth : Except Fault Int) : Except (List FieldFault) CompileOptions :=
    match expand, seed, depth with
    | .ok expand, .ok seed, .ok depth => .ok ⟨expand, seed, depth⟩
    | expand, seed, depth =>
      .error (faultsOf "expand_wildcards" expand ++ faultsOf "seed" seed ++
        faultsOf "max_depth" depth)
  match fields.get? "max_depth" with
  | some value => withDepth (readInteger value >>= atLeast 0)
  | none =>
    match settings with
    | .ok settings => withDepth (.ok settings.maxExpansionDepth)
    | .error faults => .error faults

end PromptMarkup
