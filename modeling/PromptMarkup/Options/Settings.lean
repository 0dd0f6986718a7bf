import PromptMarkup.Options.Reading

/-!
# Settings

Settings come from named texts of the environment; a name may be written in either
case, and of two spellings the later counts.  Faulty settings are refused as a
whole.
-/

namespace PromptMarkup

/-- The settings of the program. -/
structure Settings where
  /-- How deep groups inside drawn options are expanded, from 1 to 1000. -/
  maxExpansionDepth : Int := 50
  /-- The greatest number of texts in the shared cache. -/
  compileCacheSize : Int := 1000
  /-- The seed where none is given. -/
  defaultSeed : Option Int := none
  /-- The path of the folder of preset files, where one is given. -/
  wildcardDir : Option Text := none

/-- The texts of the environment by their names. -/
abbrev Environment := List (String × Text)

/-- The text that the environment has under a name. -/
def Environment.get? (environment : Environment) (name : String) : Option Text :=
  (environment.reverse.find? fun (given, _) =>
    given.toList.map Char.toLower = name.toList).map (·.2)

/-- Settings, or the faults that were found in them. -/
abbrev SettingsResult := Except (List FieldFault) Settings

/-- Read a setting that is an integer, where the environment has it. -/
def readSetting (environment : Environment) (name : String)
    (check : Int → Except Fault Int) : Except Fault (Option Int) :=
  match environment.get? name with
  | none => .ok none
  | some text => (readIntegerText text >>= check).map some

/-- Read the settings. -/
def Settings.load (environment : Environment) : SettingsResult :=
  let depth :=
    readSetting environment "max_expansion_depth" fun n => atLeast 1 n >>= atMost 1000
  let size := readSetting environment "compile_cache_size" (atLeast 1)
  let seed := readSetting environment "default_seed" .ok
  match depth, size, seed with
  | .ok depth, .ok size, .ok seed =>
    .ok {
      maxExpansionDepth := depth.getD 50
      compileCacheSize := size.getD 1000
      defaultSeed := seed
      wildcardDir := environment.get? "wildcard_dir" }
  | depth, size, seed =>
    .error (faultsOf "max_expansion_depth" depth ++ faultsOf "compile_cache_size" size ++
      faultsOf "default_seed" seed)

/-- The last component of a path that is more than a point. -/
def lastComponent (path : Text) : Text :=
  let components := (path.splitOn '/').filter fun name => name ≠ [] ∧ name ≠ ['.']
  components.getLast?.getD []

/-- The name of the folder of preset files. -/
def Settings.wildcardDirName (settings : Settings) : Text :=
  match settings.wildcardDir with
  | none => "wildcards".toList
  | some path => lastComponent path

end PromptMarkup
