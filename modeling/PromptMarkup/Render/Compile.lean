import PromptMarkup.Draw.Twister
import PromptMarkup.Error
import PromptMarkup.Options.Compile
import PromptMarkup.Render.Resolve

/-!
# Compiling a tree

A tree is compiled to the text of a prompt, either as it stands or with every
choice made by draws of a seeded generator.  The seed is the one given, else the
default of the settings, else the time.

Main statements:

- {lit}`compile_of_isPresent`: only a missing tree is refused before the options are
  looked at.
- {lit}`compile_eq_ok_iff`: without choices, a tree is compiled to its text.
-/

namespace PromptMarkup

/-- Why a tree is not compiled. -/
inductive CompileError where
  | invalid (reason : Invalid)
  /-- A segment is missing where every segment is needed. -/
  | missingSegment
  | options (faults : List FieldFault)
  | render (reason : RenderError)
deriving DecidableEq

/-- The surroundings of a compilation: settings, which are looked at only when
they are needed, and the time. -/
structure Surroundings where
  settings : SettingsResult
  clock : Int

/-- The seed for making choices. -/
def Surroundings.seedFor (surroundings : Surroundings) (options : CompileOptions) :
    Except CompileError Int :=
  match options.seed with
  | some seed => .ok seed
  | none =>
    match surroundings.settings with
    | .ok settings => .ok (settings.defaultSeed.getD surroundings.clock)
    | .error faults => .error (.options faults)

/-- Compile a tree that is there, with options. -/
def compileWith {ι : Type} (surroundings : Surroundings) (options : CompileOptions)
    (root : Segment ι) : Except CompileError Text :=
  if options.expandWildcards then
    match surroundings.seedFor options with
    | .ok seed =>
      match root.resolve Twister.source options.maxDepth (.ofSeed seed) with
      | .ok (text, _) => .ok text
      | .error e => .error (.render e)
    | .error e => .error e
  else root.render.mapError .render

/-- The options to compile with. -/
def Surroundings.optionsFor (surroundings : Surroundings) (options : Option CompileOptions) :
    Except CompileError CompileOptions :=
  match options with
  | some options => .ok options
  | none => (CompileOptions.default surroundings.settings).mapError .options

/-- Compile a tree. -/
def compile {ι : Type} (surroundings : Surroundings) (options : Option CompileOptions)
    (root : Segment ι) : Except CompileError Text :=
  match root with
  | .missing => .error (.invalid .rootRequired)
  | root => do
    let options ← surroundings.optionsFor options
    compileWith surroundings options root

/-- A tree that is there is compiled with the options that are given. -/
theorem compile_of_isPresent {ι : Type} {root : Segment ι} (h : root.isPresent = true)
    (surroundings : Surroundings) (options : Option CompileOptions) :
    compile surroundings options root =
      surroundings.optionsFor options >>= fun options =>
        compileWith surroundings options root := by
  cases root with
  | missing => cases h
  | leaf head => rfl
  | branch head children => rfl

/-- Without choices, the outcome for a tree that is there is that of its text. -/
theorem compile_of_plain {ι : Type} {surroundings : Surroundings}
    {given : Option CompileOptions} {options : CompileOptions} {root : Segment ι}
    (hoptions : surroundings.optionsFor given = .ok options)
    (hplain : options.expandWildcards = false) (hpresent : root.isPresent = true) :
    compile surroundings given root = root.render.mapError .render := by
  rw [compile_of_isPresent hpresent, hoptions]
  exact if_neg (Bool.eq_false_iff.mp hplain)

/-- Without choices, a tree that is there is compiled to its text. -/
theorem compile_eq_ok_iff {ι : Type} {surroundings : Surroundings}
    {given : Option CompileOptions} {options : CompileOptions} {root : Segment ι} {text : Text}
    (hoptions : surroundings.optionsFor given = .ok options)
    (hplain : options.expandWildcards = false) (hpresent : root.isPresent = true) :
    compile surroundings given root = .ok text ↔ root.render = .ok text := by
  rw [compile_of_plain hoptions hplain hpresent]
  cases root.render with
  | ok other =>
    show (Except.ok other : Except CompileError Text) = .ok text ↔ _
    rw [Except.ok.injEq, Except.ok.injEq]
  | error reason => exact iff_of_false nofun nofun

/-- Expand the groups of a text to a depth, or to that of the settings. -/
def expandText {σ : Type} (settings : SettingsResult) (source : DrawSource σ)
    (maxDepth : Option Int) (text : Text) (state : σ) : Except CompileError (Text × σ) := do
  let limit ← match maxDepth with
    | some depth => .ok depth
    | none =>
      match settings with
      | .ok settings => .ok settings.maxExpansionDepth
      | .error faults => .error (.options faults)
  (expandGroups source limit text state).mapError fun e => .render (.draw e)

end PromptMarkup
