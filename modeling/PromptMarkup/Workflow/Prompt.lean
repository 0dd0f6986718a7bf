import PromptMarkup.Library.Categories
import PromptMarkup.Library.Presets
import PromptMarkup.Markup.Document
import PromptMarkup.Render.Compile
import PromptMarkup.Segment.Normal
import PromptMarkup.Segment.Walk
import PromptMarkup.Segment.Weight

/-!
# Prompt nodes of a workflow

The work of the three nodes that are offered to a workflow: compiling a prompt with
presets from a folder, bringing a prompt to normal form, and reporting the weights of
its spans.
-/

namespace PromptMarkup

/-- The folder of presets for a label: the folder of the category, and the given one
for the default label and for labels that are not on offer. -/
def categoryFolder (base fallback : Entry) (label : Text) : Entry :=
  if label = "Default".toList then fallback
  else
    match (Categories.of base).folders.get? label with
    | none => fallback
    | some name => (base.at? [name]).getD (.folder [])

/-- A prompt with its choices made, and the prompt as it stands. -/
structure CompiledPrompt where
  prompt : Text
  canonical : Text
deriving DecidableEq

/-- The request to compile a prompt. -/
structure CompileRequest where
  prompt : Text
  seed : Value
  expandWildcards : Bool
  maxDepth : Value
  category : Text

/-- Compile a prompt.  Presets are looked up in the folder of a category, and the
canonical text never has choices made. -/
def CompileRequest.run (surroundings : Surroundings) (base fallback : Entry)
    (request : CompileRequest) : Except CompileError CompiledPrompt := do
  let root := readPrompt request.prompt
  let canonical ← compile surroundings none root
  if !request.expandWildcards then .ok ⟨canonical, canonical⟩
  else
    let library := Library.ofFolder (categoryFolder base fallback request.category)
    let options ← (CompileOptions.read surroundings.settings
      [("expand_wildcards", .bool true), ("seed", request.seed),
        ("max_depth", request.maxDepth)]).mapError .options
    let prompt ← compile surroundings (some options) (root.inject library)
    .ok ⟨prompt, canonical⟩

/-- Bring a prompt to normal form. -/
def normalizePrompt (surroundings : Surroundings) (prompt : Text) : Except CompileError Text :=
  compile surroundings none (readPrompt prompt).normalize

/-! ## Weight report -/

/-- Why a prompt has no weight report. -/
inductive ReportError where
  | compile (reason : CompileError)
  | weight (reason : WeightError)
deriving DecidableEq

/-- The texts of some trees, one after the other. -/
def compileAll {ι : Type} (surroundings : Surroundings) :
    List (Segment ι) → Except CompileError Text
  | [] => .ok []
  | child :: rest => do
    let text ← compile surroundings none child
    let texts ← compileAll surroundings rest
    .ok (text ++ texts)

/-- The line of a report for a span: what it holds and its weight. -/
def reportLine {ι : Type} (surroundings : Surroundings) (span : Segment ι) :
    Except ReportError Text := do
  let inside ← (compileAll surroundings span.children).mapError .compile
  let value ← span.displayWeight.mapError .weight
  .ok (inside ++ ' ' :: 'x' :: weightText value)

/-- The lines of a report. -/
def reportLines {ι : Type} (surroundings : Surroundings) :
    List (Segment ι) → Except ReportError (List Text)
  | [] => .ok []
  | span :: rest => do
    let line ← reportLine surroundings span
    let lines ← reportLines surroundings rest
    .ok (line :: lines)

/-- A report on the weighted spans of a prompt, and their number. -/
structure WeightReport where
  report : Text
  count : Nat
deriving DecidableEq

/-- Report the weighted spans of a prompt in document order, one on a line. -/
def weightReport (surroundings : Surroundings) (prompt : Text) :
    Except ReportError WeightReport := do
  let spans := (readPrompt prompt).nodes.filter Segment.isWeighted
  let lines ← reportLines surroundings spans
  .ok ⟨joinWith ['\n'] lines, spans.length⟩

end PromptMarkup
