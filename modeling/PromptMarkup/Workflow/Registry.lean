import PromptMarkup.Workflow.Prompt

/-!
# The nodes on offer

Each node has a class name, a display name, a category, inputs and outputs.  An input
is described by its type, or by the list of its choices, and by its properties.
-/

namespace PromptMarkup

/-- The description of a node. -/
structure NodeClass where
  className : String
  displayName : String
  category : String
  returnTypes : List String
  returnNames : Option (List String)

/-- The node that compiles a prompt. -/
def compilerNode : NodeClass where
  className := "PromptSegmentCompiler"
  displayName := "Prompt Segment Compiler 🧩"
  category := "promptsegments/generation"
  returnTypes := ["STRING", "STRING"]
  returnNames := some ["prompt", "canonical"]

/-- The node that brings a prompt to normal form. -/
def normalizerNode : NodeClass where
  className := "PromptSegmentNormalizer"
  displayName := "Prompt Segment Normalizer 🧹"
  category := "promptsegments/processing"
  returnTypes := ["STRING"]
  returnNames := none

/-- The node that reports weights. -/
def reportNode : NodeClass where
  className := "PromptWeightReport"
  displayName := "Prompt Weight Report 🏋️"
  category := "promptsegments/processing"
  returnTypes := ["STRING", "INT"]
  returnNames := some ["report", "count"]

/-- All nodes on offer, in the order of their class names. -/
def nodeClasses : List NodeClass :=
  [compilerNode, normalizerNode, reportNode]

/-! ## Inputs -/

/-- An input of a simple type with its properties. -/
def simpleInput (type : String) (properties : Object) : Value :=
  .list [.ofString type, .object properties]

/-- The input for the text of a prompt. -/
def promptInput : Value :=
  simpleInput "STRING" [("multiline", .bool true)]

/-- The greatest seed. -/
def maxSeed : Int := 0xFFFFFFFFFFFFFFFF

/-- The inputs of the node that compiles a prompt. -/
def compilerInputs (settings : Settings) (categories : Categories) : Object :=
  [("prompt", promptInput),
    ("seed", simpleInput "INT" [("default", .int 0), ("min", .int 0), ("max", .int maxSeed)]),
    ("expand_wildcards", simpleInput "BOOLEAN" [("default", .bool true)]),
    ("max_depth", simpleInput "INT"
      [("default", .int settings.maxExpansionDepth), ("min", .int 0), ("max", .int 1000)]),
    ("wildcard_folder", .list
      [.list (categories.labels.map .str),
        .object [("default", .str (categories.labels.headD "Default".toList)),
          ("tooltip", .ofString categories.tooltip)]])]

/-- The inputs of a node.  Only the compiler's depend on the settings and on the
folders that are there. -/
def NodeClass.inputs (node : NodeClass) (settings : SettingsResult) (base : Entry) :
    Except (List FieldFault) Object :=
  if node.className = compilerNode.className then
    settings.map fun settings => compilerInputs settings (Categories.of base)
  else .ok [("prompt", promptInput)]

end PromptMarkup
