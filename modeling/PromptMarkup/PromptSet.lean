import PromptMarkup.Render.Compile

/-!
# Prompt sets

A prompt set has a positive and a negative prompt for the main picture and for each
of some numbered characters.  Each prompt is named by the key of its root among
given trees, and a key that is empty or unknown gives an empty prompt.
-/

namespace PromptMarkup

/-- A positive and a negative prompt, each of them named or not. -/
structure PromptPair where
  positive : Option Text := none
  negative : Option Text := none

/-- The prompts of a set: the main pair and the pairs of the characters. -/
structure PromptRoots where
  main : PromptPair
  characters : Assoc Int PromptPair

/-! ## Reading the roots -/

/-- Read the key of a prompt, which may be left open. -/
def readRootKey (path : List String) : Option Value → Except (List FieldFault) (Option Text)
  | none => .ok none
  | some .null => .ok none
  | some (.str key) => .ok (some key)
  | some _ => .error [⟨path, .notAText⟩]

/-- The faults of something that was read. -/
def faultsIn {α : Type} : Except (List FieldFault) α → List FieldFault
  | .ok _ => []
  | .error faults => faults

/-- Read a pair of prompts. -/
def PromptPair.read (path : List String) : Value → Except (List FieldFault) PromptPair
  | .object fields =>
    let positive := readRootKey (path ++ ["positive"]) (Assoc.get? "positive" fields)
    let negative := readRootKey (path ++ ["negative"]) (Assoc.get? "negative" fields)
    match positive, negative with
    | .ok positive, .ok negative => .ok ⟨positive, negative⟩
    | positive, negative => .error (faultsIn positive ++ faultsIn negative)
  | _ => .error [⟨path, .notARecord⟩]

/-- Read the number of a character from the name of its field. -/
def readCharacterNumber (name : String) : Except (List FieldFault) Int :=
  match readIntegerText name.toList with
  | .ok n => .ok n
  | .error fault => .error [⟨["characters", name, "[key]"], fault⟩]

/-- Read the pairs of the characters.  Of two fields for one number the later
counts. -/
def readCharacters (pairs : Assoc Int PromptPair) :
    List (String × Value) → Except (List FieldFault) (Assoc Int PromptPair)
  | [] => .ok pairs
  | (name, value) :: rest =>
    let number := readCharacterNumber name
    let pair := PromptPair.read ["characters", name] value
    match number, pair with
    | .ok number, .ok pair => readCharacters (pairs.set number pair) rest
    | number, pair =>
      .error (faultsIn number ++ faultsIn pair ++ faultsIn (readCharacters pairs rest))

/-- Read the roots of a prompt set. -/
def PromptRoots.read (fields : Object) : Except (List FieldFault) PromptRoots :=
  let main : Except (List FieldFault) PromptPair :=
    match fields.get? "main" with
    | none => .ok {}
    | some value => PromptPair.read ["main"] value
  let characters : Except (List FieldFault) (Assoc Int PromptPair) :=
    match fields.get? "characters" with
    | none => .ok []
    | some (.object pairs) => readCharacters [] pairs
    | some _ => .error [⟨["characters"], .notAMap⟩]
  match main, characters with
  | .ok main, .ok characters => .ok ⟨main, characters⟩
  | main, characters => .error (faultsIn main ++ faultsIn characters)

/-! ## Compiling -/

/-- The texts of a positive and a negative prompt. -/
structure CompiledPair where
  positive : Text
  negative : Text
deriving DecidableEq

/-- The texts of a prompt set. -/
structure CompiledPromptSet where
  main : CompiledPair
  characters : Assoc Int CompiledPair

variable {ι : Type}

/-- Compile the tree under a key. -/
def compileRoot (surroundings : Surroundings) (options : Option CompileOptions)
    (trees : Assoc Text (Segment ι)) (key : Option Text) : Except CompileError Text :=
  match key with
  | none => .ok []
  | some [] => .ok []
  | some key =>
    match trees.get? key with
    | none => .ok []
    | some .missing => .ok []
    | some root => compile surroundings options root

/-- Compile a pair of prompts. -/
def compilePair (surroundings : Surroundings) (options : Option CompileOptions)
    (trees : Assoc Text (Segment ι)) (pair : PromptPair) : Except CompileError CompiledPair := do
  let positive ← compileRoot surroundings options trees pair.positive
  let negative ← compileRoot surroundings options trees pair.negative
  .ok ⟨positive, negative⟩

/-- Compile the pairs of the characters. -/
def compileCharacters (surroundings : Surroundings) (options : Option CompileOptions)
    (trees : Assoc Text (Segment ι)) :
    List (Int × PromptPair) → Except CompileError (Assoc Int CompiledPair)
  | [] => .ok []
  | (number, pair) :: rest => do
    let pair ← compilePair surroundings options trees pair
    let rest ← compileCharacters surroundings options trees rest
    .ok ((number, pair) :: rest)

/-- Compile a prompt set. -/
def compilePromptSet (surroundings : Surroundings) (options : Option CompileOptions)
    (trees : Assoc Text (Segment ι)) (roots : PromptRoots) :
    Except CompileError CompiledPromptSet := do
  let characters ← compileCharacters surroundings options trees roots.characters
  let main ← compilePair surroundings options trees roots.main
  .ok ⟨main, characters⟩

end PromptMarkup
