import PromptMarkup.Markup.Piece
import PromptMarkup.Segment.Create

/-!
# Prompts

Every text is a prompt.  Its tree has an empty text at the root and one segment
for each of its pieces, neighbouring literal pieces being one text.  A span that
holds a single span of its own type and nothing else is one span of the next
level, so {lit}`{{cat}}` is a span of level 2.
-/

namespace PromptMarkup

/-- The number of spans that may be nested; brackets further inside are literal
text. -/
def maxNesting : Nat := 128

/-- Put literal text before some segments, into the first one where that is plain
text. -/
def prependLiteral (literal : Text) : List (Segment Unit) → List (Segment Unit)
  | .leaf ⟨_, .text (some content), none⟩ :: rest => .text () (literal ++ content) :: rest
  | segments => .text () literal :: segments

/-- The span around some segments.  A single span of the same type becomes one
level deeper, as long as levels last. -/
def wrapSpan (type : BracketType) (children : List (Segment Unit)) : Segment Unit :=
  match children with
  | [.branch ⟨_, .weighted (.valid inner) (.valid level), _⟩ grandchildren] =>
    if inner = type ∧ level < maxLevel then
      .weighted () type (level.toNat + 1) grandchildren
    else .weighted () type 1 children
  | _ => .weighted () type 1 children

/-- The level of the span around some segments, and what it holds. -/
def spanParts (type : BracketType) (children : List (Segment Unit)) :
    Nat × List (Segment Unit) :=
  match children with
  | [.branch ⟨_, .weighted (.valid inner) (.valid level), _⟩ inside] =>
    if inner = type ∧ level < maxLevel then (level.toNat + 1, inside) else (1, children)
  | _ => (1, children)

/-- The segments of some pieces; {lit}`nested` reads the text inside a span. -/
def ofPieces (nested : Text → List (Segment Unit)) : List Piece → List (Segment Unit)
  | [] => []
  | .literal text :: rest => prependLiteral text (ofPieces nested rest)
  | .weighted type inside :: rest => wrapSpan type (nested inside) :: ofPieces nested rest
  | .group options :: rest =>
    .inlineWildcard () (options.map .str) :: ofPieces nested rest
  | .random name :: rest => .preset () name .random none [] :: ofPieces nested rest
  | .fixed name value :: rest => .preset () name .fixed (some value) [] :: ofPieces nested rest

/-- The segments of a text in which spans may be nested to some depth. -/
def readSegments : Nat → Text → List (Segment Unit)
  | 0, text => ofPieces (fun _ => []) (pieces false true text)
  | depth + 1, text => ofPieces (readSegments depth) (pieces true true text)

/-- The root of a prompt. -/
def promptRoot (children : List (Segment Unit)) : Segment Unit :=
  .branch ⟨(), .text (some []), none⟩ children

/-- The tree of a prompt. -/
def readPrompt (text : Text) : Segment Unit :=
  promptRoot (readSegments maxNesting text)

end PromptMarkup
