import PromptMarkup.Segment.Basic
import PromptMarkup.Weight

/-!
# Weights of spans

The weight of a weighted span is computed from whatever its two fields hold.
-/

namespace PromptMarkup.Segment

variable {ι : Type}

/-- Whether a segment is a weighted span. -/
def isWeighted (segment : Segment ι) : Bool :=
  match segment.head? with
  | some ⟨_, .weighted .., _⟩ => true
  | _ => false

/-- The weight that is shown for a span; a segment of another kind has none. -/
def displayWeight (segment : Segment ι) : Except WeightError Binary64 :=
  match segment.head? with
  | some ⟨_, .weighted bracketType level, _⟩ =>
    PromptMarkup.displayWeight (bracketType.raw BracketType.toValue) (level.raw .int)
  | _ => .error .notASpan

end PromptMarkup.Segment
