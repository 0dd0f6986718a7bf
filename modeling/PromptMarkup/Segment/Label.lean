import PromptMarkup.Segment.Basic

/-!
# Labels

Labelling gives every node of a tree without identifiers a fresh one, numbered in
document order from a given number on.
-/

namespace PromptMarkup.Segment

/-- A head with a fresh identifier in place of none. -/
def labelHead (serial : Nat) (head : Head Unit) : Head NodeId :=
  ⟨.fresh (head.kind.type?.getD .text) serial, head.kind, head.metadata⟩

mutual

/-- Label a tree; the result comes with the next free number. -/
def label (serial : Nat) : Segment Unit → Segment NodeId × Nat
  | .missing => (.missing, serial)
  | .leaf head => (.leaf (labelHead serial head), serial + 1)
  | .branch head children =>
    let (children, next) := labelList (serial + 1) children
    (.branch (labelHead serial head) children, next)

/-- Label a list of trees, one after the other. -/
def labelList (serial : Nat) : List (Segment Unit) → List (Segment NodeId) × Nat
  | [] => ([], serial)
  | child :: rest =>
    let (child, next) := label serial child
    let (rest, next) := labelList next rest
    (child :: rest, next)

end

end PromptMarkup.Segment
