import PromptMarkup.Number.Binary64

/-!
# Draws

A source gives double-precision numbers one after the other.  A draw picks an item
of a list by its share of the length; a source normally stays between 0 and 1, but
any number can be drawn, and those for which there is no item are refused.
-/

namespace PromptMarkup

/-- A source of draws with states of a given type. -/
structure DrawSource (σ : Type) where
  next : σ → Binary64 × σ

/-- The source that gives the numbers of a list, and zeros after them. -/
def DrawSource.ofList : DrawSource (List Binary64) where
  next
    | [] => (.zero false, [])
    | x :: rest => (x, rest)

/-- A source together with the number of its draws so far. -/
def DrawSource.counted {σ : Type} (source : DrawSource σ) : DrawSource (σ × Nat) where
  next state :=
    let (x, rest) := source.next state.1
    (x, rest, state.2 + 1)

/-- Why a draw picks no item. -/
inductive DrawError where
  | notANumber
  | infinite
  | beforeFirst
deriving DecidableEq, Repr

/-- The position that a draw picks in a list of some length: the share of the
length, rounded down, and at most the last position.  A draw below zero counts
positions from the end. -/
def pickIndex (draw : Binary64) (length : Nat) : Except DrawError Nat :=
  match draw.timesFloor length with
  | .error .nan => .error .notANumber
  | .error _ => .error .infinite
  | .ok (.ofNat index) => .ok (min index (length - 1))
  | .ok (.negSucc index) =>
    if index < length then .ok (length - (index + 1)) else .error .beforeFirst

/-- The item of a list that a draw picks. -/
def pick {α : Type} (draw : Binary64) (items : List α) : Except DrawError α :=
  match pickIndex draw items.length with
  | .error e => .error e
  | .ok index =>
    match items[index]? with
    | some item => .ok item
    | none => .error .beforeFirst

/-- What a draw picks is an item of the list. -/
theorem mem_of_pick {α : Type} {draw : Binary64} {items : List α} {item : α}
    (h : pick draw items = .ok item) : item ∈ items := by
  unfold pick at h
  split at h
  · cases h
  · split at h
    · cases h
      exact List.mem_of_getElem? ‹_›
    · cases h

end PromptMarkup
