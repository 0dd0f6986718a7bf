import PromptMarkup.Proofs.CondensedTree

/-!
# Joining runs from the right

Neighbouring plain texts are joined into the first of them, one after the other.  It comes to the
same to join what follows a segment before the segment is joined with the first of it, so runs
can be joined from the right, and two texts that come one after the other may as well be one.

Main statements:

- {lit}`joinFirst_joinFirst`: two plain texts are joined with what follows one by one or together.
- {lit}`mergeRuns_append`: runs are joined from the right.
- {lit}`mergeRuns_mergeRuns`: what is joined stays as it is.
-/

namespace PromptMarkup

namespace Segment

variable {ι : Type}

/-- Put a segment before others, joined with the first of them where both are plain text. -/
def joinFirst (segment : Segment ι) : List (Segment ι) → List (Segment ι)
  | [] => [segment]
  | first :: rest =>
    match segment.plainText?, first.plainText? with
    | some before, some content => segment.withContent (before ++ content) :: rest
    | _, _ => segment :: first :: rest

/-- Plain texts are joined. -/
theorem joinFirst_of_plainText? {segment first : Segment ι} {before content : Text}
    (hbefore : segment.plainText? = some before) (hcontent : first.plainText? = some content)
    (rest : List (Segment ι)) :
    segment.joinFirst (first :: rest) = segment.withContent (before ++ content) :: rest := by
  simp [joinFirst, hbefore, hcontent]

/-- What is no plain text is not joined with what follows. -/
theorem joinFirst_of_none {segment : Segment ι} (h : segment.plainText? = none)
    (others : List (Segment ι)) : segment.joinFirst others = segment :: others := by
  cases others with
  | nil => rfl
  | cons first rest => simp [joinFirst, h]

/-- What is no plain text is not joined with what comes before. -/
theorem joinFirst_of_none_right {first : Segment ι} (h : first.plainText? = none)
    (segment : Segment ι) (rest : List (Segment ι)) :
    segment.joinFirst (first :: rest) = segment :: first :: rest := by
  cases hsegment : segment.plainText? <;> simp [joinFirst, hsegment, h]

/-- The last content that plain text is given stays. -/
theorem withContent_withContent (segment : Segment ι) (content other : Text) :
    (segment.withContent content).withContent other = segment.withContent other := by
  cases segment with
  | missing => rfl
  | leaf head =>
    rcases head with ⟨id, kind, metadata⟩
    cases kind <;> rfl
  | branch head children =>
    rcases head with ⟨id, kind, metadata⟩
    cases kind <;> rfl

/-- Two plain texts in a row are joined with what follows one by one or together. -/
theorem joinFirst_joinFirst {segment next : Segment ι} {before content : Text}
    (hbefore : segment.plainText? = some before) (hcontent : next.plainText? = some content)
    (others : List (Segment ι)) :
    segment.joinFirst (next.joinFirst others) =
      (segment.withContent (before ++ content)).joinFirst others := by
  cases others with
  | nil => exact joinFirst_of_plainText? hbefore hcontent []
  | cons first rest =>
    cases hfirst : first.plainText? with
    | none =>
      rw [joinFirst_of_none_right hfirst, joinFirst_of_none_right hfirst,
        joinFirst_of_plainText? hbefore hcontent]
    | some more =>
      rw [joinFirst_of_plainText? hcontent hfirst,
        joinFirst_of_plainText? hbefore (plainText?_withContent hcontent _),
        joinFirst_of_plainText? (plainText?_withContent hbefore _) hfirst,
        withContent_withContent, List.append_assoc]

/-- Runs are joined after a segment, and the first then with it. -/
theorem mergeAfter_eq (previous : Segment ι) (rest : List (Segment ι)) :
    mergeAfter previous rest = previous.joinFirst (mergeRuns rest) := by
  induction rest generalizing previous with
  | nil => rfl
  | cons segment rest ih =>
    rw [mergeAfter, mergeRuns, ih segment]
    split
    · rename_i before content hbefore hcontent
      rw [ih, joinFirst_joinFirst hbefore hcontent]
    · rename_i hnone
      cases hprevious : previous.plainText? with
      | none => rw [joinFirst_of_none hprevious]
      | some before =>
        have hsegment : segment.plainText? = none := by
          cases hcontent : segment.plainText? with
          | none => rfl
          | some content => exact absurd hcontent (hnone before content hprevious)
        rw [joinFirst_of_none hsegment, joinFirst_of_none_right hsegment]

/-- The first segment is joined with what the others are joined to. -/
theorem mergeRuns_cons (segment : Segment ι) (rest : List (Segment ι)) :
    mergeRuns (segment :: rest) = segment.joinFirst (mergeRuns rest) :=
  mergeAfter_eq segment rest

/-- Runs are joined from the right. -/
theorem mergeRuns_append (trees others : List (Segment ι)) :
    mergeRuns (trees ++ others) = trees.foldr joinFirst (mergeRuns others) := by
  induction trees with
  | nil => rfl
  | cons tree rest ih => rw [List.cons_append, mergeRuns_cons, ih, List.foldr_cons]

/-- Runs are joined from the right. -/
theorem mergeRuns_eq_foldr (trees : List (Segment ι)) :
    mergeRuns trees = trees.foldr joinFirst [] := by
  have happend := mergeRuns_append trees []
  rwa [List.append_nil] at happend

/-- A segment that is put before others stays there as more is joined at their end. -/
theorem foldr_joinFirst (segment : Segment ι) (trees last : List (Segment ι)) :
    (segment.joinFirst trees).foldr joinFirst last =
      segment.joinFirst (trees.foldr joinFirst last) := by
  cases trees with
  | nil => rfl
  | cons first rest =>
    cases hsegment : segment.plainText? with
    | none =>
      rw [joinFirst_of_none hsegment, joinFirst_of_none hsegment, List.foldr_cons,
        joinFirst_of_none hsegment]
    | some before =>
      cases hfirst : first.plainText? with
      | none => rw [joinFirst_of_none_right hfirst, List.foldr_cons]
      | some content =>
        rw [joinFirst_of_plainText? hsegment hfirst, List.foldr_cons, List.foldr_cons,
          joinFirst_joinFirst hsegment hfirst]

/-- What is joined stays as it is. -/
theorem mergeRuns_mergeRuns (trees : List (Segment ι)) :
    mergeRuns (mergeRuns trees) = mergeRuns trees := by
  induction trees with
  | nil => rfl
  | cons tree rest ih =>
    rw [mergeRuns_cons, mergeRuns_eq_foldr, foldr_joinFirst, ← mergeRuns_eq_foldr, ih]

end Segment

end PromptMarkup
