import Mathlib.Data.List.Nodup
import Mathlib.Data.List.Perm.Subperm
import PromptMarkup.Proofs.TreeExpansion

/-!
# Expansion within the depth limit

A pair of parentheses that stands in some others comes up for expansion that many levels deep, at
most.  So where no pair stands inside more others than the limit on the depth allows, every group
is expanded before it is too deep.  An option that was drawn is balanced, and so is what it is
expanded to; in its place the depth of the text goes on as before.  So the parentheses before it
that had no partner still have none, and no group forms across the seam.

Main statements:

- {lit}`NestsWithin.of_append`: inside some pairs of a text fewer pairs stand around a part of it.
- {lit}`FirstGroup.noGroup_splice`: a text has no group if what came in the place of its first
  group and what follows that has none.
- {lit}`Expands.noGroup` and {lit}`Expands.of_le`: within the limit on the depth no group is left,
  and a larger limit makes no difference.
- {lit}`expandGroups_complete`: so an expanded text is expanded to itself without a draw.
-/

namespace PromptMarkup

/-! ## Pairs by where they stand -/

/-- Where the parenthesis at a position of a text closes, if it is one that opens a pair. -/
def closing? (text : Text) (start : Nat) : Option Nat :=
  match text.drop start with
  | '(' :: rest => (groupClose? 0 rest).map fun (inside, _) => start + inside.length + 1
  | _ => none

/-- The pairs that a position stands inside, by where they open. -/
def enclosing (text : Text) (position : Nat) : List Nat :=
  (List.range position).filter fun start => (closing? text start).any (position < ·)

/-- No pair of a text stands inside more than a number of other pairs. -/
def NestsWithin (depth : Int) (text : Text) : Prop :=
  ∀ start < text.length, (closing? text start).isSome = true →
    ((enclosing text start).length : Int) ≤ depth

instance (depth : Int) (text : Text) : Decidable (NestsWithin depth text) :=
  inferInstanceAs (Decidable (∀ start < text.length, _))

/-- A parenthesis closes where its pair does. -/
theorem closing?_eq_some_iff {text : Text} {start close : Nat} :
    closing? text start = some close ↔
      ∃ before inside after, Paired text before inside after ∧ before.length = start ∧
        close = start + inside.length + 1 := by
  unfold closing?
  constructor
  · intro h
    split at h
    · rename_i rest hdrop
      rcases Option.map_eq_some_iff.mp h with ⟨⟨inside, after⟩, hclose, rfl⟩
      rcases groupClose?_eq_some_iff.mp hclose with ⟨rfl, hinside⟩
      refine ⟨text.take start, inside, after, ⟨?_, hinside⟩, ?_, rfl⟩
      · rw [← hdrop, List.take_append_drop]
      · have hlength := congrArg List.length hdrop
        simp only [List.length_drop, List.length_cons] at hlength
        rw [List.length_take]
        omega
    · cases h
  · rintro ⟨before, inside, after, hpair, rfl, rfl⟩
    rw [hpair.split, List.drop_left]
    simp [hpair.balanced.groupClose?]

/-- A pair closes at the same place of a text around it. -/
theorem closing?_append {text : Text} {start close : Nat} (h : closing? text start = some close)
    (front back : Text) :
    closing? (front ++ text ++ back) (front.length + start) = some (front.length + close) := by
  rcases closing?_eq_some_iff.mp h with ⟨before, inside, after, hpair, rfl, rfl⟩
  refine closing?_eq_some_iff.mpr ⟨front ++ before, inside, after ++ back, ⟨?_, hpair.balanced⟩,
    List.length_append, ?_⟩
  · rw [hpair.split]
    simp
  · omega

/-- A pair encloses a position if it opens before it and closes behind it. -/
theorem mem_enclosing_iff {text : Text} {start position : Nat} :
    start ∈ enclosing text position ↔
      start < position ∧ ∃ close, closing? text start = some close ∧ position < close := by
  rw [enclosing, List.mem_filter, List.mem_range, Option.any_eq_true]
  simp only [decide_eq_true_eq]

/-- A pair stands inside those of its part of a text, and inside others of the text. -/
theorem length_enclosing_le {front text back : Text} {position : Nat} {outer : List Nat}
    (hnodup : outer.Nodup)
    (houter : ∀ start ∈ outer, start < front.length ∧
      start ∈ enclosing (front ++ text ++ back) (front.length + position)) :
    outer.length + (enclosing text position).length ≤
      (enclosing (front ++ text ++ back) (front.length + position)).length := by
  have hinner : ((enclosing text position).map (front.length + ·)).Nodup :=
    List.Nodup.map (fun _ _ => Nat.add_left_cancel) (List.Nodup.filter _ List.nodup_range)
  have hall : (outer ++ (enclosing text position).map (front.length + ·)).Nodup := by
    refine List.nodup_append.mpr ⟨hnodup, hinner, fun start hstart other hother heq => ?_⟩
    rcases List.mem_map.mp hother with ⟨later, -, rfl⟩
    have hlt := (houter start hstart).1
    omega
  have hsub : outer ++ (enclosing text position).map (front.length + ·) ⊆
      enclosing (front ++ text ++ back) (front.length + position) := by
    intro start hstart
    rcases List.mem_append.mp hstart with hstart | hstart
    · exact (houter start hstart).2
    · rcases List.mem_map.mp hstart with ⟨later, hlater, rfl⟩
      rcases mem_enclosing_iff.mp hlater with ⟨hlt, close, hclose, hbehind⟩
      exact mem_enclosing_iff.mpr
        ⟨by omega, _, closing?_append hclose front back, by omega⟩
  have hlength := (List.subperm_of_subset hall hsub).length_le
  rwa [List.length_append, List.length_map] at hlength

/-- Inside some pairs of a text fewer other pairs stand around those of a part of it. -/
theorem NestsWithin.of_append {depth : Int} {front text back : Text} {outer : List Nat}
    (h : NestsWithin depth (front ++ text ++ back)) (hnodup : outer.Nodup)
    (houter : ∀ start ∈ outer, start < front.length ∧
      ∃ close, closing? (front ++ text ++ back) start = some close ∧
        front.length + text.length ≤ close) :
    NestsWithin (depth - outer.length) text := by
  intro start hstart hpair
  rcases Option.isSome_iff_exists.mp hpair with ⟨close, hclose⟩
  have hlength : front.length + start < (front ++ text ++ back).length := by
    simp only [List.length_append]
    omega
  have hwhole := h (front.length + start) hlength (by rw [closing?_append hclose]; rfl)
  have hle : outer.length + (enclosing text start).length ≤
      (enclosing (front ++ text ++ back) (front.length + start)).length := by
    refine length_enclosing_le hnodup fun other hother => ?_
    rcases houter other hother with ⟨hlt, last, hlast, hbehind⟩
    exact ⟨hlt, mem_enclosing_iff.mpr ⟨by omega, last, hlast, by omega⟩⟩
  omega

/-- What follows the first group nests no deeper than the text. -/
theorem FirstGroup.nestsWithin_after {depth : Int} {text before inside after : Text}
    (h : FirstGroup text before inside after) (hnests : NestsWithin depth text) :
    NestsWithin depth after := by
  have hsplit : text = (before ++ '(' :: (inside ++ [')'])) ++ after ++ [] := by
    rw [h.split]
    simp
  rw [hsplit] at hnests
  simpa using hnests.of_append List.nodup_nil (List.forall_mem_nil _)

/-- An option of the first group nests one level less deep than the text. -/
theorem FirstGroup.nestsWithin_option {limit : Int} {level : Nat}
    {text before inside after option : Text} (h : FirstGroup text before inside after)
    (hoption : option ∈ groupOptions inside) (hnests : NestsWithin (limit - level) text) :
    NestsWithin (limit - (level + 1 : Nat)) option := by
  rcases isInfix_of_mem_groupOptions hoption with ⟨start, last, hinside⟩
  have hsplit : text = (before ++ '(' :: start) ++ option ++ (last ++ ')' :: after) := by
    rw [h.split, ← hinside]
    simp
  have hclose : closing? text before.length = some (before.length + inside.length + 1) :=
    closing?_eq_some_iff.mpr ⟨before, inside, after, ⟨h.split, h.opens.balanced⟩, rfl, rfl⟩
  have hlength := congrArg List.length hinside
  simp only [List.length_append] at hlength
  rw [hsplit] at hnests hclose
  have hinner : NestsWithin (limit - level - [before.length].length) option := by
    refine hnests.of_append (List.nodup_singleton before.length) fun other hother => ?_
    rw [List.mem_singleton.mp hother]
    refine ⟨by simp, _, hclose, ?_⟩
    simp only [List.length_append, List.length_cons]
    omega
  have hlevel : limit - (level + 1 : Nat) = limit - level - [before.length].length := by
    rw [List.length_singleton]
    omega
  rwa [hlevel]

/-- Where no pair may stand there is no group. -/
theorem NestsWithin.noGroup {depth : Int} {text : Text} (h : NestsWithin depth text)
    (hdepth : depth < 0) : NoGroup text := by
  intro start rest hsplit inside after hopens
  have hclose : closing? text start.length = some (start.length + inside.length + 1) :=
    closing?_eq_some_iff.mpr
      ⟨start, inside, after, ⟨by rw [hsplit, hopens.split], hopens.balanced⟩, rfl, rfl⟩
  have hlength : start.length < text.length := by
    rw [hsplit]
    simp
  have hnests := h start.length hlength (by rw [hclose]; rfl)
  omega

/-! ## Texts after a choice was made -/

/-- A character of two texts, one after the other, stands in the first or in the second. -/
theorem append_eq_append_cons {first second start rest : Text} {c : Char}
    (h : first ++ second = start ++ c :: rest) :
    (∃ more, first = start ++ c :: more ∧ rest = more ++ second) ∨
      ∃ more, start = first ++ more ∧ second = more ++ c :: rest := by
  rcases List.append_eq_append_iff.mp h with ⟨more, hstart, hsecond⟩ | ⟨more, hfirst, hrest⟩
  · exact Or.inr ⟨more, hstart, hsecond⟩
  · cases more with
    | nil => exact Or.inr ⟨[], by simpa using hfirst.symm, hrest.symm⟩
    | cons d more =>
      cases hrest
      exact Or.inl ⟨more, hfirst, rfl⟩

/-- A group opens in a balanced text only where it closes in it. -/
theorem Balanced.noGroup_append {text : Text} (h : Balanced text) (hnone : NoGroup text)
    {start more : Text} (hsplit : text = start ++ '(' :: more) (rest inside after : Text) :
    ¬OpensGroup (more ++ rest) inside after := by
  intro hopens
  rw [hsplit] at h
  have hshort := h.length_lt hopens.split hopens.balanced
  have hprefix : inside ++ [')'] <+: more := by
    refine List.prefix_of_prefix_length_le ⟨after, ?_⟩ (List.prefix_append more rest) ?_
    · rw [hopens.split]
      simp
    · rw [List.length_append, List.length_singleton]
      exact hshort
  rcases hprefix with ⟨behind, rfl⟩
  exact hnone start _ hsplit inside behind ⟨by simp, hopens.balanced, hopens.choice⟩

section Splice

variable {text before inside after : Text} (h : FirstGroup text before inside after)

include h

/-- A parenthesis before the first group opens no group, whatever comes in the place of the first
group and of what follows it, if that changes the depth in the same way. -/
theorem FirstGroup.noGroup_before {start more : Text} (hbefore : before = start ++ '(' :: more)
    {rest : Text}
    (hrest : ∀ depth, groupDepth? true depth rest =
      groupDepth? true depth ('(' :: (inside ++ ')' :: after))) (inside' after' : Text) :
    ¬OpensGroup (more ++ rest) inside' after' := by
  intro hopens
  have hsplit : text = start ++ '(' :: (more ++ '(' :: (inside ++ ')' :: after)) := by
    rw [h.split, hbefore]
    simp
  have hfirst := h.first start _ (by simp [hbefore]) hsplit
  have hclose := hopens.groupClose?
  cases hmore : groupDepth? true 0 more with
  | none =>
    -- It closes before the first group, in both texts.
    have hearly : groupClose? 0 more ≠ none := fun hnone => groupClose?_eq_none_iff.mp hnone hmore
    rcases Option.ne_none_iff_exists'.mp hearly with ⟨⟨inner, behind⟩, hinner⟩
    rw [groupClose?_append_right hinner] at hclose
    cases hclose
    rcases groupClose?_eq_some_iff.mp (groupClose?_append_right hinner _) with ⟨hwhole, hbalanced⟩
    exact hfirst _ _ ⟨hwhole, hbalanced, hopens.choice⟩
  | some depth =>
    -- It closes behind the first group in both texts, so that group is inside it.
    have hlate : groupClose? depth ('(' :: (inside ++ ')' :: after)) ≠ none := by
      rw [Ne, groupClose?_eq_none_iff, ← hrest, ← groupClose?_eq_none_iff]
      intro hnone
      rw [groupClose?_append _ hmore, hnone] at hclose
      cases hclose
    rcases Option.ne_none_iff_exists'.mp hlate with ⟨⟨inner, behind⟩, hinner⟩
    have hwhole : groupClose? 0 (more ++ '(' :: (inside ++ ')' :: after)) =
        some (more ++ inner, behind) := by
      rw [groupClose?_append _ hmore, hinner]
      rfl
    have hopen : '(' ∈ inner := by
      rw [groupClose?_cons, if_neg (by simp)] at hinner
      rcases Option.map_eq_some_iff.mp hinner with ⟨_, -, heq⟩
      cases heq
      exact List.mem_cons_self
    rcases groupClose?_eq_some_iff.mp hwhole with ⟨hsplit', hbalanced⟩
    exact hfirst _ _ ⟨hsplit', hbalanced, fun hnil =>
      not_mem_of_groupOptions_eq_nil hnil (List.mem_append_right _ hopen)⟩

/-- No group is left if there is none in what comes in the place of the first group, nor in what
follows it, and the depth goes on as before. -/
theorem FirstGroup.noGroup_splice {inner rest : Text} (hinner : Balanced inner)
    (hinnerNone : NoGroup inner)
    (hrest : ∀ depth, groupDepth? true depth rest = groupDepth? true depth after)
    (hrestNone : NoGroup rest) : NoGroup (before ++ (inner ++ rest)) := by
  have hdepth : ∀ depth, groupDepth? true depth (inner ++ rest) =
      groupDepth? true depth ('(' :: (inside ++ ')' :: after)) := by
    intro depth
    have hgroup : '(' :: (inside ++ ')' :: after) = ('(' :: inside ++ [')']) ++ after := by simp
    rw [hgroup, groupDepth?_append, groupDepth?_append, hinner.depth,
      h.opens.balanced.undivided_group.balanced.depth]
    exact hrest depth
  intro start more hsplit inside' after'
  rcases append_eq_append_cons hsplit with ⟨first, hbefore, rfl⟩ | ⟨later, -, hlater⟩
  · exact h.noGroup_before hbefore hdepth inside' after'
  · rcases append_eq_append_cons hlater with ⟨first, hfirst, rfl⟩ | ⟨last, -, hlast⟩
    · exact hinner.noGroup_append hinnerNone hfirst rest inside' after'
    · exact hrestNone last more hlast inside' after'

end Splice

/-! ## Complete expansion -/

/-- An option of the first group is balanced. -/
theorem FirstGroup.balanced_option {text before inside after option : Text}
    (h : FirstGroup text before inside after) (hoption : option ∈ groupOptions inside) :
    Balanced option :=
  (tidyOption_of_mem_groupOptions h.opens.balanced hoption).undivided.balanced

/-- The depth goes on after an expanded text as after the text. -/
theorem Expands.groupDepth?_eq {limit : Int} {level : Nat} {text out : Text}
    {draws : List Binary64} (h : Expands limit level text draws out) (depth : Nat) :
    groupDepth? true depth out = groupDepth? true depth text := by
  induction h generalizing depth with
  | deep => rfl
  | plain => rfl
  | @group level text before inside after option inner rest _ _ _ _ _ hfirst _ hoption _ _ ih
      ih' =>
    have hbalanced : Balanced inner :=
      (ih 0).trans (hfirst.balanced_option (List.mem_of_getElem? hoption))
    have hgroup := hfirst.opens.balanced.undivided_group.balanced
    have hsplit : text = before ++ (('(' :: inside ++ [')']) ++ after) := by
      rw [hfirst.split]
      simp
    simp only [hsplit, groupDepth?_append, hbalanced.depth, hgroup.depth, ih', Option.bind_some]

section Within

variable {limit : Int} {level : Nat} {text out : Text} {draws : List Binary64}
  (h : Expands limit level text draws out) (hnests : NestsWithin (limit - level) text)

include h hnests

/-- Within the limit on the depth no group is left. -/
theorem Expands.noGroup : NoGroup out := by
  induction h with
  | deep level text hdeep => exact hnests.noGroup (by omega)
  | plain level text hplain => exact hplain
  | @group level text before inside after option inner rest _ _ _ _ _ hfirst _ hoption hinner hrest
      ih ih' =>
    have hmem := List.mem_of_getElem? hoption
    have hbalanced : Balanced inner :=
      (hinner.groupDepth?_eq 0).trans (hfirst.balanced_option hmem)
    exact hfirst.noGroup_splice hbalanced (ih (hfirst.nestsWithin_option hmem hnests))
      hrest.groupDepth?_eq (ih' (hfirst.nestsWithin_after hnests))

/-- Within a limit on the depth a larger one makes no difference. -/
theorem Expands.of_le {larger : Int} (hle : limit ≤ larger) :
    Expands larger level text draws out := by
  induction h with
  | deep level text hdeep => exact .plain level text (hnests.noGroup (by omega))
  | plain level text hplain => exact .plain level text hplain
  | group hlevel hfirst hshare hoption _ _ ih ih' =>
    have hinner := ih (hfirst.nestsWithin_option (List.mem_of_getElem? hoption) hnests)
    have hrest := ih' (hfirst.nestsWithin_after hnests)
    exact .group (by omega) hfirst hshare hoption hinner hrest

end Within

/-- A text without groups is expanded to itself, and nothing is drawn. -/
theorem expandGroups_of_noGroup {σ : Type} {text : Text} (h : NoGroup text)
    (source : DrawSource σ) (limit : Int) (state : σ) :
    expandGroups source limit text state = .ok (text, state) := by
  have hnone : nextGroup? text = none := by
    cases hnext : nextGroup? text with
    | none => rfl
    | some group =>
      rcases nextGroup?_eq_some hnext with ⟨inside, hfirst, -⟩
      exact absurd hfirst.opens (h _ _ hfirst.split _ _)
  rw [expandGroups]
  by_cases hlevel : limit < (0 : Nat)
  · rw [expandStack, if_pos hlevel, expandStack]
    simp [Except.map]
  · rw [expandStack_of_none hlevel hnone, expandStack]
    simp [Except.map]

section Source

variable {σ : Type} {source : DrawSource σ} {text : Text} {state : σ}
  (hunit : source.GivesUnit state) (hlength : text.length < bracketBound)

include hunit hlength

/-- What the recursion comes to is what a text is expanded to. -/
theorem Expands.expandGroups_eq {limit : Int} {draws : List Binary64} {out : Text} {last : σ}
    (h : Expands limit 0 text draws out) (hgives : source.Gives state draws last) :
    expandGroups source limit text state = .ok (out, last) := by
  rcases exists_expandStack limit hunit hlength with
    ⟨draws', out', last', hresult, hgives', hexpands⟩
  rcases h.unique hexpands hgives hgives' with ⟨rfl, rfl⟩
  rw [expandGroups, hresult, hgives.last_eq hgives']

/-- Where no pair stands inside more others than the limit on the depth, a text is expanded
completely.  A larger limit gives the same text with the same draws; and the text that comes out is
expanded to itself, with whatever source and limit, and nothing is drawn. -/
theorem expandGroups_complete {limit : Int} (hnests : NestsWithin limit text) :
    ∃ draws out last, expandGroups source limit text state = .ok (out, last) ∧
      source.Gives state draws last ∧ Expands limit 0 text draws out ∧
      (∀ larger, limit ≤ larger → expandGroups source larger text state = .ok (out, last) ∧
        Expands larger 0 text draws out) ∧
      ∀ other, Expands other 0 out [] out ∧
        ∀ (τ : Type) (next : DrawSource τ) (start : τ),
          expandGroups next other out start = .ok (out, start) := by
  rcases exists_expandStack limit hunit hlength with
    ⟨draws, out, last, hresult, hgives, hexpands⟩
  have hlevel : NestsWithin (limit - (0 : Nat)) text := by simpa using hnests
  have hnone := hexpands.noGroup hlevel
  refine ⟨draws, out, last, hresult, hgives, hexpands, fun larger hle => ?_, fun other =>
    ⟨.plain 0 out hnone, fun τ next start => expandGroups_of_noGroup hnone next other start⟩⟩
  have hlarger := hexpands.of_le hlevel hle
  exact ⟨hlarger.expandGroups_eq hunit hlength hgives, hlarger⟩

end Source

/-- A group in an option, one without options, and two open parentheses. -/
theorem expandGroups_complete_nested :
    let text : Text := "a((b|(c|d)) ( | )((e|f) (".toList
    let numbers : List Binary64 := [.one, .zero false, .one]
    DrawSource.ofList.GivesUnit numbers ∧ text.length < bracketBound ∧ NestsWithin 1 text ∧
      ¬NestsWithin 0 text ∧
      ∃ draws out last, expandGroups .ofList 1 text numbers = .ok (out, last) ∧
        DrawSource.ofList.Gives numbers draws last ∧ Expands 1 0 text draws out ∧
        (∀ larger, 1 ≤ larger → expandGroups .ofList larger text numbers = .ok (out, last) ∧
          Expands larger 0 text draws out) ∧
        ∀ other, Expands other 0 out [] out ∧
          ∀ (τ : Type) (next : DrawSource τ) (start : τ),
            expandGroups next other out start = .ok (out, start) := by
  intro text numbers
  have hunit : DrawSource.ofList.GivesUnit numbers :=
    DrawSource.givesUnit_ofList (by simp [numbers, Binary64.inUnit_one, Binary64.inUnit_zero])
  have hlength : text.length < bracketBound := by decide
  have hnests : NestsWithin 1 text := by decide +kernel
  exact ⟨hunit, hlength, hnests, by decide +kernel, expandGroups_complete hunit hlength hnests⟩

end PromptMarkup
