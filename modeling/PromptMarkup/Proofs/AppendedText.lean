import PromptMarkup.Proofs.ClosedText
import PromptMarkup.Proofs.TreeExpansion

/-!
# Expanding a text with more text behind it

A text that leaves no group open is expanded by itself, whatever stands behind it: each of its
parentheses finds its partner in it or is left as it is, and what follows begins with the draws
that are left over.  A closing parenthesis too many does no harm, as no group is open where it
stands; and neither does an open one behind, as nothing before it looks that far.

Main statements:

- {lit}`expandStack_text_append`: the groups of a text are expanded before those of what stands
  behind it.
- {lit}`exists_expandStack_counted`: the draws that were counted before make no difference.
- {lit}`expandText_append`: so two texts are expanded one after the other, and their draws add up.
-/

namespace PromptMarkup

variable {σ : Type} {source : DrawSource σ} {limit : Int}

/-! ## Two texts -/

/-- Three parts follow one another in whatever way they are taken together. -/
theorem followedBy_assoc {ε : Type} (first : Except ε (Text × σ))
    (second third : σ → Except ε (Text × σ)) :
    followedBy (followedBy first second) third =
      followedBy first fun state => followedBy (second state) third := by
  cases first with
  | error e => rfl
  | ok result =>
    obtain ⟨text, state⟩ := result
    exact followedBy_map text (second state) third

/-- Where no group begins, and none is left open, none begins with more text behind. -/
theorem groupHere?_append {c : Char} {rest : Text} (hclosed : ClosesGroups (c :: rest))
    (hnone : groupHere? (c :: rest) = none) (more : Text) :
    groupHere? (c :: (rest ++ more)) = none := by
  by_cases hopen : c = '('
  · subst hopen
    rcases Option.ne_none_iff_exists'.mp (hclosed rest (List.suffix_refl _)) with
      ⟨⟨inside, behind⟩, hclose⟩
    rw [groupHere?, hclose] at hnone
    rw [groupHere?, groupClose?_append_right hclose]
    simpa using hnone
  · unfold groupHere?
    split
    · rename_i heq
      exact absurd (List.cons.inj heq).1 hopen
    · rfl

/-- The groups of a text that leaves none open are expanded first, and then those of the text
behind it. -/
theorem expandStack_text_append {first : Text} (hfirst : ClosesGroups first) (second : Text)
    (depth : Nat) (state : σ) :
    expandStack source limit state [⟨first ++ second, depth⟩] =
      followedBy (expandStack source limit state [⟨first, depth⟩]) fun state =>
        expandStack source limit state [⟨second, depth⟩] := by
  by_cases hlevel : limit < depth
  · simp [expandStack_of_lt hlevel, followedBy, Except.map]
  · induction hn : first.length using Nat.strong_induction_on generalizing first state with
    | _ n ih =>
    cases first with
    | nil =>
      have hnil : expandStack source limit state [⟨[], depth⟩] = .ok ([], state) := by
        rw [expandStack_of_none hlevel rfl, expandStack]
        rfl
      rw [hnil, List.nil_append, followedBy]
      cases expandStack source limit state [⟨second, depth⟩] <;> rfl
    | cons c rest =>
      cases hhere : groupHere? (c :: rest) with
      | none =>
        have hrest := ih rest.length (by simp [← hn]) (hfirst.of_suffix (List.suffix_cons c rest))
          state rfl
        rw [List.cons_append, expandStack_cons hlevel (groupHere?_append hfirst hhere second),
          expandStack_cons hlevel hhere, hrest]
        exact (followedBy_map [c] _ _).symm
      | some group =>
        obtain ⟨_, inside, after, hsplit, hopens, -⟩ := groupHere?_eq_some_iff.mp hhere
        have htext : c :: rest = '(' :: (inside ++ ')' :: after) := by rw [hsplit, hopens.split]
        have hafter : after <:+ c :: rest := ⟨'(' :: (inside ++ [')']), by simp [htext]⟩
        have hlength : after.length < n := by
          rw [← hn, htext]
          simp
          omega
        have hrest := fun state => ih after.length hlength (hfirst.of_suffix hafter) state rfl
        have happend : c :: rest ++ second = '(' :: (inside ++ ')' :: (after ++ second)) := by
          simp [htext]
        rw [happend, htext, expandStack_group hlevel hopens.balanced hopens.choice,
          expandStack_group hlevel hopens.balanced hopens.choice]
        cases pick (source.next state).1 (groupOptions inside) with
        | error e => rfl
        | ok option =>
          dsimp only
          rw [followedBy_assoc]
          simp only [hrest]

/-! ## Counted draws -/

/-- The expansion of a stack makes some number of draws, and that is added to whatever was counted
before. -/
theorem exists_expandStack_counted (source : DrawSource σ) (limit : Int) (stack : List Pending)
    (state : σ) :
    ∃ draws, ∀ count, expandStack source.counted limit (state, count) stack =
      (expandStack source limit state stack).map fun (out, last) => (out, last, count + draws) := by
  fun_induction expandStack source limit state stack with
  | case1 state =>
    refine ⟨0, fun count => ?_⟩
    rw [expandStack]
    rfl
  | case2 state text depth stack hdeep ih =>
    obtain ⟨draws, hstack⟩ := ih
    refine ⟨draws, fun count => ?_⟩
    rw [expandStack, if_pos hdeep, hstack]
    cases expandStack source limit state stack <;> rfl
  | case3 state text depth stack hlevel hnone ih =>
    obtain ⟨draws, hstack⟩ := ih
    refine ⟨draws, fun count => ?_⟩
    rw [expandStack_of_none hlevel hnone, hstack]
    cases expandStack source limit state stack <;> rfl
  | case4 state text depth stack hlevel group hgroup e hpick =>
    refine ⟨0, fun count => ?_⟩
    have hpick' : pick (source.counted.next (state, count)).1 group.options = .error e := hpick
    rw [expandStack_of_some hlevel hgroup, hpick']
    rfl
  | case5 state text depth stack hlevel group hgroup option hpick ih =>
    obtain ⟨draws, hstack⟩ := ih
    refine ⟨draws + 1, fun count => ?_⟩
    have hpick' : pick (source.counted.next (state, count)).1 group.options = .ok option := hpick
    have hnext : (source.counted.next (state, count)).2 = ((source.next state).2, count + 1) := rfl
    rw [expandStack_of_some hlevel hgroup, hpick', hnext]
    dsimp only
    rw [hstack, Nat.add_assoc, Nat.add_comm 1 draws]
    cases expandStack source limit (source.next state).2 _ <;> rfl

/-! ## Two texts with a depth that may come from the settings -/

/-- With a depth, or settings that have one, groups are expanded down to some limit. -/
theorem exists_limit_of_expandText {settings : SettingsResult} {maxDepth : Option Int}
    (hdepth : maxDepth = none → ∃ loaded, settings = .ok loaded) :
    ∃ limit, ∀ {σ : Type} (source : DrawSource σ) (text : Text) (state : σ),
      expandText settings source maxDepth text state =
        (expandGroups source limit text state).mapError fun e => .render (.draw e) := by
  cases maxDepth with
  | some depth => exact ⟨depth, fun _ _ _ => rfl⟩
  | none =>
    obtain ⟨loaded, rfl⟩ := hdepth rfl
    exact ⟨loaded.maxExpansionDepth, fun _ _ _ => rfl⟩

/-- With draws between zero and one a text is expanded, and the number of draws that it takes is
added to whatever was counted before. -/
theorem exists_expandText_counted {settings : SettingsResult} {maxDepth : Option Int}
    (hdepth : maxDepth = none → ∃ loaded, settings = .ok loaded) {state : σ}
    (hunit : source.GivesUnit state) {text : Text} (hlength : text.length < bracketBound) :
    ∃ out last draws, expandText settings source maxDepth text state = .ok (out, last) ∧
      source.GivesUnit last ∧ ∀ count,
        expandText settings source.counted maxDepth text (state, count) =
          .ok (out, last, count + draws) := by
  obtain ⟨limit, hlimit⟩ := exists_limit_of_expandText hdepth
  have hexpands : ∃ numbers out last, expandStack source limit state [⟨text, 0⟩] = .ok (out, last) ∧
      source.Gives state numbers last ∧ Expands limit 0 text numbers out :=
    exists_expandStack limit hunit hlength
  obtain ⟨_, out, last, hout, hgives, -⟩ := hexpands
  obtain ⟨draws, hdraws⟩ := exists_expandStack_counted source limit [⟨text, 0⟩] state
  refine ⟨out, last, draws, ?_, hunit.of_gives hgives, fun count => ?_⟩
  · rw [hlimit, expandGroups, hout]
    rfl
  · rw [hlimit, expandGroups, hdraws, hout]
    rfl

/-- A text that leaves no group open is expanded by itself, and what stands behind it with the
draws that are left over; so text that is added behind it changes no choice in it.  With draws
between zero and one both are expanded, and so is the whole, and the numbers of draws add up. -/
theorem expandText_append (settings : SettingsResult) (maxDepth : Option Int) {first : Text}
    (hfirst : ClosesGroups first) (second : Text) {σ : Type} (source : DrawSource σ) (state : σ) :
    expandText settings source maxDepth (first ++ second) state =
        followedBy (expandText settings source maxDepth first state)
          (expandText settings source maxDepth second) ∧
      (source.GivesUnit state → (first ++ second).length < bracketBound →
        (maxDepth = none → ∃ loaded, settings = .ok loaded) →
        ∃ out middle draws rest last draws',
          expandText settings source maxDepth first state = .ok (out, middle) ∧
          expandText settings source maxDepth second middle = .ok (rest, last) ∧
          expandText settings source.counted maxDepth first (state, 0) =
            .ok (out, middle, draws) ∧
          expandText settings source.counted maxDepth second (middle, 0) =
            .ok (rest, last, draws') ∧
          expandText settings source.counted maxDepth (first ++ second) (state, 0) =
            .ok (out ++ rest, last, draws + draws')) := by
  have hwhole : ∀ {σ : Type} (source : DrawSource σ) (state : σ),
      expandText settings source maxDepth (first ++ second) state =
        followedBy (expandText settings source maxDepth first state)
          (expandText settings source maxDepth second) := by
    intro σ source state
    by_cases hdepth : maxDepth = none → ∃ loaded, settings = .ok loaded
    · obtain ⟨limit, hlimit⟩ := exists_limit_of_expandText hdepth
      have hsecond : expandText settings source maxDepth second = fun state =>
          (expandGroups source limit second state).mapError fun e => .render (.draw e) :=
        funext fun state => hlimit source second state
      rw [hlimit, hlimit, hsecond, ← followedBy_mapError, expandGroups,
        expandStack_text_append hfirst]
      rfl
    · -- Without a depth neither text is expanded.
      obtain ⟨rfl, hsettings⟩ := Classical.not_imp.mp hdepth
      cases settings with
      | ok loaded => exact absurd ⟨loaded, rfl⟩ hsettings
      | error faults => rfl
  refine ⟨hwhole source state, fun hunit hlength hdepth => ?_⟩
  rw [List.length_append] at hlength
  have hlengthFirst : first.length < bracketBound := by omega
  have hlengthSecond : second.length < bracketBound := by omega
  obtain ⟨out, middle, draws, hout, hmiddle, hdraws⟩ :=
    exists_expandText_counted hdepth hunit hlengthFirst
  obtain ⟨rest, last, draws', hrest, -, hdraws'⟩ :=
    exists_expandText_counted hdepth hmiddle hlengthSecond
  refine ⟨out, middle, draws, rest, last, draws', hout, hrest, ?_, ?_, ?_⟩
  · rw [hdraws, Nat.zero_add]
  · rw [hdraws', Nat.zero_add]
  · rw [hwhole, hdraws, followedBy]
    dsimp only
    rw [hdraws', Nat.zero_add]
    rfl

/-- A group in an option between two closing parentheses too many, and behind it a group after an
open parenthesis and before another one. -/
theorem expandText_append_unbalanced :
    let first : Text := "x)(a|(b|c))y)".toList
    let second : Text := "((d|e) (".toList
    let numbers : List Binary64 := [.one, .zero false, .one]
    ClosesGroups first ∧ ¬Balanced first ∧ ¬ClosesGroups second ∧
      DrawSource.ofList.GivesUnit numbers ∧ (first ++ second).length < bracketBound ∧
      expandText (.ok {}) DrawSource.ofList.counted none (first ++ second) (numbers, 0) =
        .ok ("x)by)(e (".toList, [], 3) ∧
      expandText (.ok {}) .ofList none (first ++ second) numbers =
        followedBy (expandText (.ok {}) .ofList none first numbers)
          (expandText (.ok {}) .ofList none second) ∧
      ∃ out middle draws rest last draws',
        expandText (.ok {}) .ofList none first numbers = .ok (out, middle) ∧
        expandText (.ok {}) .ofList none second middle = .ok (rest, last) ∧
        expandText (.ok {}) DrawSource.ofList.counted none first (numbers, 0) =
          .ok (out, middle, draws) ∧
        expandText (.ok {}) DrawSource.ofList.counted none second (middle, 0) =
          .ok (rest, last, draws') ∧
        expandText (.ok {}) DrawSource.ofList.counted none (first ++ second) (numbers, 0) =
          .ok (out ++ rest, last, draws + draws') := by
  intro first second numbers
  have hfirst : ClosesGroups first := by decide +kernel
  have hunit : DrawSource.ofList.GivesUnit numbers :=
    DrawSource.givesUnit_ofList (by simp [numbers, Binary64.inUnit_one, Binary64.inUnit_zero])
  have hlength : (first ++ second).length < bracketBound := by decide
  have happend := expandText_append (.ok {}) none hfirst second .ofList numbers
  exact ⟨hfirst, by decide +kernel, by decide +kernel, hunit, hlength, by decide +kernel, happend.1,
    happend.2 hunit hlength fun _ => ⟨{}, rfl⟩⟩

end PromptMarkup
