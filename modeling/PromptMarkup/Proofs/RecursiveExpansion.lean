import PromptMarkup.Proofs.GroupText
import PromptMarkup.Proofs.UnitDraws
import PromptMarkup.Render.Expansion
import PromptMarkup.Render.Syntax

/-!
# Expansion by recursion

A text is expanded by recursion: up to its first group it stays, of the group one option
is drawn and expanded one level deeper, and what follows the group is expanded at the same
level.  A text that stands too deep, or has no group with an option, stays as it is.  The
draws are part of the relation, in the order in which they are made.

The stack of texts comes to the same: what lies on it are the options and the rests whose
expansion the recursion has begun and put off.

Main statements:

- {lit}`nextGroup?_eq_some` and {lit}`nextGroup?_eq_none`: the scan of a text finds its
  first group that has an option.
- {lit}`Expands.length_le`: every draw takes an opening parenthesis away.
- {lit}`Expands.unique`: with the same draws to come there is one expansion.
- {lit}`expandsTo_expandStack`: each text on a stack is expanded, the top one first.
- {lit}`expandGroups_expands`: the expansion of a text is that of the recursion.
-/

namespace PromptMarkup

/-! ## The first group of a text -/

/-- A text goes on, after an opening parenthesis, with the inside of a group that has an
option, and with what follows the group. -/
structure OpensGroup (rest inside after : Text) : Prop where
  split : rest = inside ++ ')' :: after
  balanced : Balanced inside
  choice : groupOptions inside ≠ []

/-- No parenthesis of a text opens a group that has an option. -/
def NoGroup (text : Text) : Prop :=
  ∀ start rest, text = start ++ '(' :: rest → ∀ inside after, ¬OpensGroup rest inside after

/-- The first group of a text that has an option: what stands before it, in it and after
it. -/
structure FirstGroup (text before inside after : Text) : Prop where
  split : text = before ++ '(' :: (inside ++ ')' :: after)
  opens : OpensGroup (inside ++ ')' :: after) inside after
  first : ∀ start rest, start.length < before.length → text = start ++ '(' :: rest →
    ∀ inside after, ¬OpensGroup rest inside after

/-- A group closes where its inside is balanced, so there is one way to read it. -/
theorem OpensGroup.groupClose? {rest inside after : Text} (h : OpensGroup rest inside after) :
    groupClose? 0 rest = some (inside, after) := by
  rw [h.split]
  exact h.balanced.groupClose? after

/-- A group that a text begins with is found there, and no other. -/
theorem groupHere?_eq_some_iff {text : Text} {group : GroupSplit} :
    groupHere? text = some group ↔
      ∃ rest inside after, text = '(' :: rest ∧ OpensGroup rest inside after ∧
        group = ⟨[], groupOptions inside, after⟩ := by
  constructor
  · intro h
    unfold groupHere? at h
    split at h
    · rename_i rest
      split at h
      · rename_i inside after hclose
        split at h
        · cases h
        · rename_i hchoice
          cases h
          rcases groupClose?_eq_some_iff.mp hclose with ⟨hsplit, hbalanced⟩
          exact ⟨rest, inside, after, rfl, ⟨hsplit, hbalanced, hchoice⟩, rfl⟩
      · cases h
    · cases h
  · rintro ⟨rest, inside, after, rfl, hopens, rfl⟩
    rw [groupHere?, hopens.groupClose?]
    simp [hopens.choice]

/-- Where no group is found, none opens. -/
theorem not_opensGroup_of_groupHere? {rest : Text} (h : groupHere? ('(' :: rest) = none)
    (inside after : Text) : ¬OpensGroup rest inside after := by
  intro hopens
  have hsome := groupHere?_eq_some_iff.mpr ⟨rest, inside, after, rfl, hopens, rfl⟩
  rw [h] at hsome
  cases hsome

/-- The scan of a text finds its first group. -/
theorem nextGroup?_eq_some {text : Text} {group : GroupSplit} (h : nextGroup? text = some group) :
    ∃ inside, FirstGroup text group.before inside group.after ∧
      group.options = groupOptions inside := by
  induction text generalizing group with
  | nil => cases h
  | cons c tail ih =>
    unfold nextGroup? at h
    split at h
    · rename_i hhere
      cases h
      rcases groupHere?_eq_some_iff.mp hhere with ⟨rest, inside, after, hsplit, hopens, rfl⟩
      cases hsplit
      refine ⟨inside, ⟨by rw [hopens.split]; rfl, ⟨rfl, hopens.balanced, hopens.choice⟩, ?_⟩, rfl⟩
      exact fun start rest hlt => absurd hlt (Nat.not_lt_zero _)
    · rename_i hhere
      rcases Option.map_eq_some_iff.mp h with ⟨later, hlater, rfl⟩
      rcases ih hlater with ⟨inside, hfirst, hoptions⟩
      refine ⟨inside, ⟨by rw [hfirst.split]; rfl, hfirst.opens, ?_⟩, hoptions⟩
      intro start rest hlt hsplit
      cases start with
      | nil =>
        cases hsplit
        exact not_opensGroup_of_groupHere? hhere
      | cons d start =>
        cases hsplit
        exact hfirst.first start rest (Nat.lt_of_succ_lt_succ hlt) rfl

/-- Where the scan of a text finds no group, there is none. -/
theorem nextGroup?_eq_none {text : Text} (h : nextGroup? text = none) : NoGroup text := by
  induction text with
  | nil =>
    intro start rest hsplit
    cases start <;> cases hsplit
  | cons c tail ih =>
    unfold nextGroup? at h
    split at h
    · cases h
    · rename_i hhere
      intro start rest hsplit
      cases start with
      | nil =>
        cases hsplit
        exact not_opensGroup_of_groupHere? hhere
      | cons d start =>
        cases hsplit
        exact ih (Option.map_eq_none_iff.mp h) start rest rfl

/-- A text has one first group. -/
theorem FirstGroup.unique {text before inside after before' inside' after' : Text}
    (h : FirstGroup text before inside after) (h' : FirstGroup text before' inside' after') :
    before = before' ∧ inside = inside' ∧ after = after' := by
  -- Neither group opens before the other.
  have hlength : before.length = before'.length := by
    rcases Nat.lt_trichotomy before.length before'.length with hlt | heq | hlt
    · exact absurd h.opens (h'.first before _ hlt h.split inside after)
    · exact heq
    · exact absurd h'.opens (h.first before' _ hlt h'.split inside' after')
  have hsplit := h.split.symm.trans h'.split
  rcases List.append_inj hsplit hlength with ⟨hbefore, hrest⟩
  have hrest := (List.cons.inj hrest).2
  have hclose := h.opens.groupClose?
  rw [hrest, h'.opens.groupClose?] at hclose
  cases hclose
  exact ⟨hbefore, rfl, rfl⟩

/-- A group takes its own parenthesis away, whichever option is drawn. -/
theorem FirstGroup.openings_lt {text before inside after option : Text}
    (h : FirstGroup text before inside after) (hoption : option ∈ groupOptions inside) :
    openings option + openings after < openings text := by
  have hle : openings option ≤ openings inside :=
    (sublist_of_mem_groupOptions hoption).count_le '('
  have hcount : openings text = openings before + (openings inside + openings after + 1) := by
    rw [h.split]
    simp [openings, List.count_append]
  omega

/-! ## The recursion -/

/-- A text at a level is expanded by some draws, in their order, to another text. -/
inductive Expands (limit : Int) : Nat → Text → List Binary64 → Text → Prop where
  /-- What stands too deep stays as it is. -/
  | deep (level : Nat) (text : Text) : limit < level → Expands limit level text [] text
  /-- What has no group stays as it is. -/
  | plain (level : Nat) (text : Text) : NoGroup text → Expands limit level text [] text
  /-- Of the first group the option at the share of the draw is taken, and no more than the
  last one. -/
  | group {level : Nat} {text before inside after option inner rest : Text} {draw : Binary64}
    {share : Nat} {draws draws' : List Binary64} :
    ¬limit < level → FirstGroup text before inside after →
      draw.timesFloor (groupOptions inside).length = .ok share →
      (groupOptions inside)[min share ((groupOptions inside).length - 1)]? = some option →
      Expands limit (level + 1) option draws inner → Expands limit level after draws' rest →
      Expands limit level text (draw :: (draws ++ draws')) (before ++ (inner ++ rest))

/-- Every draw takes an opening parenthesis away. -/
theorem Expands.length_le {limit : Int} {level : Nat} {text out : Text} {draws : List Binary64}
    (h : Expands limit level text draws out) : draws.length ≤ openings text := by
  induction h with
  | deep level text _ => exact Nat.zero_le _
  | plain level text _ => exact Nat.zero_le _
  | group _ hfirst _ hoption _ _ ih ih' =>
    have hlt := hfirst.openings_lt (List.mem_of_getElem? hoption)
    rw [List.length_cons, List.length_append]
    omega

/-- An expanded text has no characters of its own. -/
theorem Expands.mem_text {limit : Int} {level : Nat} {text out : Text} {draws : List Binary64}
    {c : Char} (h : Expands limit level text draws out) (hc : c ∈ out) : c ∈ text := by
  induction h with
  | deep level text _ => exact hc
  | plain level text _ => exact hc
  | @group level text before inside after option inner rest draw share draws draws' _ hfirst _
      hoption _ _ ih ih' =>
    have hinside := (sublist_of_mem_groupOptions (List.mem_of_getElem? hoption)).subset
    rw [hfirst.split]
    simp only [List.mem_append, List.mem_cons] at hc ⊢
    rcases hc with hbefore | hinner | hafter
    · exact Or.inl hbefore
    · exact Or.inr (Or.inr (Or.inl (hinside (ih hinner))))
    · exact Or.inr (Or.inr (Or.inr (Or.inr (ih' hafter))))

/-- What stands too deep or has no parentheses is expanded to itself. -/
theorem Expands.eq_text {limit : Int} {level : Nat} {text out : Text} {draws : List Binary64}
    (h : Expands limit level text draws out) (hkept : limit < level ∨ '(' ∉ text) :
    out = text := by
  cases h with
  | deep => rfl
  | plain => rfl
  | group hlevel hfirst =>
    rcases hkept with hdeep | hplain
    · exact absurd hdeep hlevel
    · rw [hfirst.split] at hplain
      simp at hplain

/-! ## What a source gives -/

section Source

variable {σ : Type} {source : DrawSource σ}

/-- A source gives some numbers one after the other, and is left in a state. -/
inductive DrawSource.Gives (source : DrawSource σ) : σ → List Binary64 → σ → Prop where
  | nil (state : σ) : Gives source state [] state
  | cons {state last : σ} {draws : List Binary64} :
    Gives source (source.next state).2 draws last →
      Gives source state ((source.next state).1 :: draws) last

/-- All numbers that a source gives from a state on are between zero and one. -/
def DrawSource.GivesUnit (source : DrawSource σ) (state : σ) : Prop :=
  ∀ draws last, source.Gives state draws last → ∀ draw ∈ draws, draw.InUnit

namespace DrawSource

/-- A source gives numbers in two goes. -/
theorem Gives.append {state middle last : σ} {draws draws' : List Binary64}
    (h : source.Gives state draws middle) (h' : source.Gives middle draws' last) :
    source.Gives state (draws ++ draws') last := by
  induction h with
  | nil state => exact h'
  | cons _ ih => exact .cons (ih h')

/-- What a source gives can be parted in two goes. -/
theorem Gives.exists_of_append {state last : σ} {draws draws' : List Binary64}
    (h : source.Gives state (draws ++ draws') last) :
    ∃ middle, source.Gives state draws middle ∧ source.Gives middle draws' last := by
  induction draws generalizing state with
  | nil => exact ⟨state, .nil state, h⟩
  | cons draw rest ih =>
    cases h with
    | cons h =>
      rcases ih h with ⟨middle, hrest, hlast⟩
      exact ⟨middle, .cons hrest, hlast⟩

/-- After the same numbers a source is left in the same state. -/
theorem Gives.last_eq {state last last' : σ} {draws : List Binary64}
    (h : source.Gives state draws last) (h' : source.Gives state draws last') : last = last' := by
  induction h with
  | nil state =>
    cases h'
    rfl
  | cons _ ih =>
    cases h' with
    | cons h' => exact ih h'

/-- The first number is between zero and one. -/
theorem GivesUnit.inUnit {state : σ} (h : source.GivesUnit state) :
    (source.next state).1.InUnit :=
  h _ _ (.cons (.nil _)) _ List.mem_cons_self

/-- What comes later is between zero and one as well. -/
theorem GivesUnit.of_gives {state last : σ} {draws : List Binary64} (h : source.GivesUnit state)
    (hgives : source.Gives state draws last) : source.GivesUnit last :=
  fun _ final hlater draw hdraw =>
    h _ final (hgives.append hlater) draw (List.mem_append_right _ hdraw)

end DrawSource

/-- With the same draws to come there is one expansion of a text. -/
theorem Expands.unique {limit : Int} {level : Nat} {text out out' : Text}
    {draws draws' : List Binary64} {state last last' : σ}
    (h : Expands limit level text draws out) (h' : Expands limit level text draws' out')
    (hgives : source.Gives state draws last) (hgives' : source.Gives state draws' last') :
    draws = draws' ∧ out = out' := by
  induction h generalizing draws' out' state last last' with
  | deep level text hdeep =>
    cases h' with
    | deep _ _ _ => exact ⟨rfl, rfl⟩
    | plain _ _ _ => exact ⟨rfl, rfl⟩
    | group hnot => exact absurd hdeep hnot
  | plain level text hplain =>
    cases h' with
    | deep _ _ _ => exact ⟨rfl, rfl⟩
    | plain _ _ _ => exact ⟨rfl, rfl⟩
    | group _ hfirst => exact absurd hfirst.opens (hplain _ _ hfirst.split _ _)
  | group hnot hfirst hshare hoption _ _ ih ih' =>
    cases h' with
    | deep _ _ hdeep => exact absurd hdeep hnot
    | plain _ _ hplain => exact absurd hfirst.opens (hplain _ _ hfirst.split _ _)
    | group _ hfirst' hshare' hoption' hinner' hrest' =>
      rcases hfirst.unique hfirst' with ⟨rfl, rfl, rfl⟩
      cases hgives with
      | cons hgives =>
        cases hgives' with
        | cons hgives' =>
          rw [hshare] at hshare'
          cases hshare'
          rw [hoption] at hoption'
          cases hoption'
          rcases hgives.exists_of_append with ⟨middle, hfirstDraws, hlastDraws⟩
          rcases hgives'.exists_of_append with ⟨middle', hfirstDraws', hlastDraws'⟩
          rcases ih hinner' hfirstDraws hfirstDraws' with ⟨rfl, rfl⟩
          rw [hfirstDraws'.last_eq hfirstDraws] at hlastDraws'
          rcases ih' hrest' hlastDraws hlastDraws' with ⟨rfl, rfl⟩
          exact ⟨rfl, rfl⟩

/-! ## The stack -/

/-- The texts on a stack are expanded one after the other, the top one first. -/
inductive ExpandsAll (limit : Int) : List Pending → List Binary64 → Text → Prop where
  | nil : ExpandsAll limit [] [] []
  | cons {pending : Pending} {stack : List Pending} {draws draws' : List Binary64}
    {out out' : Text} :
    Expands limit pending.depth pending.text draws out → ExpandsAll limit stack draws' out' →
      ExpandsAll limit (pending :: stack) (draws ++ draws') (out ++ out')

/-- There is a part more than bars at most. -/
theorem length_rawParts_le (depth : Nat) (text : Text) :
    (rawParts depth text).length ≤ text.length + 1 := by
  induction text generalizing depth with
  | nil => exact Nat.le_refl _
  | cons c rest ih =>
    rw [rawParts]
    split
    · exact Nat.succ_le_succ (ih 0)
    · have hrest := ih (depthAfter depth c)
      cases hparts : rawParts (depthAfter depth c) rest with
      | nil => simp [consPart]
      | cons part others =>
        rw [hparts] at hrest
        simp only [consPart, List.length_cons] at hrest ⊢
        omega

/-- What has a length can be counted. -/
theorem log2_le_of_le_bracketBound {count : Nat} (h : count ≤ bracketBound) :
    count.log2 ≤ 1021 := by
  unfold bracketBound at h
  by_cases hnone : count = 0
  · simp [hnone]
  · have hlog : count.log2 < 64 := by
      apply (Nat.log2_lt hnone).mpr
      omega
    omega

/-- The options of a text that has a length can be counted. -/
theorem log2_groupOptions_le {text inside : Text} (h : text.length < bracketBound)
    (hinside : inside.Sublist text) : (groupOptions inside).length.log2 ≤ 1021 := by
  have hparts : (groupOptions inside).length ≤ inside.length + 1 := by
    apply Nat.le_trans (List.length_filter_le _ _)
    rw [splitOptions, List.length_map]
    exact length_rawParts_le 0 inside
  have hlength := hinside.length_le
  exact log2_le_of_le_bracketBound (by omega)

/-- A stack is expanded, by what the source gives from a state on, with some result. -/
def ExpandsTo (source : DrawSource σ) (limit : Int) (stack : List Pending) (state : σ)
    (result : Except DrawError (Text × σ)) : Prop :=
  ∃ draws out last, ExpandsAll limit stack draws out ∧ source.Gives state draws last ∧
    result = .ok (out, last)

/-- A text that stays as it is stands before what the stack below it is expanded to. -/
theorem ExpandsTo.keep {limit : Int} {stack : List Pending} {state : σ}
    {result : Except DrawError (Text × σ)} {pending : Pending}
    (h : ExpandsTo source limit stack state result)
    (hkept : Expands limit pending.depth pending.text [] pending.text) :
    ExpandsTo source limit (pending :: stack) state
      (result.map fun (out, state) => (pending.text ++ out, state)) := by
  rcases h with ⟨draws, out, last, hstack, hgives, rfl⟩
  exact ⟨draws, pending.text ++ out, last, .cons hkept hstack, hgives, rfl⟩

/-- What a group comes to lies on the stack as its option and the rest of the text. -/
theorem ExpandsTo.group {limit : Int} {level share : Nat} {text before inside after option : Text}
    {stack : List Pending} {state : σ} {result : Except DrawError (Text × σ)}
    (h : ExpandsTo source limit (⟨option, level + 1⟩ :: ⟨after, level⟩ :: stack)
      (source.next state).2 result)
    (hlevel : ¬limit < level) (hfirst : FirstGroup text before inside after)
    (hshare : (source.next state).1.timesFloor (groupOptions inside).length = .ok share)
    (hoption : (groupOptions inside)[min share ((groupOptions inside).length - 1)]? =
      some option) :
    ExpandsTo source limit (⟨text, level⟩ :: stack) state
      (result.map fun (out, state) => (before ++ out, state)) := by
  rcases h with ⟨draws, out, last, hstack, hgives, rfl⟩
  cases hstack with
  | cons hinner hstack =>
    rename_i inner draws out
    cases hstack with
    | cons hrest hstack =>
      rename_i inner' rest draws' out'
      refine ⟨_, _, last, .cons (.group hlevel hfirst hshare hoption hinner hrest) hstack, ?_, ?_⟩
      · have hall := DrawSource.Gives.cons hgives
        simpa using hall
      · simp [Except.map]

/-- A draw between zero and one picks an option of the first group of a text that has a
length. -/
theorem FirstGroup.exists_pick {text before inside after : Text} {draw : Binary64}
    (h : FirstGroup text before inside after) (hdraw : draw.InUnit)
    (hlength : text.length < bracketBound) :
    ∃ share : Nat, draw.timesFloor (groupOptions inside).length = .ok share ∧
      ∃ option, (groupOptions inside)[min share ((groupOptions inside).length - 1)]? =
          some option ∧
        pick draw (groupOptions inside) = .ok option := by
  apply hdraw.exists_pick h.opens.choice
  apply log2_groupOptions_le hlength
  rw [h.split]
  exact ((List.sublist_append_left inside _).cons '(').trans (List.sublist_append_right before _)

/-- Each text on a stack is expanded, the top one first, if all draws are between zero and
one. -/
theorem expandsTo_expandStack (limit : Int) (stack : List Pending) {state : σ}
    (hunit : source.GivesUnit state)
    (hlength : ∀ pending ∈ stack, pending.text.length < bracketBound) :
    ExpandsTo source limit stack state (expandStack source limit state stack) := by
  fun_induction expandStack source limit state stack with
  | case1 state => exact ⟨[], [], state, .nil, .nil state, rfl⟩
  | case2 state text depth stack hdeep ih =>
    have hstack := ih hunit fun pending hpending =>
      hlength pending (List.mem_cons_of_mem _ hpending)
    exact hstack.keep (.deep depth text hdeep)
  | case3 state text depth stack hlevel hnone ih =>
    have hstack := ih hunit fun pending hpending =>
      hlength pending (List.mem_cons_of_mem _ hpending)
    exact hstack.keep (.plain depth text (nextGroup?_eq_none hnone))
  | case4 state text depth stack hlevel group hgroup e hpick =>
    rcases nextGroup?_eq_some hgroup with ⟨inside, hfirst, hoptions⟩
    rcases hfirst.exists_pick hunit.inUnit (hlength _ List.mem_cons_self) with
      ⟨share, hshare, other, hother, hpicked⟩
    rw [hoptions, hpicked] at hpick
    cases hpick
  | case5 state text depth stack hlevel group hgroup option hpick ih =>
    rcases nextGroup?_eq_some hgroup with ⟨inside, hfirst, hoptions⟩
    have htext : text.length < bracketBound := hlength _ List.mem_cons_self
    rcases hfirst.exists_pick hunit.inUnit htext with ⟨share, hshare, other, hother, hpicked⟩
    rw [hoptions, hpicked] at hpick
    cases hpick
    have hoption := (sublist_of_mem_groupOptions (List.mem_of_getElem? hother)).length_le
    have hsplit := congrArg List.length hfirst.split
    simp only [List.length_append, List.length_cons] at hsplit
    have hafter : ∀ pending ∈ (⟨option, depth + 1⟩ :: ⟨group.after, depth⟩ :: stack : List Pending),
        pending.text.length < bracketBound := by
      intro pending hpending
      rcases List.mem_cons.mp hpending with rfl | hpending
      · dsimp only
        omega
      · rcases List.mem_cons.mp hpending with rfl | hpending
        · dsimp only
          omega
        · exact hlength pending (List.mem_cons_of_mem _ hpending)
    exact (ih (hunit.of_gives (.cons (.nil _))) hafter).group hlevel hfirst hshare hother

/-- The expansion of a text is that of the recursion.  With draws between zero and one a text
that has a length is expanded to what the recursion expands it to, with the same draws in
the same order, and there are no more of them than opening parentheses in the text. -/
theorem expandGroups_expands (limit : Int) {text : Text} {state : σ}
    (hunit : source.GivesUnit state) (hlength : text.length < bracketBound) :
    ∃ draws out last, expandGroups source limit text state = .ok (out, last) ∧
      source.Gives state draws last ∧ Expands limit 0 text draws out ∧
      draws.length ≤ openings text ∧
      ∀ draws' out' last', source.Gives state draws' last' → Expands limit 0 text draws' out' →
        draws' = draws ∧ out' = out := by
  rcases expandsTo_expandStack limit [⟨text, 0⟩] hunit (by simpa using hlength) with
    ⟨draws, out, last, hstack, hgives, hresult⟩
  cases hstack with
  | cons htext hnil =>
    cases hnil
    rename_i draws out
    rw [List.append_nil] at hgives
    rw [List.append_nil] at hresult
    refine ⟨draws, out, last, hresult, hgives, htext, htext.length_le, ?_⟩
    intro draws' out' last' hgives' htext'
    exact htext'.unique htext hgives' hgives

/-- A text that has a length is expanded, if all draws are between zero and one. -/
theorem exists_expandStack {text : Text} {level : Nat} {state : σ} (limit : Int)
    (hunit : source.GivesUnit state) (hlength : text.length < bracketBound) :
    ∃ draws out last, expandStack source limit state [⟨text, level⟩] = .ok (out, last) ∧
      source.Gives state draws last ∧ Expands limit level text draws out := by
  rcases expandsTo_expandStack limit [⟨text, level⟩] hunit (by simpa using hlength) with
    ⟨draws, out, last, hstack, hgives, hresult⟩
  cases hstack with
  | cons htext hnil =>
    cases hnil
    rw [List.append_nil] at hgives
    rw [List.append_nil] at hresult
    exact ⟨_, _, last, hresult, hgives, htext⟩

end Source

/-- The generator gives numbers between zero and one. -/
theorem Twister.givesUnit (state : Twister) : Twister.source.GivesUnit state := by
  intro draws last hgives
  induction hgives with
  | nil state => exact List.forall_mem_nil _
  | cons _ ih => exact List.forall_mem_cons.mpr ⟨inUnit_next _, ih⟩

/-- A list of numbers between zero and one gives no others. -/
theorem DrawSource.givesUnit_ofList {numbers : List Binary64}
    (h : ∀ number ∈ numbers, number.InUnit) : DrawSource.ofList.GivesUnit numbers := by
  intro draws last hgives
  induction hgives with
  | nil state => exact List.forall_mem_nil _
  | cons hgives ih =>
    rename_i numbers last draws
    cases numbers with
    | nil => exact List.forall_mem_cons.mpr ⟨Binary64.inUnit_zero, ih (List.forall_mem_nil _)⟩
    | cons number rest =>
      rcases List.forall_mem_cons.mp h with ⟨hnumber, hrest⟩
      exact List.forall_mem_cons.mpr ⟨hnumber, ih hrest⟩

/-- A group in an option, one that is too deep, and an open parenthesis. -/
theorem expandGroups_expands_nested :
    let text : Text := "a(b|(c|(d|e)) )((f| )".toList
    let numbers : List Binary64 := [.one, .zero false, .one]
    DrawSource.ofList.GivesUnit numbers ∧ text.length < bracketBound ∧
      ∃ draws out last, expandGroups .ofList 1 text numbers = .ok (out, last) ∧
        DrawSource.ofList.Gives numbers draws last ∧ Expands 1 0 text draws out ∧
        draws.length ≤ openings text ∧
        ∀ draws' out' last', DrawSource.ofList.Gives numbers draws' last' →
          Expands 1 0 text draws' out' → draws' = draws ∧ out' = out := by
  intro text numbers
  have hunit : DrawSource.ofList.GivesUnit numbers :=
    DrawSource.givesUnit_ofList (by simp [numbers, Binary64.inUnit_one, Binary64.inUnit_zero])
  have hlength : text.length < bracketBound := by decide
  exact ⟨hunit, hlength, expandGroups_expands 1 hunit hlength⟩

end PromptMarkup
