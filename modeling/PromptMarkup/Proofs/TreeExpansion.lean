import PromptMarkup.Proofs.CanonicalExpansion
import PromptMarkup.Proofs.RecursiveExpansion

/-!
# Expanding a text and its tree

Choices are made in two ways: in the tree that is read from a text, one group after the
other, and in the text itself, with a stack of texts that are still to be expanded.  The
first asks of a group that it has two parts, the second only that it has an option.  They
come to the same text with the same draws where each group that stands in no other one is
blank or has two parts.

Main statements:

- {lit}`expandStack_append`: a stack is expanded from the top on, what lies below
  following.
- {lit}`dividesGroups_append_iff` and {lit}`dividesGroups_group_iff`: whether a text has
  divided groups is found from left to right, over text without pairs and whole groups.
- {lit}`resolveList_readFrom`: the segments of such a text are resolved to what the text is
  expanded to.
- {lit}`resolve_readPrompt_eq_expandGroups`: so is the tree of a prompt.
-/

namespace PromptMarkup

/-! ## Pairs of parentheses -/

/-- A parenthesis of a text with its partner: what stands before them, between them and
after them. -/
structure Paired (text before inside after : Text) : Prop where
  split : text = before ++ '(' :: (inside ++ ')' :: after)
  balanced : Balanced inside

/-- A pair that stands in no other pair: those that open before it close before it. -/
structure Outermost (text before inside after : Text) : Prop
    extends Paired text before inside after where
  outside : ∀ before' inside' after', Paired text before' inside' after' →
    before'.length < before.length → before'.length + inside'.length + 1 < before.length

/-- Each pair that stands in no other pair encloses blank characters only, or two parts at
least. -/
def DividesGroups (text : Text) : Prop :=
  ∀ before inside after, Outermost text before inside after →
    (∀ c ∈ inside, isBlank c = true) ∨ 2 ≤ (splitOptions inside).length

/-- A pair is found from its parenthesis on. -/
theorem Paired.groupClose? {rest inside after : Text} (h : Paired ('(' :: rest) [] inside after) :
    groupClose? 0 rest = some (inside, after) := by
  have hrest := (List.cons.inj h.split).2
  rw [hrest]
  exact h.balanced.groupClose? after

/-- A pair stays one with a text before it. -/
theorem Paired.append_left {text before inside after : Text} (h : Paired text before inside after)
    (start : Text) : Paired (start ++ text) (start ++ before) inside after :=
  ⟨by rw [h.split, List.append_assoc], h.balanced⟩

/-- A pair that does not open before some point stands after it. -/
theorem Paired.of_append {start text before inside after : Text}
    (h : Paired (start ++ text) before inside after) (hlength : start.length ≤ before.length) :
    ∃ rest, before = start ++ rest ∧ Paired text rest inside after := by
  have hsplit := h.split
  have hprefix : start <+: before :=
    List.prefix_of_prefix_length_le ⟨text, rfl⟩ ⟨_, hsplit.symm⟩ hlength
  rcases hprefix with ⟨rest, rfl⟩
  rw [List.append_assoc] at hsplit
  exact ⟨rest, rfl, List.append_cancel_left hsplit, h.balanced⟩

/-- What opens in a balanced text closes in it. -/
theorem Balanced.length_lt {start rest outer inside after : Text}
    (h : Balanced (start ++ '(' :: rest)) (hsplit : rest ++ outer = inside ++ ')' :: after)
    (hinside : Balanced inside) : inside.length < rest.length := by
  by_contra hlength
  have hprefix : rest <+: inside :=
    List.prefix_of_prefix_length_le ⟨outer, rfl⟩ ⟨_, hsplit.symm⟩ (by omega)
  rcases hprefix with ⟨more, rfl⟩
  -- From the parenthesis on the depth never falls to what it was before.
  rw [Balanced, groupDepth?_append] at h hinside
  rcases Option.bind_eq_some_iff.mp h with ⟨depth, -, hopen⟩
  rcases Option.bind_eq_some_iff.mp hinside with ⟨last, hrest, -⟩
  have habove : groupDepth? true (0 + (depth + 1)) rest = some (last + (depth + 1)) :=
    groupDepth?_add (depth + 1) hrest (Or.inr (Or.inl rfl))
  rw [Nat.zero_add] at habove
  have hzero : groupDepth? true (depth + 1) rest = some 0 := (groupDepth?_cons.mp hopen).2
  rw [habove] at hzero
  cases hzero

/-- What follows a start has divided groups, if no pair reaches over the end of the
start. -/
theorem DividesGroups.of_append {start rest : Text} (h : DividesGroups (start ++ rest))
    (hstart : ∀ before inside after, Paired (start ++ rest) before inside after →
      before.length < start.length → before.length + inside.length + 1 < start.length) :
    DividesGroups rest := by
  intro before inside after hpair
  apply h (start ++ before) inside after
  refine ⟨hpair.toPaired.append_left start, ?_⟩
  intro before' inside' after' hpair' hlt
  rw [List.length_append] at hlt ⊢
  by_cases hearly : before'.length < start.length
  · have hclosed := hstart before' inside' after' hpair' hearly
    omega
  · rcases hpair'.of_append (Nat.le_of_not_lt hearly) with ⟨later, rfl, hlater⟩
    rw [List.length_append] at hlt ⊢
    have houtside := hpair.outside later inside' after' hlater (by omega)
    omega

/-- A pair that stands in no other one does so without what comes before it. -/
theorem Outermost.of_append {start text before inside after : Text}
    (h : Outermost (start ++ text) before inside after) (hlength : start.length ≤ before.length) :
    ∃ rest, Outermost text rest inside after := by
  rcases h.toPaired.of_append hlength with ⟨rest, rfl, hpair⟩
  refine ⟨rest, hpair, fun before' inside' after' hpair' hlt => ?_⟩
  have houtside := h.outside _ _ _ (hpair'.append_left start)
  simp only [List.length_append] at houtside
  omega

/-- A character that opens no pair may stand before divided groups. -/
theorem dividesGroups_cons_iff {c : Char} {rest : Text}
    (hc : ∀ inside after, ¬Paired (c :: rest) [] inside after) :
    DividesGroups (c :: rest) ↔ DividesGroups rest := by
  constructor
  · intro h
    have happend : DividesGroups ([c] ++ rest) := h
    apply happend.of_append
    intro before inside after hpair hlt
    rw [List.length_singleton, Nat.lt_one_iff, List.length_eq_zero_iff] at hlt
    subst hlt
    exact absurd hpair (hc inside after)
  · intro h before inside after hpair
    cases before with
    | nil => exact absurd hpair.toPaired (hc inside after)
    | cons d before =>
      have happend : Outermost ([c] ++ rest) (d :: before) inside after := hpair
      rcases happend.of_append (by simp) with ⟨later, hlater⟩
      exact h later inside after hlater

/-- A text without opening parentheses may stand before divided groups. -/
theorem dividesGroups_append_iff {start rest : Text} (hstart : '(' ∉ start) :
    DividesGroups (start ++ rest) ↔ DividesGroups rest := by
  induction start with
  | nil => exact Iff.rfl
  | cons c start ih =>
    rw [List.mem_cons, not_or] at hstart
    refine (dividesGroups_cons_iff fun inside after hpair => ?_).trans (ih hstart.2)
    exact hstart.1 (List.cons.inj hpair.split).1.symm

/-- What opens in a group closes in it, or is the group itself. -/
theorem Paired.closes {inside after before inside' after' : Text}
    (h : Paired ('(' :: (inside ++ ')' :: after)) before inside' after') (hinside : Balanced inside)
    (hlt : before.length < inside.length + 2) :
    (before = [] ∧ inside' = inside) ∨
      (0 < before.length ∧ before.length + inside'.length < inside.length + 1) := by
  cases before with
  | nil =>
    have hclose := h.groupClose?
    rw [hinside.groupClose?] at hclose
    cases hclose
    exact Or.inl ⟨rfl, rfl⟩
  | cons c start =>
    refine Or.inr ⟨Nat.succ_pos _, ?_⟩
    have hsplit := (List.cons.inj h.split).2
    rw [List.length_cons] at hlt ⊢
    rcases Nat.lt_or_ge start.length inside.length with hin | hend
    · have hopen : start ++ ['('] <+: inside ++ ')' :: after := by
        rw [hsplit]
        exact ⟨inside' ++ ')' :: after', by simp⟩
      have hlength : (start ++ ['(']).length ≤ inside.length := by
        rw [List.length_append, List.length_singleton]
        exact hin
      rcases List.prefix_of_prefix_length_le hopen ⟨_, rfl⟩ hlength with ⟨rest, rfl⟩
      have hrest : rest ++ ')' :: after = inside' ++ ')' :: after' := by
        simpa using hsplit
      rw [List.append_assoc, List.singleton_append] at hinside
      have hclosed := hinside.length_lt hrest h.balanced
      simp only [List.length_append, List.length_singleton]
      omega
    · -- The character there closes the group.
      have hlength : inside.length = start.length := by omega
      have hclose := (List.append_inj hsplit hlength).2
      cases hclose

/-- A group stands before divided groups if it is blank or has two parts. -/
theorem dividesGroups_group_iff {inside after : Text} (hinside : Balanced inside) :
    DividesGroups ('(' :: (inside ++ ')' :: after)) ↔
      ((∀ c ∈ inside, isBlank c = true) ∨ 2 ≤ (splitOptions inside).length) ∧
        DividesGroups after := by
  have hgroup : '(' :: (inside ++ ')' :: after) = ('(' :: inside ++ [')']) ++ after := by simp
  have hlength : ('(' :: inside ++ [')']).length = inside.length + 2 := by simp
  have hpaired : Paired ('(' :: (inside ++ ')' :: after)) [] inside after := ⟨rfl, hinside⟩
  constructor
  · intro h
    refine ⟨h [] inside after ⟨hpaired, fun _ _ _ _ hlt => absurd hlt (Nat.not_lt_zero _)⟩, ?_⟩
    rw [hgroup] at h
    apply h.of_append
    intro before inside' after' hpair hlt
    rw [← hgroup] at hpair
    rw [hlength] at hlt ⊢
    rcases hpair.closes hinside hlt with ⟨rfl, rfl⟩ | ⟨-, hclosed⟩
    · simp
    · omega
  · rintro ⟨hfirst, hafter⟩ before inside' after' hpair
    by_cases hlt : before.length < inside.length + 2
    · rcases hpair.toPaired.closes hinside hlt with ⟨rfl, rfl⟩ | ⟨hpos, hclosed⟩
      · exact hfirst
      · have houtside := hpair.outside [] inside after hpaired hpos
        rw [List.length_nil] at houtside
        omega
    · rw [hgroup] at hpair
      rcases hpair.of_append (by omega) with ⟨later, hlater⟩
      exact hafter later inside' after' hlater

/-! ## Stacks -/

variable {σ : Type} {source : DrawSource σ} {limit : Int}

/-- One text and then, from the state in which it leaves the source, another one. -/
def followedBy {ε : Type} (first : Except ε (Text × σ)) (next : σ → Except ε (Text × σ)) :
    Except ε (Text × σ) :=
  match first with
  | .ok (text, state) => (next state).map fun (texts, state) => (text ++ texts, state)
  | .error e => .error e

/-- A text in front stands before all that follows. -/
theorem followedBy_map {ε : Type} (text : Text) (first : Except ε (Text × σ))
    (next : σ → Except ε (Text × σ)) :
    followedBy (first.map fun (texts, state) => (text ++ texts, state)) next =
      (followedBy first next).map fun (texts, state) => (text ++ texts, state) := by
  cases first with
  | error e => rfl
  | ok result =>
    simp only [followedBy, Except.map]
    cases next result.2 <;> simp

/-- What comes out of two parts begins with what comes out of the first. -/
theorem exists_of_followedBy_eq_ok {ε : Type} {first : Except ε (Text × σ)}
    {next : σ → Except ε (Text × σ)} {out : Text} {last : σ}
    (h : followedBy first next = .ok (out, last)) :
    ∃ text middle rest, first = .ok (text, middle) ∧ next middle = .ok (rest, last) ∧
      out = text ++ rest := by
  cases first with
  | error e => cases h
  | ok result =>
    obtain ⟨text, middle⟩ := result
    rw [followedBy] at h
    dsimp only at h
    cases hnext : next middle with
    | error e =>
      rw [hnext] at h
      cases h
    | ok result =>
      rw [hnext] at h
      cases h
      exact ⟨text, middle, result.1, rfl, hnext, rfl⟩

/-- Faults may be renamed before or after. -/
theorem followedBy_mapError {ε ε' : Type} (rename : ε → ε') (first : Except ε (Text × σ))
    (next : σ → Except ε (Text × σ)) :
    (followedBy first next).mapError rename =
      followedBy (first.mapError rename) fun state => (next state).mapError rename := by
  cases first with
  | error e => rfl
  | ok result =>
    simp only [followedBy, Except.mapError]
    cases next result.2 <;> rfl

/-- A text without groups stays, and the stack below it is expanded. -/
theorem expandStack_of_none {text : Text} {depth : Nat} (hlevel : ¬limit < depth)
    (hnone : nextGroup? text = none) (stack : List Pending) (state : σ) :
    expandStack source limit state (⟨text, depth⟩ :: stack) =
      (expandStack source limit state stack).map fun (out, state) => (text ++ out, state) := by
  rw [expandStack, if_neg hlevel]
  split
  · rfl
  · rename_i group hgroup
    rw [hnone] at hgroup
    cases hgroup

/-- Of the first group of a text an option is drawn, which is expanded before the rest. -/
theorem expandStack_of_some {text : Text} {depth : Nat} {group : GroupSplit}
    (hlevel : ¬limit < depth) (hgroup : nextGroup? text = some group) (stack : List Pending)
    (state : σ) :
    expandStack source limit state (⟨text, depth⟩ :: stack) =
      match pick (source.next state).1 group.options with
      | .error e => .error e
      | .ok option =>
        (expandStack source limit (source.next state).2
          (⟨option, depth + 1⟩ :: ⟨group.after, depth⟩ :: stack)).map
            fun (out, state) => (group.before ++ out, state) := by
  rw [expandStack, if_neg hlevel]
  split
  · rename_i hnone
    rw [hnone] at hgroup
    cases hgroup
  · rename_i other hother
    rw [hgroup] at hother
    cases hother
    split <;> simp [*]

/-- A stack is expanded from the top on, what lies below following. -/
theorem expandStack_append (first second : List Pending) (state : σ) :
    expandStack source limit state (first ++ second) =
      followedBy (expandStack source limit state first) fun state =>
        expandStack source limit state second := by
  fun_induction expandStack source limit state first with
  | case1 state =>
    rw [List.nil_append]
    cases hsecond : expandStack source limit state second <;> simp [followedBy, hsecond, Except.map]
  | case2 state text depth stack hdeep ih =>
    rw [List.cons_append, expandStack, if_pos hdeep, ih, followedBy_map]
  | case3 state text depth stack hlevel hnone ih =>
    rw [List.cons_append, expandStack_of_none hlevel hnone, ih, followedBy_map]
  | case4 state text depth stack hlevel group hgroup e hpick =>
    rw [List.cons_append, expandStack_of_some hlevel hgroup, hpick]
    rfl
  | case5 state text depth stack hlevel group hgroup option hpick ih =>
    rw [List.cons_append, expandStack_of_some hlevel hgroup, hpick, followedBy_map, ← ih]
    rfl

/-- A character at which no group begins stays in front of what follows it. -/
theorem expandStack_cons {c : Char} {rest : Text} {depth : Nat} (hlevel : ¬limit < depth)
    (hhere : groupHere? (c :: rest) = none) (state : σ) :
    expandStack source limit state [⟨c :: rest, depth⟩] =
      (expandStack source limit state [⟨rest, depth⟩]).map fun (out, state) =>
        (c :: out, state) := by
  cases hnext : nextGroup? rest with
  | none =>
    have hwhole : nextGroup? (c :: rest) = none := by simp [nextGroup?, hhere, hnext]
    rw [expandStack_of_none hlevel hwhole, expandStack_of_none hlevel hnext]
    cases expandStack source limit state [] <;> rfl
  | some group =>
    have hwhole : nextGroup? (c :: rest) = some { group with before := c :: group.before } := by
      simp [nextGroup?, hhere, hnext]
    rw [expandStack_of_some hlevel hwhole, expandStack_of_some hlevel hnext]
    cases pick (source.next state).1 group.options with
    | error e => rfl
    | ok option =>
      dsimp only
      cases expandStack source limit (source.next state).2
        [⟨option, depth + 1⟩, ⟨group.after, depth⟩] <;> rfl

/-- Without an opening parenthesis a text stays in front of what follows it. -/
theorem expandStack_plain_append {start rest : Text} {depth : Nat} (hlevel : ¬limit < depth)
    (hstart : '(' ∉ start) (state : σ) :
    expandStack source limit state [⟨start ++ rest, depth⟩] =
      (expandStack source limit state [⟨rest, depth⟩]).map fun (out, state) =>
        (start ++ out, state) := by
  induction start with
  | nil =>
    rw [List.nil_append]
    cases expandStack source limit state [⟨rest, depth⟩] <;> rfl
  | cons c start ih =>
    rw [List.mem_cons, not_or] at hstart
    have hhere : groupHere? (c :: (start ++ rest)) = none := by
      unfold groupHere?
      split
      · rename_i heq
        exact absurd (List.cons.inj heq).1.symm hstart.1
      · rfl
    rw [List.cons_append, expandStack_cons hlevel hhere, ih hstart.2]
    cases expandStack source limit state [⟨rest, depth⟩] <;> rfl

/-- At a group an option is drawn and expanded one level deeper, and then what follows the
group. -/
theorem expandStack_group {inside after : Text} {depth : Nat} (hlevel : ¬limit < depth)
    (hinside : Balanced inside) (hoptions : groupOptions inside ≠ []) (state : σ) :
    expandStack source limit state [⟨'(' :: (inside ++ ')' :: after), depth⟩] =
      match pick (source.next state).1 (groupOptions inside) with
      | .error e => .error e
      | .ok option =>
        followedBy (expandStack source limit (source.next state).2 [⟨option, depth + 1⟩])
          fun state => expandStack source limit state [⟨after, depth⟩] := by
  have hhere : groupHere? ('(' :: (inside ++ ')' :: after)) =
      some ⟨[], groupOptions inside, after⟩ :=
    groupHere?_eq_some_iff.mpr ⟨_, inside, after, rfl, ⟨rfl, hinside, hoptions⟩, rfl⟩
  have hnext : nextGroup? ('(' :: (inside ++ ')' :: after)) =
      some ⟨[], groupOptions inside, after⟩ := by
    rw [nextGroup?, hhere]
  rw [expandStack_of_some hlevel hnext]
  cases pick (source.next state).1 (groupOptions inside) with
  | error e => rfl
  | ok option =>
    dsimp only
    rw [← List.singleton_append, expandStack_append]
    cases followedBy _ _ <;> rfl

/-! ## Segments -/

/-- What is drawn from changed items is the changed item. -/
theorem pick_map {α β : Type} (f : α → β) (draw : Binary64) (items : List α) :
    pick draw (items.map f) = (pick draw items).map f := by
  unfold pick
  rw [List.length_map]
  cases pickIndex draw items.length with
  | error e => rfl
  | ok index =>
    dsimp only
    rw [List.getElem?_map]
    cases items[index]? <;> rfl

/-- An option is drawn and expanded at depth one. -/
theorem drawOption_of_ne_nil {options : List Text} (hne : options ≠ []) (state : σ) :
    drawOption source limit (options.map .str) state =
      match pick (source.next state).1 options with
      | .error e => .error (.draw e)
      | .ok option =>
        (expandStack source limit (source.next state).2 [⟨option, 1⟩]).mapError .draw := by
  cases options with
  | nil => exact absurd rfl hne
  | cons first rest =>
    have hpick := pick_map Value.str (source.next state).1 (first :: rest)
    rw [List.map_cons] at hpick
    unfold drawOption
    simp only [List.map_cons]
    rw [hpick]
    cases pick (source.next state).1 (first :: rest) <;> rfl

/-- One of the options of an inline wildcard is drawn, and expanded. -/
theorem exists_drawOption {options : List Text} {state : σ} (limit : Int)
    (hunit : source.GivesUnit state) (hne : options ≠ []) (hcount : options.length.log2 ≤ 1021)
    (hlength : ∀ option ∈ options, option.length < bracketBound) :
    ∃ option ∈ options, ∃ draws out last,
      drawOption source limit (options.map .str) state = .ok (out, last) ∧
        Expands limit 1 option draws out ∧ source.GivesUnit last := by
  rcases hunit.inUnit.exists_pick hne hcount with ⟨share, -, option, hitem, hpick⟩
  have hoption := List.mem_of_getElem? hitem
  have hnext : source.GivesUnit (source.next state).2 := hunit.of_gives (.cons (.nil _))
  rcases exists_expandStack limit hnext (hlength option hoption) with
    ⟨draws, out, last, hresult, hgives, hexpands⟩
  refine ⟨option, hoption, draws, out, last, ?_, hexpands, hnext.of_gives hgives⟩
  rw [drawOption_of_ne_nil hne, hpick]
  dsimp only
  rw [hresult]
  rfl

/-- A literal parenthesis opens no group with an option, if it divides its group. -/
theorem groupHere?_of_readGroup? {rest : Text} (hgroups : DividesGroups ('(' :: rest))
    (hnone : readGroup? rest = none) :
    groupHere? ('(' :: rest) = none ∧ DividesGroups rest := by
  cases hclose : groupClose? 0 rest with
  | none =>
    refine ⟨by simp [groupHere?, hclose], (dividesGroups_cons_iff ?_).mp hgroups⟩
    intro inside after hpair
    rw [hpair.groupClose?] at hclose
    cases hclose
  | some group =>
    rcases groupClose?_eq_some_iff.mp hclose with ⟨hsplit, hinside⟩
    have hinside : Balanced group.1 := hinside
    rw [hsplit, dividesGroups_group_iff hinside] at hgroups
    -- Blank or divided, the group has no option, so nothing opens in it.
    have hoptions : groupOptions group.1 = [] := by
      rcases hgroups.1 with hblank | hparts
      · exact groupOptions_eq_nil_of_blank hblank
      · by_contra hne
        have hread := readGroup?_eq_some_iff.mpr ⟨group.1, hsplit, hinside, hparts, hne, rfl⟩
        rw [hnone] at hread
        cases hread
    refine ⟨by simp [groupHere?, hclose, hoptions], ?_⟩
    have hopen : '(' ∉ group.1 ++ [')'] := by
      simpa using not_mem_of_groupOptions_eq_nil hoptions
    have hrest := (dividesGroups_append_iff hopen).mpr hgroups.2
    rw [List.append_assoc, List.singleton_append, ← hsplit] at hrest
    exact hrest

/-- Literal text stays in front of what the segments after it are resolved to. -/
theorem resolveList_literal {depth : Nat} {literal : Text} {rest : List (Segment Unit)}
    {state : σ} :
    Segment.resolveList source limit (addPiece (readInside depth) (.literal literal) rest) state =
      (Segment.resolveList source limit rest state).map fun (texts, state) =>
        (literal ++ texts, state) :=
  resolveList_addPiece (hasLevel_readInside depth)

/-- A group is resolved before the segments after it. -/
theorem resolveList_group {depth : Nat} {options : List Text} {rest : List (Segment Unit)}
    {state : σ} :
    Segment.resolveList source limit (addPiece (readInside depth) (.group options) rest) state =
      followedBy (drawOption source limit (options.map .str) state) fun state =>
        Segment.resolveList source limit rest state := by
  rw [resolveList_addPiece (hasLevel_readInside depth), Piece.resolve]
  cases drawOption source limit (options.map .str) state <;> rfl

/-- The marks of a prompt that text without a tree does not know. -/
def treeMarks : List Char :=
  ['{', '}', '[', ']', '!', ':']

/-- Where each outermost group is blank or divided, and no other marks are, the segments of a
text are resolved to what the text is expanded to. -/
theorem resolveList_readFrom (hlimit : 0 ≤ limit) (depth : Nat) (boundary : Bool) (text : Text)
    (hplain : ∀ c ∈ text, c ∉ treeMarks) (hgroups : DividesGroups text) (state : σ) :
    Segment.resolveList source limit (readFrom depth boundary text) state =
      (expandStack source limit state [⟨text, 0⟩]).mapError .draw := by
  have hlevel : ¬limit < ((0 : Nat) : Int) := by omega
  induction depth, boundary, text using readInduction generalizing state with
  | nil depth boundary =>
    rw [readFrom_nil, expandStack_of_none hlevel rfl]
    simp [expandStack, Segment.resolveList, Except.map, Except.mapError]
  | reads depth boundary text piece after hreads _ ih =>
    rw [readFrom_of_reads hreads]
    cases hreads with
    | span type inside after hspans hnested =>
      have hmark := hplain _ List.mem_cons_self
      cases type <;> exact absurd (by decide) hmark
    | mismatch type through after hspans hclosing =>
      have hmark := hplain _ List.mem_cons_self
      cases type <;> exact absurd (by decide) hmark
    | bracket type rest hclosing =>
      have hmark := hplain _ List.mem_cons_self
      cases type <;> exact absurd (by decide) hmark
    | group inside after hbalanced hparts hoptions =>
      rw [List.cons_append, dividesGroups_group_iff hbalanced] at hgroups
      have hafter := ih (fun c hc => hplain c (by simp [hc])) hgroups.2
      rw [resolveList_group, drawOption_of_ne_nil hoptions, List.cons_append,
        expandStack_group hlevel hbalanced hoptions]
      cases pick (source.next state).1 (groupOptions inside) with
      | error e => rfl
      | ok option =>
        dsimp only
        rw [followedBy_mapError]
        exact congrArg _ (funext hafter)
    | paren _ hnone =>
      rcases groupHere?_of_readGroup? hgroups hnone with ⟨hhere, hrest⟩
      have hafter := ih (fun c hc => hplain c (List.mem_cons_of_mem _ hc)) hrest
      rw [resolveList_literal, hafter, expandStack_cons hlevel hhere]
      cases expandStack source limit state [⟨after, 0⟩] <;> rfl
    | random name after hboundary hname hafter =>
      exact absurd (by decide) (hplain _ List.mem_cons_self)
    | fixed name value after hboundary hname hvalue hafter =>
      exact absurd (by decide) (hplain ':' (by simp))
    | word name after hboundary hname hafter hnone =>
      have hopen : '(' ∉ name := fun hmem => absurd (hname.2 _ hmem) (by decide)
      have hrest := ih (fun c hc => hplain c (List.mem_append_right _ hc))
        ((dividesGroups_append_iff hopen).mp hgroups)
      rw [resolveList_literal, hrest, expandStack_plain_append hlevel hopen]
      cases expandStack source limit state [⟨after, 0⟩] <;> rfl
    | char c _ hopener hparen hword =>
      have hopen : '(' ∉ [c] := by simpa using hparen.symm
      rw [← List.singleton_append] at hgroups
      have hrest := ih (fun d hd => hplain d (List.mem_cons_of_mem _ hd))
        ((dividesGroups_append_iff hopen).mp hgroups)
      have hkept : expandStack source limit state [⟨c :: after, 0⟩] = _ :=
        expandStack_plain_append hlevel hopen state
      rw [resolveList_literal, hrest, hkept]
      cases expandStack source limit state [⟨after, 0⟩] <;> rfl

/-! ## Prompts -/

/-- What a source gives with its numbers counted, it gives without. -/
theorem DrawSource.Gives.of_counted {state last : σ × Nat} {draws : List Binary64}
    (h : source.counted.Gives state draws last) : source.Gives state.1 draws last.1 := by
  induction h with
  | nil state => exact .nil _
  | cons _ ih => exact .cons ih

/-- A source that gives numbers between zero and one gives them when they are counted. -/
theorem DrawSource.GivesUnit.counted {state : σ} (h : source.GivesUnit state) (count : Nat) :
    source.counted.GivesUnit (state, count) :=
  fun draws last hgives => h draws last.1 hgives.of_counted

/-- With its choices made a prompt is compiled to what it is resolved to. -/
theorem compile_expanded {surroundings : Surroundings} {given : Option Int} {seed : Int}
    (hseed : surroundings.seedFor ⟨true, given, limit⟩ = .ok seed) (text : Text) :
    compile surroundings (some ⟨true, given, limit⟩) (readPrompt text) =
      (((readPrompt text).resolve Twister.source limit (.ofSeed seed)).mapError .render).map
        (·.1) :=
  compile_expanded_root hseed rfl

/-- Choices are made alike in the tree of a prompt and in its text, if the prompt has no other
marks than those of groups, and each outermost pair of parentheses encloses blank characters
only or two parts at least.  From every source both give the same text, or refuse the same
draw, and leave the source in the same state; with draws between zero and one both give a
text, after the same number of draws.  So a compiled prompt is the expanded text. -/
theorem resolve_readPrompt_eq_expandGroups (hlimit : 0 ≤ limit) {text : Text}
    (hplain : ∀ c ∈ text, c ∉ treeMarks) (hgroups : DividesGroups text) :
    (∀ {σ : Type} (source : DrawSource σ) (state : σ),
      (readPrompt text).resolve source limit state =
        (expandGroups source limit text state).mapError .draw) ∧
    (∀ {σ : Type} (source : DrawSource σ) (state : σ), source.GivesUnit state →
      text.length < bracketBound → ∃ out last count,
        (readPrompt text).resolve source.counted limit (state, 0) = .ok (out, last, count) ∧
        expandGroups source.counted limit text (state, 0) = .ok (out, last, count)) ∧
    ∀ (surroundings : Surroundings) (given : Option Int) (seed : Int),
      surroundings.seedFor ⟨true, given, limit⟩ = .ok seed →
        compile surroundings (some ⟨true, given, limit⟩) (readPrompt text) =
          (expandText surroundings.settings Twister.source (some limit) text
            (.ofSeed seed)).map (·.1) := by
  have hsame : ∀ {σ : Type} (source : DrawSource σ) (state : σ),
      (readPrompt text).resolve source limit state =
        (expandGroups source limit text state).mapError .draw := by
    intro σ source state
    rw [resolve_readPrompt, resolveList_readFrom hlimit maxNesting true text hplain hgroups]
    rfl
  refine ⟨hsame, ?_, ?_⟩
  · intro σ source state hunit hlength
    rcases expandsTo_expandStack limit [⟨text, 0⟩] (hunit.counted 0) (by simpa using hlength) with
      ⟨draws, out, last, -, -, hout⟩
    have hgroups : expandGroups source.counted limit text (state, 0) = .ok (out, last) := hout
    refine ⟨out, last.1, last.2, ?_, hgroups⟩
    rw [hsame, hgroups]
    rfl
  · intro surroundings given seed hseed
    have hexpand : expandText surroundings.settings Twister.source (some limit) text
        (.ofSeed seed) = (expandGroups Twister.source limit text (.ofSeed seed)).mapError
          fun e => .render (.draw e) := rfl
    rw [compile_expanded hseed, hsame, hexpand]
    cases expandGroups Twister.source limit text (Twister.ofSeed seed) <;> rfl

/-- The empty text has no groups. -/
theorem dividesGroups_nil : DividesGroups [] := by
  intro before inside after hpair
  have hsplit := hpair.split
  cases before <;> cases hsplit

/-- An open parenthesis, a group with a blank part and with a pair around a single part in it,
and a blank pair. -/
theorem resolve_readPrompt_eq_expandGroups_nested :
    let text : Text := ['(', '(', 'a', '(', 'b', ')', '|', '|', 'c', ')', '(', ' ', ')']
    (0 : Int) ≤ 1 ∧ (∀ c ∈ text, c ∉ treeMarks) ∧ DividesGroups text ∧
      ∃ out last count,
        (readPrompt text).resolve DrawSource.ofList.counted 1 ([.one], 0) =
            .ok (out, last, count) ∧
          expandGroups DrawSource.ofList.counted 1 text ([.one], 0) = .ok (out, last, count) := by
  intro text
  have hlimit : (0 : Int) ≤ 1 := by decide
  have hplain : ∀ c ∈ text, c ∉ treeMarks := by simp [text, treeMarks]
  have hblank : DividesGroups ('(' :: ([' '] ++ ')' :: [])) :=
    (dividesGroups_group_iff (by decide)).mpr
      ⟨Or.inl (List.forall_mem_singleton.mpr (by decide)), dividesGroups_nil⟩
  have hgroup : DividesGroups
      ('(' :: (['a', '(', 'b', ')', '|', '|', 'c'] ++ ')' :: ['(', ' ', ')'])) :=
    (dividesGroups_group_iff (by decide)).mpr ⟨Or.inr (by decide), hblank⟩
  have hgroups : DividesGroups text := by
    refine (dividesGroups_cons_iff fun inside after hpair => ?_).mpr hgroup
    have hclose := hpair.groupClose?
    cases hclose
  have hunit : DrawSource.ofList.GivesUnit [.one] :=
    DrawSource.givesUnit_ofList (by simp [Binary64.inUnit_one])
  have hsame := resolve_readPrompt_eq_expandGroups hlimit hplain hgroups
  exact ⟨hlimit, hplain, hgroups, hsame.2.1 DrawSource.ofList [.one] hunit (by decide)⟩

end PromptMarkup
