import PromptMarkup.Draw.Source

/-!
# The Mersenne twister

The generator MT19937 keeps 624 words of 32 bits.  It is seeded from the words of
the seed's absolute value, lowest first, and a draw joins two of its outputs to an
integer below {lit}`2 ^ 53`, which is taken over {lit}`2 ^ 53`.
-/

namespace PromptMarkup

/-- The state of the generator: its words, and the position of the next one. -/
structure Twister where
  words : Array UInt32
  position : Nat

namespace Twister

/-- The number of words. -/
def size : Nat := 624

/-- The distance of the words that a new word is made of. -/
def lag : Nat := 397

/-- The word at a position. -/
def word (words : Array UInt32) (i : Nat) : UInt32 :=
  words.getD i 0

/-! ## Seeding -/

/-- The words of a natural number, lowest first; zero has one. -/
def seedWords (n : Nat) : List UInt32 :=
  if n < UInt32.size then [UInt32.ofNat n]
  else UInt32.ofNat n :: seedWords (n / UInt32.size)
termination_by n
decreasing_by
  simp only [UInt32.size, Nat.not_lt] at *
  omega

/-- A word with its two highest bits added into the lowest. -/
def folded (x : UInt32) : UInt32 :=
  x ^^^ (x >>> 30)

/-- The words that a single word spreads to. -/
def spread (seed : UInt32) : Array UInt32 :=
  (List.range (size - 1)).foldl
    (fun words i => words.push (1812433253 * folded (word words i) + UInt32.ofNat (i + 1)))
    #[seed]

/-- Words in the course of seeding, with the position of the word to change. -/
structure Mixing where
  words : Array UInt32
  position : Nat

/-- Change one word and go on to the next; after the last word comes the second,
and the first becomes the last. -/
def Mixing.step (state : Mixing) (change : UInt32 → UInt32 → UInt32) : Mixing :=
  let i := state.position
  let new := change (word state.words i) (folded (word state.words (i - 1)))
  let words := state.words.setIfInBounds i new
  if i + 1 < size then ⟨words, i + 1⟩
  else ⟨words.setIfInBounds 0 (word words (size - 1)), 1⟩

/-- The generator seeded with an integer. -/
def ofSeed (seed : Int) : Twister :=
  let key := (seedWords seed.natAbs).toArray
  let mixed := (List.range (max size key.size)).foldl
    (fun state k =>
      let j := k % key.size
      state.step fun old before => (old ^^^ (before * 1664525)) + word key j + UInt32.ofNat j)
    (⟨spread 19650218, 1⟩ : Mixing)
  let mixed := (List.range (size - 1)).foldl
    (fun state _ =>
      state.step fun old before =>
        (old ^^^ (before * 1566083941)) - UInt32.ofNat state.position)
    mixed
  ⟨mixed.words.setIfInBounds 0 0x80000000, size⟩

/-! ## Draws -/

/-- Make the next 624 words. -/
def refill (words : Array UInt32) : Array UInt32 :=
  (List.range size).foldl
    (fun words i =>
      let joined :=
        (word words i &&& 0x80000000) ||| (word words ((i + 1) % size) &&& 0x7FFFFFFF)
      let mask : UInt32 := if joined &&& 1 = 1 then 0x9908B0DF else 0
      words.setIfInBounds i (word words ((i + lag) % size) ^^^ (joined >>> 1) ^^^ mask))
    words

/-- The output for a word. -/
def temper (x : UInt32) : UInt32 :=
  let x := x ^^^ (x >>> 11)
  let x := x ^^^ ((x <<< 7) &&& 0x9D2C5680)
  let x := x ^^^ ((x <<< 15) &&& 0xEFC60000)
  x ^^^ (x >>> 18)

/-- The next output. -/
def output (state : Twister) : UInt32 × Twister :=
  let state := if state.position < size then state else ⟨refill state.words, 0⟩
  (temper (word state.words state.position), ⟨state.words, state.position + 1⟩)

/-- How many draws there are: those of 53 bits. -/
def drawSteps : Nat := 0x20000000000000

/-- The next integer below {lit}`drawSteps`: 27 bits of one output and 26 of the
next. -/
def draw53 (state : Twister) : Nat × Twister :=
  let (high, state) := state.output
  let (low, state) := state.output
  (((high >>> 5).toNat <<< 26) + (low >>> 6).toNat, state)

/-- The generator as a source of draws from 0 to below 1. -/
def source : DrawSource Twister where
  next state :=
    let (n, state) := state.draw53
    (.ofQuotient false n drawSteps, state)

/-- The first integers below {lit}`drawSteps` that the generator gives. -/
def firstDraws : Nat → Twister → List Nat
  | 0, _ => []
  | count + 1, state =>
    let (n, state) := state.draw53
    n :: firstDraws count state

end Twister

end PromptMarkup
