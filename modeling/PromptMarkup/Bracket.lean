import PromptMarkup.Value.Basic

/-!
# Brackets

Curly brackets increase the weight of what they hold and square brackets decrease
it.  The closing bracket that belongs to an opening one is found by keeping the
closers that are still expected, innermost first.
-/

namespace PromptMarkup

/-- Whether a weighted span raises or lowers the weight of what it holds. -/
inductive BracketType where
  | increase
  | decrease
deriving DecidableEq, Repr

namespace BracketType

/-- The name of a bracket type. -/
def name : BracketType → String
  | .increase => "increase"
  | .decrease => "decrease"

/-- A bracket type as a value. -/
def toValue (type : BracketType) : Value :=
  .ofString type.name

/-- The opening bracket. -/
def opener : BracketType → Char
  | .increase => '{'
  | .decrease => '['

/-- The closing bracket. -/
def closer : BracketType → Char
  | .increase => '}'
  | .decrease => ']'

/-- The bracket type that a character opens. -/
def ofOpener? (c : Char) : Option BracketType :=
  if c = '{' then some .increase
  else if c = '[' then some .decrease
  else none

/-- The bracket type that a character closes. -/
def ofCloser? (c : Char) : Option BracketType :=
  if c = '}' then some .increase
  else if c = ']' then some .decrease
  else none

/-- The bracket type that a value names. -/
def ofValue? (value : Value) : Option BracketType :=
  if value = .ofString "increase" then some .increase
  else if value = .ofString "decrease" then some .decrease
  else none

end BracketType

/-! ## Matching -/

/-- How the text after an opening bracket ends the span. -/
inductive Closing where
  /-- The span closes: what it holds, and what follows its closer. -/
  | matched (inside rest : Text)
  /-- A closer of the wrong kind comes first: the text through that closer, and
  what follows it. -/
  | mismatched (through rest : Text)
  /-- The text ends while the span is open. -/
  | unclosed
deriving DecidableEq, Repr

/-- Put a character before what a span holds. -/
def Closing.cons (c : Char) : Closing → Closing
  | .matched inside rest => .matched (c :: inside) rest
  | .mismatched through rest => .mismatched (c :: through) rest
  | .unclosed => .unclosed

/-- Read on inside an open span.  The innermost open bracket is of type
{lit}`innermost`, and {lit}`outer` holds those around it, innermost first. -/
def closing (innermost : BracketType) (outer : List BracketType) : Text → Closing
  | [] => .unclosed
  | c :: rest =>
    match BracketType.ofOpener? c with
    | some opened => (closing opened (innermost :: outer) rest).cons c
    | none =>
      match BracketType.ofCloser? c with
      | some closed =>
        if closed = innermost then
          match outer with
          | [] => .matched [] rest
          | next :: outer => (closing next outer rest).cons c
        else .mismatched [c] rest
      | none => (closing innermost outer rest).cons c

/-- Where the search for a closer ends, given the position of the opening bracket, and whether the
closer was found there. -/
def Closing.position (start : Nat) : Closing → Int × Bool
  | .matched inside _ => ((start + inside.length + 1 : Nat), true)
  | .mismatched through _ => ((start + through.length : Nat), false)
  | .unclosed => (-1, false)

/-- The search for a closer as a loop over positions.  The types of the closers that it expects are
on a stack, the innermost first, and a closer that finds the stack empty ends the search without a
result. -/
def searchCloser (stack : List BracketType) (position : Nat) : Text → Option (Int × Bool)
  | [] => some (-1, false)
  | c :: rest =>
    match BracketType.ofOpener? c with
    | some opened => searchCloser (opened :: stack) (position + 1) rest
    | none =>
      match BracketType.ofCloser? c with
      | none => searchCloser stack (position + 1) rest
      | some closed =>
        match stack with
        | [] => none
        | innermost :: outer =>
          if closed ≠ innermost then some (position, false)
          else if outer = [] then some (position, true)
          else searchCloser outer (position + 1) rest

end PromptMarkup
