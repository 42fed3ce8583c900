/-!
# Parsers over characters

A parser reads from the front of a list of characters and answers a value together with the
characters it left, or nothing. Choice is ordered and a failed alternative leaves no trace, so
`p <|> q` is `q` exactly where `p` fails. `many` repeats a parser for as long as it succeeds; it
stops by itself at a parser that reads nothing.
-/

namespace Interaction

namespace Source

/-- A reader of values of type `α` from the front of a list of characters. -/
abbrev Parser (α : Type) := StateT (List Char) Option α

namespace Parser

def one (p : Char → Bool) : Parser Char
  | [] => none
  | c :: rest => if p c then some (c, rest) else none

/-- The longest run of characters that satisfy `p`, which may be empty. -/
def run (p : Char → Bool) : Parser (List Char) := fun s =>
  some (s.takeWhile p, s.dropWhile p)

/-- What a list of characters has after the given ones, if it starts with them. -/
def after? : List Char → List Char → Option (List Char)
  | [], s => some s
  | _ :: _, [] => none
  | a :: as, c :: s => if a = c then after? as s else none

theorem after?_append (text rest : List Char) : after? text (text ++ rest) = some rest := by
  induction text with
  | nil => rfl
  | cons c text ih => simp [after?, ih]

/-- Exactly the given text. -/
def exactly (text : String) : Parser Unit := fun s =>
  (after? text.toList s).map fun rest => ((), rest)

/-- Reads nothing, and fails if the next character satisfies `p`. -/
def notAhead (p : Char → Bool) : Parser Unit
  | [] => some ((), [])
  | c :: rest => if p c then none else some ((), c :: rest)

/-- Reads nothing, and fails unless the next character is `c`. -/
def ahead (c : Char) : Parser Unit
  | [] => none
  | d :: rest => if d = c then some ((), d :: rest) else none

/-- The values of a parser that is repeated for as long as it succeeds and reads something. -/
def many {α : Type} (p : Parser α) (s : List Char) : Option (List α × List Char) :=
  match p s with
  | none => some ([], s)
  | some (a, rest) =>
    if rest.length < s.length then
      (many p rest).map fun found => (a :: found.1, found.2)
    else some ([], s)
termination_by s.length

/-- Reads with `p` and answers the characters that were read instead of their value. -/
def matched {α : Type} (p : Parser α) : Parser (List Char) := fun s =>
  (p s).map fun found => (s.take (s.length - found.2.length), found.2)

def maybe {α : Type} (p : Parser α) : Parser (Option α) := fun s =>
  match p s with
  | none => some (none, s)
  | some (a, rest) => some (some a, rest)

/-- How many lines lie between two places of one text. -/
def linesBetween (origin here : List Char) : Nat :=
  (origin.take (origin.length - here.length)).count '\n'

end Parser

end Source

end Interaction
