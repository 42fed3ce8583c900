import Interaction.Source.Lexeme

/-!
# Tags of a metadata block

A metadata block is a comment that opens with `/**` and names `@f_version`. It is read as its
tags: an `@`, a key, and the rest of the line as the value.
-/

namespace Interaction

namespace Source

structure Tag where
  /-- How many lines it stands below the start of the block. -/
  line : Nat
  key : String
  value : String
  deriving DecidableEq, Repr

namespace Tag

open Source.Parser Lexeme

/-- The characters up to the end of the line or of the block, and those after them. -/
def lineEnd : List Char → List Char × List Char
  | [] => ([], [])
  | '\n' :: rest => ([], '\n' :: rest)
  | '*' :: '/' :: rest => ([], '*' :: '/' :: rest)
  | c :: rest =>
    let found := lineEnd rest
    (c :: found.1, found.2)

/-- A tag of the block that starts at `origin`. -/
def parse (origin : List Char) : Parser Tag := do
  let here ← get
  exactly "@"
  let key ← word
  let _ ← run fun c => c == ' ' || c == '\t'
  let found := lineEnd (← get)
  set found.2
  return { line := linesBetween origin here, key := key, value := String.ofList found.1 }

/-- Some characters that are not tags, up to the next that may start one or end the block. -/
def between : Parser Unit := fun s =>
  match s with
  | [] => none
  | '*' :: '/' :: _ => none
  | _ :: rest => some ((), rest.dropWhile fun c => c != '@' && c != '*')

/-- A metadata block, by its tags. -/
def block : Parser (List Tag) := fun origin =>
  match origin with
  | '/' :: '*' :: '*' :: rest =>
    if blockAhead origin then
      (do
        let found ← many (some <$> parse origin <|> (fun _ => none) <$> between)
        exactly "*/"
        return found.filterMap id : Parser (List Tag)) rest
    else none
  | _ => none

end Tag

end Source

end Interaction
