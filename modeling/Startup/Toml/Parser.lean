/-!
Parsers over lists of characters. A parser takes what it can from the front and hands back the
rest, or refuses; of two alternatives the second is tried on the same input.
-/

namespace Startup.Toml

abbrev Parser (α : Type) := StateT (List Char) Option α

namespace Parser

variable {α β : Type}

def char (p : Char → Bool) : Parser Char := fun s =>
  match s with
  | c :: rest => if p c then some (c, rest) else none
  | [] => none

def just (c : Char) : Parser Unit := do
  let _ ← char (· == c)

def exactly : List Char → Parser Unit
  | [] => pure ()
  | c :: rest => do
    just c
    exactly rest

/-- As many characters of a class as there are. -/
def span (p : Char → Bool) : Parser (List Char) := fun s => some (s.takeWhile p, s.dropWhile p)

def span1 (p : Char → Bool) : Parser (List Char) := do
  let c ← char p
  let cs ← span p
  return c :: cs

def atEnd : Parser Unit := fun s => if s.isEmpty then some ((), s) else none

/-- Skip the parser if it applies. -/
def skip (x : Parser α) : Parser Unit := do
  let _ ← optional x

/-- Repeat for as long as the parser applies and takes something away. -/
def manyOf (x : Parser α) (s : List Char) : List α × List Char :=
  match x s with
  | none => ([], s)
  | some (a, rest) =>
    if rest.length < s.length then
      let (as, rest') := manyOf x rest
      (a :: as, rest')
    else ([], s)
termination_by s.length

def many (x : Parser α) : Parser (List α) := fun s => some (manyOf x s)

/-- One or more, with separators between them. A separator at the end is left. -/
def separated (x : Parser α) (separator : Parser Unit) : Parser (List α) := do
  let a ← x
  let as ← many do
    separator
    x
  return a :: as

/-- The characters that a parser takes. -/
def written (x : Parser α) : Parser (List Char) := fun s =>
  (x s).map fun p => (s.take (s.length - p.2.length), p.2)

/-- Drop results that are none. -/
def get (x : Parser (Option α)) : Parser α := do
  match ← x with
  | some a => return a
  | none => failure

end Parser

end Startup.Toml
