import Startup.Toml.Parser

/-!
What TOML is written in: blanks and comments, strings in four spellings, and keys.

Control characters other than the tab are nowhere allowed, the delete character among them. A line
ends with a line feed, perhaps after a carriage return; inside a string that spans lines either is
read as a line feed.
-/

namespace Startup.Toml

open Startup.Toml.Parser

/-! ## Characters -/

def isBlank (c : Char) : Bool := c == ' ' || c == '\t'

def isVisible (c : Char) : Bool := c == '\t' || (' ' ≤ c && c ≤ '~') || '\x80' ≤ c

def isBareKeyChar (c : Char) : Bool := c.isAlphanum || c == '-' || c == '_'

def hexValue? (c : Char) : Option Nat :=
  if c.isDigit then some (c.toNat - '0'.toNat)
  else if 'a' ≤ c && c ≤ 'f' then some (c.toNat - 'a'.toNat + 10)
  else if 'A' ≤ c && c ≤ 'F' then some (c.toNat - 'A'.toNat + 10)
  else none

def ofHex? (cs : List Char) : Option Nat :=
  cs.foldlM (fun n c => (hexValue? c).map (16 * n + ·)) 0

/-- The character that hexadecimal digits stand for. -/
def charOfHex? (cs : List Char) : Option Char :=
  (ofHex? cs).bind fun n => if n.isValidChar then some (Char.ofNat n) else none

/-! ## Blanks and comments -/

def blanks : Parser Unit := do
  let _ ← span isBlank

def newline : Parser Unit := just '\n' <|> exactly ['\r', '\n']

def comment : Parser Unit := do
  just '#'
  let _ ← span isVisible

/-- What may follow on a line. -/
def lineEnd : Parser Unit := do
  blanks
  skip comment
  newline <|> atEnd

/-- Blanks, line ends and comments, each comment with its line end. -/
def spacing : Parser Unit := do
  blanks
  let _ ← many do
    skip comment
    newline
    blanks

/-! ## Strings -/

/-- Put a character in front of what was read. -/
def push (c : Char) (x : Option (List Char × List Char)) : Option (List Char × List Char) :=
  x.map fun p => (c :: p.1, p.2)

def escaped? : Char → Option Char
  | 'b' => some '\x08'
  | 't' => some '\t'
  | 'n' => some '\n'
  | 'f' => some '\x0c'
  | 'r' => some '\r'
  | '"' => some '"'
  | '\\' => some '\\'
  | _ => none

/-- The rest of a string in quotes, up to the closing one. -/
def quotedRest : List Char → Option (List Char × List Char)
  | [] => none
  | '"' :: s => some ([], s)
  | '\\' :: 'u' :: a :: b :: c :: d :: s => do
    let x ← charOfHex? [a, b, c, d]
    push x (quotedRest s)
  | '\\' :: 'U' :: a :: b :: c :: d :: e :: f :: g :: h :: s => do
    let x ← charOfHex? [a, b, c, d, e, f, g, h]
    push x (quotedRest s)
  | '\\' :: c :: s => do
    let x ← escaped? c
    push x (quotedRest s)
  | c :: s => if isVisible c && c != '\\' then push c (quotedRest s) else none

def endsLine : List Char → Bool
  | '\n' :: _ | '\r' :: '\n' :: _ => true
  | c :: s => isBlank c && endsLine s
  | [] => false

/-- The rest of a string in triple quotes. Up to two quotes may stand right before the closing
ones. A backslash at the end of a line takes away all blanks and line ends after it; `joining`
says that this is going on. -/
def longQuotedRest (joining : Bool) : List Char → Option (List Char × List Char)
  | [] => none
  | '\n' :: s => if joining then longQuotedRest true s else push '\n' (longQuotedRest false s)
  | '\r' :: '\n' :: s =>
    if joining then longQuotedRest true s else push '\n' (longQuotedRest false s)
  | '"' :: '"' :: '"' :: '"' :: '"' :: s => some (['"', '"'], s)
  | '"' :: '"' :: '"' :: '"' :: s => some (['"'], s)
  | '"' :: '"' :: '"' :: s => some ([], s)
  | '\\' :: 'u' :: a :: b :: c :: d :: s => do
    let x ← charOfHex? [a, b, c, d]
    push x (longQuotedRest false s)
  | '\\' :: 'U' :: a :: b :: c :: d :: e :: f :: g :: h :: s => do
    let x ← charOfHex? [a, b, c, d, e, f, g, h]
    push x (longQuotedRest false s)
  | '\\' :: c :: s =>
    if endsLine (c :: s) then
      if isBlank c || c == '\n' then longQuotedRest true s else longQuotedRest true (c :: s)
    else do
      let x ← escaped? c
      push x (longQuotedRest false s)
  | c :: s =>
    if joining && isBlank c then longQuotedRest true s
    else if isVisible c && c != '\\' then push c (longQuotedRest false s)
    else none
termination_by s => s.length

def literalRest : List Char → Option (List Char × List Char)
  | [] => none
  | '\'' :: s => some ([], s)
  | c :: s => if isVisible c then push c (literalRest s) else none

def longLiteralRest : List Char → Option (List Char × List Char)
  | [] => none
  | '\'' :: '\'' :: '\'' :: '\'' :: '\'' :: s => some (['\'', '\''], s)
  | '\'' :: '\'' :: '\'' :: '\'' :: s => some (['\''], s)
  | '\'' :: '\'' :: '\'' :: s => some ([], s)
  | '\n' :: s | '\r' :: '\n' :: s => push '\n' (longLiteralRest s)
  | c :: s => if isVisible c then push c (longLiteralRest s) else none

def shortString : Parser String := do
  let cs ← (do just '"'; quotedRest) <|> (do just '\''; literalRest)
  return String.ofList cs

/-- A string that may span lines. A line end right after the opening quotes is dropped. -/
def longString : Parser String := do
  let cs ← (do exactly ['"', '"', '"']; skip newline; longQuotedRest false) <|>
    (do exactly ['\'', '\'', '\'']; skip newline; longLiteralRest)
  return String.ofList cs

/-! ## Keys -/

def keyPart : Parser String :=
  shortString <|> do
    let cs ← span1 isBareKeyChar
    return String.ofList cs

/-- The parts of a key, fewer than 80. -/
def keyParts : Parser (List String) := do
  let parts ← separated (do blanks; let k ← keyPart; blanks; return k) (just '.')
  if parts.length < 80 then return parts else failure

end Startup.Toml
