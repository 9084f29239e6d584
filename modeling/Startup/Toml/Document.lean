import Startup.Toml.DateTime
import Startup.Toml.Number
import Startup.Toml.Value

/-!
TOML documents. A document is read line by line into statements, which are then put together.
Values nest fewer than 80 deep.
-/

namespace Startup.Toml

open Startup.Toml.Parser

/-! ## Values -/

def scalar : Parser Value :=
  (do return .text (← longString)) <|> (do return .text (← shortString)) <|>
  (do exactly ['t', 'r', 'u', 'e']; return .boolean true) <|>
  (do exactly ['f', 'a', 'l', 's', 'e']; return .boolean false) <|>
  (do return .dateTime (← dateTime)) <|> (do return .float (← float)) <|>
  (do return .integer (← integer))

def keyPath : Parser KeyPath := do
  let parts ← keyParts
  return { path := parts.dropLast, last := parts.getLastD "" }

def entry (value : Parser Value) : Parser (KeyPath × Value) := do
  let k ← keyPath
  just '='
  blanks
  let v ← value
  blanks
  return (k, v)

/-- Items in brackets, over any number of lines; a comma may follow the last. -/
def array (value : Parser Value) : Parser (List Value) := do
  just '['
  let items ← optional do
    let items ← separated (do spacing; let v ← value; spacing; return v) (just ',')
    skip (just ',')
    return items
  spacing
  just ']'
  return items.getD []

/-- Keys in braces, on one line. -/
def inlineTable (value : Parser Value) : Parser Entries := do
  just '\x7b'
  let pairs ← optional (separated (entry value) (just ','))
  blanks
  just '\x7d'
  get (pure ((pairs.getD []).foldlM (fun es p => Entries.assign p.1.last p.2 true p.1.path es) []))

/-- A value in which others nest at most `depth` deep. -/
def value : Nat → Parser Value
  | 0 => scalar
  | depth + 1 =>
    (do return .array (← array (value depth))) <|>
    (do return .table .closed (← inlineTable (value depth))) <|> scalar

/-! ## Documents -/

/-- One line of a document, or several if its value spans them. -/
def statement : Parser (Option Statement) := do
  blanks
  (do
    exactly ['[', '[']
    let k ← keyPath
    exactly [']', ']']
    lineEnd
    return some (.item k)) <|> (do
    just '['
    let k ← keyPath
    just ']'
    lineEnd
    return some (.table k)) <|> (do
    let (k, v) ← entry (value 79)
    lineEnd
    return some (.entry k v)) <|> (do
    lineEnd
    return none)

def statements : Parser (List Statement) := do
  skip (just '\ufeff')
  let l ← many statement
  atEnd
  return l.filterMap id

def Entries.ofText? (text : String) : Option Entries :=
  (statements.run text.toList).bind fun p => Entries.ofStatements? p.1

end Startup.Toml
