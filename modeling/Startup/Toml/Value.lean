import Startup.OrderedMap

/-!
TOML values, and how a document puts its tables together. A table may be written in several
pieces; how it came to be decides which pieces may still be added.

* `closed`: written in braces; nothing is added to it.
* `headed`: a header introduced it; keys are added below that header only.
* `implied`: it stands on the way to a table with a header; it may still get its own header.
* `dotted`: it stands on the way of a dotted key; further dotted keys may pass through it.
-/

namespace Startup.Toml

inductive TableKind where
  | closed
  | headed
  | implied
  | dotted
  deriving DecidableEq, Repr, Inhabited

inductive Value where
  | text (s : String)
  | boolean (b : Bool)
  | integer (n : Int)
  /-- A number with a fraction or an exponent, as written. -/
  | float (written : String)
  /-- A date, a time or both, as written. -/
  | dateTime (written : String)
  | array (items : List Value)
  | table (kind : TableKind) (entries : List (String × Value))
  /-- An array whose tables have a header each. -/
  | tables (items : List (List (String × Value)))
  deriving Inhabited

abbrev Entries := List (String × Value)

/-- Change the last item. There has to be one. -/
def changeLast {α : Type} (f : α → Option α) : List α → Option (List α)
  | [] => none
  | [a] => (f a).map ([·])
  | a :: b :: rest => (changeLast f (b :: rest)).map (a :: ·)

namespace Entries

/-- Set a key at the end of a dotted path. Within `here` says whether keys may be put right into
the table itself: not into one that a header has implied or closed. -/
def assign (key : String) (v : Value) (here : Bool) : List String → Entries → Option Entries
  | [], es =>
    if here && (Assoc.find? key es).isNone then some (es ++ [(key, v)]) else none
  | k :: path, es =>
    match Assoc.find? k es with
    | none => (assign key v true path []).map fun t => es ++ [(k, .table .dotted t)]
    | some (.table .implied t) =>
      (assign key v false path t).map fun t' => Assoc.put k (.table .implied t') es
    | some (.table .dotted t) =>
      (assign key v true path t).map fun t' => Assoc.put k (.table .dotted t') es
    | some (.tables ts) =>
      (changeLast (assign key v false path) ts).map fun ts' => Assoc.put k (.tables ts') es
    | some _ => none

/-- Follow the path of a header, making implied tables where there is none, and change the table
that it leads to. Of an array of tables the path enters the last. -/
def change (f : Entries → Option Entries) : List String → Entries → Option Entries
  | [], es => f es
  | k :: path, es =>
    match Assoc.find? k es with
    | none => (change f path []).map fun t => es ++ [(k, .table .implied t)]
    | some (.table .closed _) => none
    | some (.table kind t) => (change f path t).map fun t' => Assoc.put k (.table kind t') es
    | some (.tables ts) =>
      (changeLast (change f path) ts).map fun ts' => Assoc.put k (.tables ts') es
    | some _ => none

/-- Introduce a table by its header: a new one, or one that so far was only implied. -/
def openTable (key : String) (es : Entries) : Option Entries :=
  match Assoc.find? key es with
  | none => some (es ++ [(key, .table .headed [])])
  | some (.table .implied t) => some (Assoc.put key (.table .headed t) es)
  | some _ => none

/-- Introduce the next table of an array of tables. -/
def openItem (key : String) (es : Entries) : Option Entries :=
  match Assoc.find? key es with
  | none => some (es ++ [(key, .tables [[]])])
  | some (.tables ts) => some (Assoc.put key (.tables (ts ++ [[]])) es)
  | some _ => none

end Entries

/-! ## Documents -/

structure KeyPath where
  path : List String
  last : String

inductive Statement where
  /-- A header in single brackets. -/
  | table (k : KeyPath)
  /-- A header in double brackets. -/
  | item (k : KeyPath)
  | entry (k : KeyPath) (v : Value)

/-- A document in the making: what was written so far, and the table that keys go to. -/
structure Draft where
  entries : Entries := []
  current : List String := []

/-- Add a statement; it may contradict what stands before it. -/
def Draft.add? (d : Draft) : Statement → Option Draft
  | .table k => do
    let es ← Entries.change (Entries.openTable k.last) k.path d.entries
    return { entries := es, current := k.path ++ [k.last] }
  | .item k => do
    let es ← Entries.change (Entries.openItem k.last) k.path d.entries
    return { entries := es, current := k.path ++ [k.last] }
  | .entry k v => do
    let es ← Entries.change (Entries.assign k.last v true k.path) d.current d.entries
    return { d with entries := es }

def Entries.ofStatements? (l : List Statement) : Option Entries :=
  (l.foldlM Draft.add? {}).map Draft.entries

end Startup.Toml
