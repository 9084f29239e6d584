/-!
What the library leaves open, and what it knows things by. The components of a container are
written by somebody else: their code, the values they carry and what they write into the journal
are types of the host. Definitions, instances and extensions hold pieces of code as data. What a
piece of code does when it is called is given apart from it, as a program over the library's
operations (`Behaviour`).

Objects have identities, components have names. Names are compared as texts, code point by code
point, which is also the order of their UTF-8 bytes. A name that is blank identifies nothing.
-/

namespace Startup

structure Host where
  /-- The code of factories, extensions and listeners. -/
  Code : Type
  /-- What an object carries. -/
  Value : Type
  /-- What a callback writes into the journal. -/
  Note : Type

/-- The identity of an object: two objects are the same if and only if their identities are. -/
abbrev ObjectId := Nat

namespace Text

/-- The Unicode property `White_Space`: 25 code points. -/
def isBlankChar (c : Char) : Bool :=
  let n := c.toNat
  (0x9 ≤ n && n ≤ 0xD) || n == 0x20 || n == 0x85 || n == 0xA0 || n == 0x1680 ||
    (0x2000 ≤ n && n ≤ 0x200A) || n == 0x2028 || n == 0x2029 || n == 0x202F || n == 0x205F ||
    n == 0x3000

/-- Trimming white space leaves nothing. -/
def isBlank (s : String) : Bool := s.toList.all isBlankChar

end Text

structure ComponentName where
  text : String
  deriving DecidableEq, Repr, Inhabited

namespace ComponentName

def le (a b : ComponentName) : Bool := decide (a.text ≤ b.text)

/-- Nothing is left of the name once white space is trimmed from both ends. -/
def isBlank (n : ComponentName) : Bool := Text.isBlank n.text

def sorted (l : List ComponentName) : List ComponentName := l.mergeSort le

def totalSize (l : List ComponentName) : Nat :=
  l.foldl (fun size n => size + n.text.utf8ByteSize) 0

end ComponentName

end Startup
