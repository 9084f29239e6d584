import Startup.Toml.Text

/-!
Numbers. Underscores may stand between digits. Integers have to fit into 64 bits; a float is kept
as written, but a positive one beyond the largest double is refused.
-/

namespace Startup.Toml

open Startup.Toml.Parser

/-- Further digits, each perhaps after an underscore. -/
def moreDigits (p : Char → Bool) : Parser (List Char) :=
  many do
    skip (just '_')
    char p

def digits (p : Char → Bool) : Parser (List Char) := do
  let c ← char p
  let cs ← moreDigits p
  return c :: cs

def ofDigits (base : Nat) (cs : List Char) : Nat :=
  cs.foldl (fun n c => base * n + (hexValue? c).getD 0) 0

/-- A sign; `true` stands for a minus. -/
def sign : Parser Bool := do
  let c ← optional (char fun c => c == '+' || c == '-')
  return c == some '-'

/-- Decimal digits that begin with a zero only if that is all. -/
def plainDigits : Parser (List Char) :=
  (do
    let c ← char fun c => '1' ≤ c && c ≤ '9'
    let cs ← moreDigits Char.isDigit
    return c :: cs) <|> (do
    let c ← char (· == '0')
    return [c])

def inRange (n : Int) : Parser Int :=
  if Int64.minValue.toInt ≤ n ∧ n ≤ Int64.maxValue.toInt then pure n else failure

/-- Digits of a base, announced by a letter after a zero. -/
def based (letter : Char) (base : Nat) (p : Char → Bool) : Parser Int := do
  exactly ['0', letter]
  inRange (ofDigits base (← digits p))

def decimal : Parser Int := do
  let negative ← sign
  let n : Int := ofDigits 10 (← plainDigits)
  inRange (if negative then -n else n)

def integer : Parser Int :=
  based 'x' 16 (fun c => (hexValue? c).isSome) <|> based 'o' 8 (fun c => '0' ≤ c && c ≤ '7') <|>
    based 'b' 2 (fun c => c == '0' || c == '1') <|> decimal

/-! ## Floats -/

/-- A fraction: the digits after the point. -/
def fraction : Parser (List Char) := do
  just '.'
  digits Char.isDigit

def exponent : Parser Int := do
  let _ ← char fun c => c == 'e' || c == 'E'
  let negative ← sign
  let n : Int := ofDigits 10 (← digits Char.isDigit)
  return if negative then -n else n

/-- Whether `m · 10^e` is beyond the largest double, that is, at least half a unit of the last
place above it. Numbers of more than 309 places before the point are, those of fewer are not. -/
def exceedsDouble (m : Nat) (e : Int) : Bool :=
  let places : Int := (Nat.toDigits 10 m).length + e
  let limit := (Nat.pow 2 54 - 1) * Nat.pow 2 970
  if m = 0 ∨ places < 309 then false
  else if 309 < places then true
  else if 0 ≤ e then limit ≤ m * Nat.pow 10 e.toNat
  else limit * Nat.pow 10 (-e).toNat ≤ m

/-- A number with a fraction, an exponent or both. -/
def fractional : Parser Unit := do
  let negative ← sign
  let whole ← plainDigits
  let (places, e) ← (do
      let places ← fraction
      let e ← optional exponent
      return (places, e.getD 0)) <|> (do
      let e ← exponent
      return ([], e))
  let m := ofDigits 10 (whole ++ places)
  if !negative && exceedsDouble m (e - places.length) then failure else return ()

def special : Parser Unit := do
  let _ ← sign
  exactly ['i', 'n', 'f'] <|> exactly ['n', 'a', 'n']

def float : Parser String := do
  let cs ← written (fractional <|> special)
  return String.ofList cs

end Startup.Toml
