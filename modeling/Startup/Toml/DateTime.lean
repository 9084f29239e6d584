import Startup.Toml.Text

/-!
Dates and times of the Gregorian calendar. A date may stand alone, a time may stand alone, and
both together may have an offset. A value is kept as written; what is checked is that there is
such a date and such a time. A minute may have 61 seconds.
-/

namespace Startup.Toml

open Startup.Toml.Parser

/-- A number of exactly `n` digits. -/
def fixedDigits : Nat → Nat → Parser Nat
  | 0, acc => pure acc
  | n + 1, acc => do
    let c ← char Char.isDigit
    fixedDigits n (10 * acc + (c.toNat - '0'.toNat))

/-- A number of two digits between two bounds. -/
def twoDigits (low high : Nat) : Parser Nat := do
  let n ← fixedDigits 2 0
  if low ≤ n ∧ n ≤ high then return n else failure

def isLeapYear (y : Nat) : Bool := y % 4 == 0 && (y % 100 != 0 || y % 400 == 0)

def daysInMonth (y m : Nat) : Nat :=
  if m = 2 then if isLeapYear y then 29 else 28
  else if m = 4 ∨ m = 6 ∨ m = 9 ∨ m = 11 then 30
  else 31

def date : Parser Unit := do
  let y ← fixedDigits 4 0
  just '-'
  let m ← twoDigits 1 12
  just '-'
  let _ ← twoDigits 1 (daysInMonth y m)

def time : Parser Unit := do
  let _ ← twoDigits 0 23
  just ':'
  let _ ← twoDigits 0 59
  just ':'
  let _ ← twoDigits 0 60
  skip do
    just '.'
    span1 Char.isDigit

def offset : Parser Unit :=
  (do let _ ← char fun c => c == 'Z' || c == 'z') <|> do
    let _ ← char fun c => c == '+' || c == '-'
    let _ ← twoDigits 0 23
    just ':'
    let _ ← twoDigits 0 59

/-- A date and perhaps a time, or a time. -/
def dateTime : Parser String := do
  let cs ← written <|
    (do
      date
      skip do
        let _ ← char fun c => c == 'T' || c == 't' || c == ' '
        time
        skip offset) <|> time
  return String.ofList cs

end Startup.Toml
