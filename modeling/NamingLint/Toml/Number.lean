import NamingLint.Toml.Scan
import NamingLint.Toml.Value

/-! Numbers and dates of a TOML document. -/

namespace NamingLint.Toml

open Scan

def isDigit (c : Char) : Bool := decide ('0' ≤ c) && decide (c ≤ '9')

def isOctal (c : Char) : Bool := decide ('0' ≤ c) && decide (c ≤ '7')

def isBinary (c : Char) : Bool := c == '0' || c == '1'

def isHex (c : Char) : Bool :=
  isDigit c || (decide ('a' ≤ c) && decide (c ≤ 'f')) || (decide ('A' ≤ c) && decide (c ≤ 'F'))

def digitRun (test : Char → Bool) : Scan (List Char) := do
  return (← separated '_' (do
    match ← takeWhile test with
    | [] => failure
    | digits => return digits)).flatten

def digitValue (c : Char) : Nat :=
  if isDigit c then c.toNat - '0'.toNat
  else if 'a' ≤ c then c.toNat - 'a'.toNat + 10 else c.toNat - 'A'.toNat + 10

def natOfDigits (base : Nat) (digits : List Char) : Nat :=
  digits.foldl (fun n c => base * n + digitValue c) 0

def sign : Scan Bool := do
  match ← peek? with
  | some '+' => char '+'; return false
  | some '-' => char '-'; return true
  | _ => return false

/-- Decimal digits of which only a lone one may be zero at the front. -/
def wholeDigits : Scan (List Char) := do
  if (← peek?) = some '0' then
    char '0'
    return ['0']
  else digitRun isDigit

def int64? (n : Int) : Option Int :=
  if -Int.pow 2 63 ≤ n ∧ n < Int.pow 2 63 then some n else none

def radixInteger (mark : Char) (base : Nat) (test : Char → Bool) : Scan Value := do
  literal ['0', mark]
  let n := natOfDigits base (← digitRun test)
  match int64? n with
  | some n => return .integer n
  | none => failure

def decimalInteger : Scan Value := do
  let negative ← sign
  let n := natOfDigits 10 (← wholeDigits)
  match int64? (if negative then -n else n) with
  | some n => return .integer n
  | none => failure

def integer : Scan Value :=
  radixInteger 'x' 16 isHex <|> radixInteger 'o' 8 isOctal <|> radixInteger 'b' 2 isBinary
    <|> decimalInteger

def fraction : Scan (List Char) := do
  char '.'
  digitRun isDigit

def exponent : Scan Int := do
  char 'e' <|> char 'E'
  let negative ← sign
  let n := natOfDigits 10 (← digitRun isDigit)
  return if negative then -n else n

/-- A number with a fraction, an exponent or both. One too large is refused. -/
def decimalFloat : Scan Value := do
  let negative ← sign
  let whole ← wholeDigits
  let digits ← maybe fraction
  let power ← if digits.isSome then maybe exponent else some <$> exponent
  let places := digits.getD []
  let value := Float64.ofDecimal negative (natOfDigits 10 (whole ++ places))
    (power.getD 0 - places.length)
  if value = .infinite false then failure else return .float value

def specialFloat : Scan Value := do
  let negative ← sign
  (do literal "inf".toList; return .float (.infinite negative))
    <|> (do literal "nan".toList; return .float .notANumber)

def fixedDigits (count low high : Nat) : Scan Nat :=
  ofList fun cs =>
    let digits := cs.take count
    let n := natOfDigits 10 digits
    if digits.length = count ∧ digits.all isDigit ∧ low ≤ n ∧ n ≤ high then some (n, cs.drop count)
    else none

def padded (width n : Nat) : String :=
  let digits := Nat.toDigits 10 n
  String.ofList (List.replicate (width - digits.length) '0' ++ digits)

def isLeapYear (year : Nat) : Bool := year % 4 == 0 && (year % 100 != 0 || year % 400 == 0)

def daysInMonth (year month : Nat) : Nat :=
  if month = 2 then if isLeapYear year then 29 else 28
  else if month ∈ [4, 6, 9, 11] then 30 else 31

def date : Scan String := do
  let year ← fixedDigits 4 0 9999
  char '-'
  let month ← fixedDigits 2 1 12
  char '-'
  let day ← fixedDigits 2 1 (daysInMonth year month)
  return padded 4 year ++ "-" ++ padded 2 month ++ "-" ++ padded 2 day

/-- Fractions of a second up to nine places, without zeros at the end. -/
def subsecond : Scan String := do
  char '.'
  match ← takeWhile isDigit with
  | [] => failure
  | digits =>
    let kept := ((digits.take 9).reverse.dropWhile (· == '0')).reverse
    return if kept.isEmpty then "" else "." ++ String.ofList kept

def time : Scan String := do
  let hour ← fixedDigits 2 0 23
  char ':'
  let minute ← fixedDigits 2 0 59
  char ':'
  let second ← fixedDigits 2 0 60
  let fraction ← maybe subsecond
  return padded 2 hour ++ ":" ++ padded 2 minute ++ ":" ++ padded 2 second ++ fraction.getD ""

/-- The distance from universal time. A distance of nothing has no minus. -/
def timeOffset : Scan String :=
  (do char 'Z' <|> char 'z'; return "Z") <|> do
    let negative ← (do char '+'; return false) <|> (do char '-'; return true)
    let hour ← fixedDigits 2 0 23
    char ':'
    let minute ← fixedDigits 2 0 59
    return (if negative && hour + minute != 0 then "-" else "+") ++ padded 2 hour ++ ":" ++ padded 2 minute

def datetime : Scan Value :=
  (do
    let day ← date
    let rest ← maybe do
      char 'T' <|> char 't' <|> char ' '
      let time ← time
      return "T" ++ time ++ (← maybe timeOffset).getD ""
    return .datetime (day ++ rest.getD "")) <|> do return .datetime (← time)

def numeral : Scan Value := datetime <|> decimalFloat <|> specialFloat <|> integer

end NamingLint.Toml
