/-! Double-precision numbers, written with the fewest digits that read back as the same number.

A finite number is a whole mantissa below two to the power of 53 times a power of two. -/

namespace NamingLint.Toml

inductive Float64 where
  | finite (negative : Bool) (mantissa : Nat) (exponent : Int)
  | infinite (negative : Bool)
  | notANumber
  deriving DecidableEq, Repr

namespace Float64

structure Ratio where
  num : Nat
  den : Nat
  deriving DecidableEq, Repr

namespace Ratio

def scaled (n base : Nat) (e : Int) : Ratio :=
  if 0 ≤ e then ⟨n * base.pow e.toNat, 1⟩ else ⟨n, base.pow (-e).toNat⟩

def mulPow (r : Ratio) (base : Nat) (e : Int) : Ratio :=
  if 0 ≤ e then ⟨r.num * base.pow e.toNat, r.den⟩ else ⟨r.num, r.den * base.pow (-e).toNat⟩

def floor (r : Ratio) : Nat := r.num / r.den

/-- The nearest whole number, the even one of two. -/
def round (r : Ratio) : Nat :=
  let q := r.num / r.den
  let twice := 2 * (r.num % r.den)
  if twice < r.den then q else if r.den < twice then q + 1 else if q % 2 = 0 then q else q + 1

def distance (r : Ratio) (n : Nat) : Nat := (r.num - n * r.den) + (n * r.den - r.num)

end Ratio

def leastExponent : Int := -1074

def greatestExponent : Int := 971

/-- The exponent that gives a fraction a mantissa of 53 bits, or the least exponent. -/
def exponentOf (r : Ratio) : Int :=
  let guess : Int := (Nat.log2 r.num : Int) - (Nat.log2 r.den : Int) - 52
  let exponent := if (r.mulPow 2 (-guess)).floor < Nat.pow 2 52 then guess - 1 else guess
  max exponent leastExponent

def ofRatio (negative : Bool) (r : Ratio) : Float64 :=
  if r.num = 0 then .finite negative 0 leastExponent
  else
    let exponent := exponentOf r
    let mantissa := (r.mulPow 2 (-exponent)).round
    let (mantissa, exponent) :=
      if mantissa = Nat.pow 2 53 then (Nat.pow 2 52, exponent + 1) else (mantissa, exponent)
    if greatestExponent < exponent then .infinite negative else .finite negative mantissa exponent

def digitCount (n : Nat) : Nat := (Nat.toDigits 10 n).length

/-- The number nearest to `digits * 10 ^ scale`. Powers far out of range are not computed. -/
def ofDecimal (negative : Bool) (digits : Nat) (scale : Int) : Float64 :=
  let magnitude := (digitCount digits : Int) + scale
  if digits = 0 ∨ magnitude < -400 then .finite negative 0 leastExponent
  else if 400 < magnitude then .infinite negative
  else ofRatio negative (.scaled digits 10 scale)

def decimalExponent (r : Ratio) : Int :=
  let guess : Int := (digitCount r.num : Int) - (digitCount r.den : Int)
  if 1 ≤ (r.mulPow 10 (-guess)).floor then guess + 1 else guess

def candidate? (x : Float64) (r : Ratio) (top : Int) (count : Nat) : Option (Nat × Int) :=
  let scale := top - count
  let shifted := r.mulPow 10 (-scale)
  let below := shifted.floor
  let reads (digits : Nat) : Bool := ofDecimal false digits scale == x
  match reads below, reads (below + 1) with
  | true, true =>
    if shifted.distance below ≤ shifted.distance (below + 1) then some (below, scale)
    else some (below + 1, scale)
  | true, false => some (below, scale)
  | false, true => some (below + 1, scale)
  | false, false => none

/-- Digits and scale of a positive finite number, with as few digits as read back. Seventeen always
do. -/
def shortest (mantissa : Nat) (exponent : Int) : Nat × Int :=
  let r := Ratio.scaled mantissa 2 exponent
  let found := (List.range 17).findSome? fun i =>
    candidate? (.finite false mantissa exponent) r (decimalExponent r) (i + 1)
  found.getD (0, 0)

def positional (digits : Nat) (scale : Int) : String :=
  let text := Nat.toDigits 10 digits
  if 0 ≤ scale then String.ofList (text ++ List.replicate scale.toNat '0') ++ ".0"
  else
    let places := (-scale).toNat
    let padded := List.replicate (places + 1 - text.length) '0' ++ text
    let whole := padded.length - places
    let fraction := ((padded.drop whole).reverse.dropWhile (· == '0')).reverse
    String.ofList (padded.take whole) ++ "."
      ++ (if fraction.isEmpty then "0" else String.ofList fraction)

def render : Float64 → String
  | .notANumber => "NaN"
  | .infinite negative => (if negative then "-" else "") ++ "inf"
  | .finite negative mantissa exponent =>
    let (digits, scale) := if mantissa = 0 then (0, 0) else shortest mantissa exponent
    (if negative then "-" else "") ++ positional digits scale

end Float64

end NamingLint.Toml
