/-!
Binary floating-point numbers of 64 bits, with a mantissa of 53 bits, as a sign, a mantissa and a
binary exponent. All arithmetic is exact arithmetic on whole numbers followed by one rounding to
the nearest number, a half going to the even mantissa.
-/

namespace ClusterBlueprint.Json

/-- A finite number `±mantissa · 2^exponent`. The operations of this module produce mantissas below
`2^53` and exponents from `-1074` to `971`; a mantissa below `2^52` occurs at the least exponent
only, so that every value has one form. -/
structure Double where
  negative : Bool
  mantissa : Nat
  exponent : Int
deriving DecidableEq, Repr

namespace Double

def mantissaBound : Nat := 0x20000000000000

def leastNormal : Nat := 0x10000000000000

def leastExponent : Int := -1074

def greatestExponent : Int := 971

def zero (negative : Bool) : Double := ⟨negative, 0, leastExponent⟩

/-- The whole number nearest to `num / den`; a half goes to the even neighbour. -/
def nearestWhole (num den : Nat) : Nat :=
  let quotient := num / den
  let rest := num % den
  if 2 * rest < den || (2 * rest == den && quotient % 2 == 0) then quotient else quotient + 1

def descale (exponent : Int) (num den : Nat) : Nat × Nat :=
  (num * Nat.pow 2 (-exponent).toNat, den * Nat.pow 2 exponent.toNat)

/-- The exponent at which `num / den` has a mantissa of 53 bits, or the least one. -/
def fittingExponent (num den : Nat) : Int :=
  let guess : Int := Nat.log2 num - Nat.log2 den - 53
  let (n, d) := descale guess num den
  max leastExponent (if n / d < mantissaBound then guess else guess + 1)

/-- The number nearest to `num / den`, unless its magnitude is too great. -/
def ofRatio (negative : Bool) (num den : Nat) : Option Double :=
  if num = 0 then some (zero negative)
  else
    let exponent := fittingExponent num den
    let (n, d) := descale exponent num den
    let mantissa := nearestWhole n d
    let (mantissa, exponent) :=
      if mantissa = mantissaBound then (leastNormal, exponent + 1) else (mantissa, exponent)
    if exponent ≤ greatestExponent then some ⟨negative, mantissa, exponent⟩ else none

def ratio (x : Double) : Nat × Nat :=
  descale (-x.exponent) x.mantissa 1

def mulMagnitude (x y : Double) : Option Double :=
  ofRatio false (x.ratio.1 * y.ratio.1) (x.ratio.2 * y.ratio.2)

def divMagnitude (x y : Double) : Option Double :=
  ofRatio false (x.ratio.1 * y.ratio.2) (x.ratio.2 * y.ratio.1)

def tenTo (power : Nat) : Option Double :=
  ofRatio false (Nat.pow 10 power) 1

def greatestPower : Nat := 308

/-- Divides a magnitude by the greatest power, each quotient rounded, until the steps are used up or
nothing is left. -/
def divGreatest (x : Double) : Nat → Option Double
  | 0 => some x
  | steps + 1 =>
      if x.mantissa = 0 then some x
      else ((tenTo greatestPower).bind x.divMagnitude).bind fun y => divGreatest y steps

def divTen (x : Double) (power : Nat) : Option Double :=
  let steps := (power - 1) / greatestPower
  (x.divGreatest steps).bind fun y => (tenTo (power - steps * greatestPower)).bind y.divMagnitude

def mulTen (x : Double) (power : Nat) : Option Double :=
  if power ≤ greatestPower then (tenTo power).bind x.mulMagnitude
  else if x.mantissa = 0 then some x
  else none

/-- The number that a decimal `±significand · 10^exponent` is read as: the significand is rounded
first and the scaling after it, so the result need not be the nearest number. `none` says that the
magnitude is too great. -/
def ofDecimal (negative : Bool) (significand : Nat) (exponent : Int) : Option Double :=
  let scaled := (ofRatio false significand 1).bind fun x =>
    if 0 ≤ exponent then x.mulTen exponent.toNat else x.divTen (-exponent).toNat
  scaled.map fun x => { x with negative }

/-- Whether two numbers have the same value; the two zeros have. -/
def sameValue (x y : Double) : Bool :=
  x == y || (x.mantissa == 0 && y.mantissa == 0)

end Double

end ClusterBlueprint.Json
