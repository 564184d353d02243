import ClusterBlueprint.Json.Double

namespace ClusterBlueprint.Json

/-- A positive decimal: its digits, the first of them not zero, and the power of ten of the first
digit. -/
structure Decimal where
  digits : List Char
  exponent : Int
deriving DecidableEq, Repr

namespace Double

def digitCount (n : Nat) : Nat :=
  (Nat.toDigits 10 n).length

def leadingPower (num den : Nat) : Int :=
  if den ≤ num then digitCount (num / den) - 1
  else -(digitCount ((den + num - 1) / num - 1))

/-- The magnitude of a number and the two ends of the interval of the magnitudes that round to it,
in units of a quarter of its last bit. -/
structure Rounding where
  low : Nat
  value : Nat
  high : Nat
  closed : Bool

/-- The interval around a number. Below a power of two it is half as wide, and its ends belong to
it when the mantissa is even. -/
def rounding (x : Double) : Rounding :=
  let value := 4 * x.mantissa
  let low := if x.mantissa = leastNormal && leastExponent < x.exponent then value - 1 else value - 2
  ⟨low, value, value + 2, x.mantissa % 2 == 0⟩

/-- Whether the fraction `n / d` lies in the interval, whose ends are counted in units of
`scale / d`. -/
def Rounding.contains (r : Rounding) (scale n : Nat) : Bool :=
  if r.closed then r.low * scale ≤ n && n ≤ r.high * scale
  else r.low * scale < n && n < r.high * scale

/-- The multiple of `10^power` that is nearest to the number, of the two next to it, if it rounds
to the number; of two at the same distance the even one. -/
def onGrid (x : Double) (power : Int) : Option Nat :=
  let r := rounding x
  let (up, down) := descale (2 - x.exponent) 1 1
  let scale := up * Nat.pow 10 (-power).toNat
  let unit := down * Nat.pow 10 power.toNat
  let below := r.value * scale / unit
  let fits (n : Nat) : Bool := r.contains scale (n * unit)
  match fits below, fits (below + 1) with
  | true, true => some (nearestWhole (r.value * scale) unit)
  | true, false => some below
  | false, true => some (below + 1)
  | false, false => none

def trimZeros (digits : List Char) : List Char :=
  (digits.reverse.dropWhile (· == '0')).reverse

/-- Tries grids of `count`, `count + 1`, … digits. -/
def shortestFrom (x : Double) (leading : Int) (count : Nat) : Nat → Decimal
  | 0 => ⟨['0'], 0⟩
  | steps + 1 =>
      let power := leading - count + 1
      match onGrid x power with
      | some n =>
          let digits := Nat.toDigits 10 n
          ⟨trimZeros digits, power + digits.length - 1⟩
      | none => shortestFrom x leading (count + 1) steps

/-- The shortest decimal that rounds to a number other than zero; seventeen digits always
suffice. -/
def shortest (x : Double) : Decimal :=
  shortestFrom x (leadingPower x.ratio.1 x.ratio.2) 1 17

end Double

namespace Decimal

def isPositional (d : Decimal) : Bool :=
  -5 ≤ d.exponent && d.exponent ≤ 15

/-- The text with all digits at their places, and at least one after the point. -/
def positional (d : Decimal) : List Char :=
  if d.exponent < 0 then
    ['0', '.'] ++ List.replicate (-d.exponent - 1).toNat '0' ++ d.digits
  else
    let whole := d.exponent.toNat + 1
    if d.digits.length ≤ whole then
      d.digits ++ List.replicate (whole - d.digits.length) '0' ++ ['.', '0']
    else d.digits.take whole ++ ['.'] ++ d.digits.drop whole

/-- The text with one digit before the point and a signed power of ten. -/
def scientific (d : Decimal) : List Char :=
  let mantissa := match d.digits with
    | first :: second :: rest => first :: '.' :: second :: rest
    | digits => digits
  let sign := if d.exponent < 0 then '-' else '+'
  mantissa ++ ['e', sign] ++ Nat.toDigits 10 d.exponent.natAbs

end Decimal

def Double.render (x : Double) : List Char :=
  let sign := if x.negative then ['-'] else []
  if x.mantissa = 0 then sign ++ ['0', '.', '0']
  else
    let d := x.shortest
    sign ++ (if d.isPositional then d.positional else d.scientific)

end ClusterBlueprint.Json
