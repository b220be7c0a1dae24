namespace Restack.Decimal

-- The fewest decimal digits that still name one binary floating-point value,
-- found in exact natural-number arithmetic. Values are kept as bit patterns.

structure BinaryFormat where
  fraction : Nat
  exponent : Nat
  maxDigits : Nat

def single : BinaryFormat := ⟨23, 8, 9⟩

def double : BinaryFormat := ⟨52, 11, 17⟩

-- What a bit pattern stands for, its sign apart. A finite value is `m · 2^q`, and `narrowBelow`
-- tells whether the gap below it is half the gap above.
inductive Magnitude where
  | nan
  | infinite
  | zero
  | finite (m : Nat) (q : Int) (narrowBelow : Bool)

namespace BinaryFormat

def isNegative (f : BinaryFormat) (bits : Nat) : Bool := bits / Nat.pow 2 (f.fraction + f.exponent) % 2 = 1

def magnitude (f : BinaryFormat) (bits : Nat) : Magnitude :=
  let fraction := bits % Nat.pow 2 f.fraction
  let exponent := bits / Nat.pow 2 f.fraction % Nat.pow 2 f.exponent
  let shift : Int := (Nat.pow 2 (f.exponent - 1) - 2 : Nat) + (f.fraction : Nat)
  if exponent = Nat.pow 2 f.exponent - 1 then
    if fraction = 0 then .infinite else .nan
  else if exponent = 0 then
    if fraction = 0 then .zero else .finite fraction (-shift) false
  else
    .finite (fraction + Nat.pow 2 f.fraction) ((exponent : Int) - 1 - shift) (fraction = 0 && exponent > 1)

end BinaryFormat

structure Ratio where
  num : Nat
  den : Nat

namespace Ratio

def ofPow2 (m : Nat) (q : Int) : Ratio :=
  if 0 ≤ q then ⟨m * Nat.pow 2 q.toNat, 1⟩ else ⟨m, Nat.pow 2 (-q).toNat⟩

def scaleDown (r : Ratio) (t : Int) : Ratio :=
  if 0 ≤ t then ⟨r.num, r.den * Nat.pow 10 t.toNat⟩ else ⟨r.num * Nat.pow 10 (-t).toNat, r.den⟩

end Ratio

structure Digits where
  digits : List Char
  point : Int

def digitCount (n : Nat) : Nat := (Nat.toDigits 10 n).length

-- An exponent `k` with `10^(k-1) ≤ r < 10^k`, for a positive ratio. The first guess from the
-- digit counts is off by at most one.
def magnitudeOf (r : Ratio) : Int :=
  let guess : Int := (digitCount r.num : Int) - digitCount r.den
  let scaled := r.scaleDown guess
  if scaled.num < scaled.den then guess else guess + 1

def trimZeros (digits : List Char) : List Char :=
  (digits.reverse.dropWhile (· = '0')).reverse

def digitsOfSteps (steps : Nat) (t : Int) : Digits :=
  let digits := Nat.toDigits 10 steps
  ⟨trimZeros digits, digits.length + t⟩

-- The interval of reals that round to a value: everything is kept in units of a quarter step,
-- and the ends belong to it when the value's last bit is even.
structure Interval where
  value : Nat
  below : Nat
  above : Nat
  closed : Bool

def Interval.ofFinite (m : Nat) (narrowBelow : Bool) : Interval :=
  ⟨4 * m, if narrowBelow then 1 else 2, 2, m % 2 = 0⟩

def Interval.contains (i : Interval) (q : Int) (t : Int) (steps : Nat) : Bool :=
  let low := (Ratio.ofPow2 (i.value - i.below) (q - 2)).scaleDown t
  let high := (Ratio.ofPow2 (i.value + i.above) (q - 2)).scaleDown t
  if i.closed then low.num ≤ steps * low.den && steps * high.den ≤ high.num
  else low.num < steps * low.den && steps * high.den < high.num

-- The better of the two neighbours of the value on the grid `10^t`, if one rounds to it.
-- A tie goes to the larger.
def neighbour? (i : Interval) (q : Int) (t : Int) : Option Nat :=
  let value := (Ratio.ofPow2 i.value (q - 2)).scaleDown t
  let lower := value.num / value.den
  let upper := lower + 1
  match i.contains q t lower && lower > 0, i.contains q t upper with
  | true, true => if 2 * (value.num % value.den) < value.den then some lower else some upper
  | true, false => some lower
  | false, true => some upper
  | false, false => none

def shortest (f : BinaryFormat) (m : Nat) (q : Int) (narrowBelow : Bool) : Digits :=
  let interval := Interval.ofFinite m narrowBelow
  let top := magnitudeOf (Ratio.ofPow2 m q)
  let found := (List.range f.maxDigits).findSome? fun n =>
    let t := top - ((n + 1 : Nat) : Int)
    (neighbour? interval q t).map fun steps => digitsOfSteps steps t
  found.getD ⟨['0'], 1⟩

end Restack.Decimal
