/-!
# Binary numbers as decimals

A finite binary number is written with the fewest digits that read back as the same number.

**Selecting digits** (`Binary.shortest?`). The reals that round to a number form an interval
around it, which contains its ends exactly if the number is even. On the grid of multiples of
`10 ^ e`, only the two points next to the number can be the nearest ones in the interval, so
trying one grid after the other, the coarsest first, finds the fewest digits; of two points on
one grid the nearer one is taken, and the even one of two equally near. All of this is
arithmetic on natural numbers.

**Laying digits out** (`layOut`). The number is written out in full if its point falls within
the first 16 places or the four before them, and otherwise with an exponent, which always has a
sign.
-/

namespace Guardedness

namespace Decimal

/-- `digits · 10 ^ exponent`. -/
structure Scaled where
  digits : Nat
  exponent : Int
deriving DecidableEq, Repr

/-- A positive binary number with the interval of reals that round to it, each as a fraction
over `den`. -/
structure Binary where
  low : Nat
  value : Nat
  high : Nat
  den : Nat
  /-- Whether the interval contains its ends. -/
  closed : Bool

/-- The finite positive number with the given bits, but for its sign. -/
def Binary.ofBits (bits : UInt64) : Binary :=
  let field := ((bits >>> 52) &&& 0x7ff).toNat
  let fraction := (bits &&& 0xfffffffffffff).toNat
  let m := if field = 0 then fraction else fraction + 1 <<< 52
  -- The number below a power of two is half as far away as the one above.
  let below := if fraction = 0 && field > 1 then 1 else 2
  let up := 1 <<< (field - 1077)
  let down := 1 <<< (1077 - max field 1)
  ⟨(4 * m - below) * up, 4 * m * up, (4 * m + 2) * up, down, m % 2 = 0⟩

namespace Binary

/-- Whether the fraction `n / d` rounds to the number. -/
def rounds (x : Binary) (n d : Nat) : Bool :=
  let l := x.low * d
  let h := x.high * d
  let v := n * x.den
  if x.closed then l ≤ v && v ≤ h else l < v && v < h

/-- The multiple of `n / d` that is nearest to the number among those that round to it. -/
def nearest? (x : Binary) (n d : Nat) : Option Nat :=
  let k := x.value * d / (x.den * n)
  let twice := 2 * x.value * d
  let middle := (2 * k + 1) * (x.den * n)
  let preferLow := twice < middle || (twice = middle && k % 2 = 0)
  match x.rounds (k * n) d, x.rounds ((k + 1) * n) d with
  | true, true => some (if preferLow then k else k + 1)
  | true, false => some k
  | false, true => some (k + 1)
  | false, false => none

/-- Try the grids from `10 ^ e` downwards, `count` of them. -/
def search (x : Binary) : (count : Nat) → (e : Int) → Option Scaled
  | 0, _ => none
  | count + 1, e =>
    match x.nearest? (10 ^ e.toNat) (10 ^ (-e).toNat) with
    | some k => some ⟨k, e⟩
    | none => x.search count (e - 1)

/-- The shortest decimal that rounds to the number. No finite number reaches `10 ^ 309`, and
the finest grid that is ever needed is that of `10 ^ -324`. -/
def shortest? (x : Binary) : Option Scaled := x.search 634 309

end Binary

/-- A decimal as text. -/
def layOut (x : Scaled) : String :=
  let ds := Nat.toDigits 10 x.digits
  let count : Int := ds.length
  let point := count + x.exponent
  let zeros (n : Int) : String := String.ofList (List.replicate n.toNat '0')
  let text (cs : List Char) : String := String.ofList cs
  if 0 ≤ x.exponent ∧ point ≤ 16 then text ds ++ zeros x.exponent ++ ".0"
  else if 0 < point ∧ point ≤ 16 then
    text (ds.take point.toNat) ++ "." ++ text (ds.drop point.toNat)
  else if -5 < point ∧ point ≤ 0 then "0." ++ zeros (-point) ++ text ds
  else
    let fraction := if ds.length = 1 then "" else "." ++ text (ds.drop 1)
    let sign := if point ≤ 0 then "-" else "+"
    text (ds.take 1) ++ fraction ++ "e" ++ sign ++ toString (point - 1).natAbs

/-- A finite number as text. -/
def render (x : Float) : String :=
  let bits := x.toBits
  let sign := if bits >>> 63 = 0 then "" else "-"
  if bits <<< 1 = 0 then sign ++ "0.0"
  else sign ++ (((Binary.ofBits bits).shortest?.map layOut).getD "")

end Decimal

end Guardedness
