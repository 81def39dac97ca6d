import Retarget.Text.Digits

/-!
# Decimal text of binary fractions

A finite double is written with the fewest digits that read back as the same double, always
positionally. The doubles next to it leave an interval of reals that round to it; the text is the
multiple of the greatest power of ten in that interval, and of two such multiples the nearer one. Of
two equally near ones the greater is taken, before the sign is put in front.
-/

namespace Retarget.Decimal

/-- The reals that round to a positive double: `low` to `high` around `mid`, in units of
`2 ^ exponent`. The ends count if `closed`. -/
structure Interval where
  low : Nat
  mid : Nat
  high : Nat
  exponent : Int
  closed : Bool
  deriving Repr

/-- The interval of the positive double with the given exponent and fraction bits. -/
def Interval.ofBits (exponent fraction : Nat) : Interval :=
  let m := if exponent = 0 then fraction else fraction + 2 ^ (52 : Nat)
  let q : Int := if exponent = 0 then -1074 else exponent - 1075
  -- Below a power of two the neighbour is half as far away.
  let below := if fraction = 0 ∧ 1 < exponent then 1 else 2
  { low := 4 * m - below, mid := 4 * m, high := 4 * m + 2, exponent := q - 2,
    closed := m % 2 = 0 }

/-- The two factors of a power: what multiplies and what divides. -/
def powerParts (base : Nat) (e : Int) : Nat × Nat := (base ^ e.toNat, base ^ (-e).toNat)

/-- The multiple of `10 ^ k` in the interval that is nearest to its middle; of two the greater. -/
def Interval.multiple? (i : Interval) (k : Int) : Option Nat :=
  let (up, down) := powerParts 2 i.exponent
  let (unitUp, unitDown) := powerParts 10 k
  -- Everything is compared as multiples of `1 / (down * unitDown)`.
  let scale := up * unitDown
  let unit := unitUp * down
  let inside (d : Nat) : Bool :=
    if i.closed then i.low * scale ≤ d * unit && d * unit ≤ i.high * scale
    else i.low * scale < d * unit && d * unit < i.high * scale
  let floor := i.mid * scale / unit
  let lowHit := floor != 0 && inside floor
  let highHit := inside (floor + 1)
  if lowHit && highHit then
    if i.mid * scale - floor * unit < (floor + 1) * unit - i.mid * scale then some floor
    else some (floor + 1)
  else if lowHit then some floor
  else if highHit then some (floor + 1)
  else none

/-- The digits and the power of ten of the shortest text, searched downwards from `10 ^ k`. -/
def Interval.shortestFrom (i : Interval) (k : Int) : Nat → Nat × Int
  | 0 => (0, 0)
  | steps + 1 =>
    match i.multiple? k with
    | some d => (d, k)
    | none => i.shortestFrom (k - 1) steps

/-- The digits and the power of ten of the shortest text. -/
def Interval.shortest (i : Interval) : Nat × Int := i.shortestFrom 309 640

/-- The positional text of `d * 10 ^ k`. -/
def positional (d : Nat) (k : Int) : String :=
  let digits := Nat.toDigits 10 d
  if 0 ≤ k then String.ofList (digits ++ List.replicate k.toNat '0')
  else
    let places := (-k).toNat
    let padded := List.replicate (places + 1 - digits.length) '0' ++ digits
    let whole := padded.length - places
    String.ofList (padded.take whole ++ '.' :: padded.drop whole)

/-- The text of a double. -/
def text (f : Float) : String :=
  let bits := f.toBits.toNat
  let sign := if bits / 2 ^ (63 : Nat) = 1 then "-" else ""
  let exponent := bits / 2 ^ (52 : Nat) % 2 ^ (11 : Nat)
  let fraction := bits % 2 ^ (52 : Nat)
  if exponent = 2047 then if fraction = 0 then sign ++ "inf" else "NaN"
  else if exponent = 0 ∧ fraction = 0 then sign ++ "0"
  else
    let (d, k) := (Interval.ofBits exponent fraction).shortest
    sign ++ positional d k

end Retarget.Decimal
