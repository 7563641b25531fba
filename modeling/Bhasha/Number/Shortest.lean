import Bhasha.Number.Double

namespace Bhasha.Number

/-- Decimal digits and the place of the point: `0.d₁d₂… · 10^point`. -/
structure Decimal where
  digits : List Char
  point : Int
deriving DecidableEq

def natDigits (n : Nat) : List Char :=
  Nat.toDigits 10 n

/-- The power `k` with `10^(k-1) ≤ num/den < 10^k`, for a positive fraction. -/
def decimalSize (num den : Nat) : Int :=
  if den ≤ num then (natDigits (num / den)).length
  else
    -- `10^j · num/den` has about as many digits as the difference of lengths says
    let j := (natDigits den).length - (natDigits num).length
    if den ≤ num * pow10 j then 1 - (j : Int)
    else -(j : Int)

/-- `num/den` on the grid of `10^k`, rounded down. -/
def gridFloor (num den : Nat) (k : Int) : Nat :=
  if 0 ≤ k then num / (den * pow10 k.toNat) else num * pow10 (-k).toNat / den

/-- `d · 10^k` as a fraction. -/
def gridPoint (d : Nat) (k : Int) : Nat × Nat :=
  if 0 ≤ k then (d * pow10 k.toNat, 1) else (d, pow10 (-k).toNat)

/-- The reals that read as one double; the ends belong to it when `closed`. -/
structure Reach where
  low : Nat × Nat
  high : Nat × Nat
  closed : Bool

/-- The reals nearer to `m · 2^e` than to its neighbours. Below a power of two the neighbour is
twice as near. -/
def reach (m : Nat) (e : Int) : Reach :=
  let narrow := m == leadingBit && e != -1074
  { low := fraction (4 * m - (if narrow then 1 else 2)) (e - 2)
    high := fraction (4 * m + 2) (e - 2)
    closed := m % 2 == 0 }

def Reach.has (r : Reach) (p : Nat × Nat) : Bool :=
  let below := r.low.1 * p.2
  let here := p.1 * r.low.2
  let here' := p.1 * r.high.2
  let above := r.high.1 * p.2
  if r.closed then below ≤ here && here' ≤ above else below < here && here' < above

/-- Is `p` nearer to `v` than `q` is, where `p ≤ v ≤ q`? A tie goes to the even digit `d` of `p`. -/
def nearerBelow (v p q : Nat × Nat) (d : Nat) : Bool :=
  let down := (v.1 * p.2 - p.1 * v.2) * q.2
  let up := (q.1 * v.2 - v.1 * q.2) * p.2
  down < up || (down == up && d % 2 == 0)

/-- The grid point of `count` digits that reads back as the double and is nearest to it. -/
def shortestOn (v : Nat × Nat) (r : Reach) (size : Int) (count : Nat) : Option (Nat × Int) :=
  let k := size - count
  let d := gridFloor v.1 v.2 k
  let p := gridPoint d k
  let q := gridPoint (d + 1) k
  match r.has p, r.has q with
  | true, true => some (if nearerBelow v p q d then d else d + 1, k)
  | true, false => some (d, k)
  | false, true => some (d + 1, k)
  | false, false => none

/-- The fewest digits that read back as `m · 2^e`. -/
def shortest (m : Nat) (e : Int) : Decimal :=
  let v := fraction m e
  let r := reach m e
  let size := decimalSize v.1 v.2
  match (List.range' 1 17).findSome? (shortestOn v r size) with
  | some (d, k) =>
    let ds := natDigits d
    { digits := (ds.reverse.dropWhile (· == '0')).reverse, point := ds.length + k }
  | none => { digits := ['0'], point := 1 }

/-- Scientific notation: one digit, the others behind a point, and an exponent of two places. -/
def scientific (ds : List Char) (exponent : Int) : List Char :=
  let e := natDigits exponent.natAbs
  let places := if e.length < 2 then '0' :: e else e
  let tail := match ds.drop 1 with
    | [] => []
    | r => '.' :: r
  ds.take 1 ++ tail ++ 'e' :: (if exponent < 0 then '-' else '+') :: places

/-- Positional notation, always with a digit behind the point. -/
def positional (d : Decimal) : List Char :=
  let n := d.digits.length
  if d.point ≤ 0 then '0' :: '.' :: List.replicate (-d.point).toNat '0' ++ d.digits
  else if n ≤ d.point.toNat then
    d.digits ++ List.replicate (d.point.toNat - n) '0' ++ ['.', '0']
  else d.digits.take d.point.toNat ++ '.' :: d.digits.drop d.point.toNat

/-- A double is written positionally from `10^-4` up to below `10^16`. -/
def showFinite (negative : Bool) (m : Nat) (e : Int) : List Char :=
  let body :=
    if m = 0 then ['0', '.', '0'] else
    let d := shortest m e
    if -4 < d.point && d.point ≤ 16 then positional d else scientific d.digits (d.point - 1)
  if negative then '-' :: body else body

def showDouble (x : Float) : String :=
  match parts x with
  | .nan => "nan"
  | .infinite negative => if negative then "-inf" else "inf"
  | .finite negative m e => String.ofList (showFinite negative m e)

end Bhasha.Number
