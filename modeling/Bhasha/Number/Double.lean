namespace Bhasha.Number

def pow2 (n : Nat) : Nat :=
  Nat.pow 2 n

def pow10 (n : Nat) : Nat :=
  Nat.pow 10 n

/-- The leading bit of a mantissa, which the bits of a double leave out. -/
def leadingBit : Nat := 0x10000000000000

def signBit : Nat := 0x8000000000000000

/-- A double taken apart: `±m · 2^e`, or one of the values outside the reals. -/
inductive Parts
  | nan
  | infinite (negative : Bool)
  | finite (negative : Bool) (m : Nat) (e : Int)
deriving DecidableEq

def parts (x : Float) : Parts :=
  let b := x.toBits.toNat
  let negative := decide (signBit ≤ b)
  let e : Nat := b / leadingBit % 0x800
  let f : Nat := b % leadingBit
  if e = 2047 then if f = 0 then .infinite negative else .nan
  else if e = 0 then .finite negative f (-1074)
  else .finite negative (f + leadingBit) ((e : Int) - 1075)

/-- `m · 2^e` as a fraction. -/
def fraction (m : Nat) (e : Int) : Nat × Nat :=
  if 0 ≤ e then (m * pow2 e.toNat, 1) else (m, pow2 (-e).toNat)

/-- The integer nearest to `num / den`, a half going to the even neighbour. -/
def roundDiv (num den : Nat) : Nat :=
  let q := num / den
  let r := num % den
  if den < 2 * r || (2 * r == den && q % 2 == 1) then q + 1 else q

/-- The exponent of the last place when `num / den` is written with 53 binary digits, or fewer
below the normal range. -/
def lastPlace (num den : Nat) : Int :=
  let k : Int := (num.log2 : Int) - den.log2
  let below := if 0 ≤ k then num < den * pow2 k.toNat else num * pow2 (-k).toNat < den
  max (if below then k - 53 else k - 52) (-1074)

/-- The bits of the double nearest to `num / den`; from `infiniteBits` on it lies past the range. -/
def magnitudeBits (num den : Nat) : Nat :=
  if num = 0 then 0 else
  let e := lastPlace num den
  let m := if 0 ≤ e then roundDiv num (den * pow2 e.toNat) else roundDiv (num * pow2 (-e).toNat) den
  (e + 1074).toNat * leadingBit + m

def infiniteBits : Nat := 0x7ff0000000000000

def ofBits (negative : Bool) (magnitude : Nat) : Float :=
  Float.ofBits (UInt64.ofNat (magnitude + if negative then signBit else 0))

def infinity (negative : Bool) : Float :=
  ofBits negative infiniteBits

def nan : Float :=
  ofBits false (infiniteBits + 0x8000000000000)

/-- The double nearest to `±num / den`, if that is in range. -/
def ofFraction? (negative : Bool) (num den : Nat) : Option Float :=
  let b := magnitudeBits num den
  if b < infiniteBits then some (ofBits negative b) else none

def ofInt? (n : Int) : Option Float :=
  ofFraction? (n < 0) n.natAbs 1

/-- The quotient of two integers, rounded once. -/
def intQuotient? (a b : Int) : Option Float :=
  ofFraction? (decide (a < 0) != decide (b < 0)) a.natAbs b.natAbs

/-- `±m · 10^e`, with what is too large going to infinity. -/
def ofDecimal (negative : Bool) (m : Nat) (e : Int) : Float :=
  let size : Int := (Nat.toDigits 10 m).length + e
  if m = 0 || size < -330 then ofBits negative 0
  else if 330 < size then infinity negative
  else if 0 ≤ e then (ofFraction? negative (m * pow10 e.toNat) 1).getD (infinity negative)
  else (ofFraction? negative m (pow10 (-e).toNat)).getD (infinity negative)

def isNaN (x : Float) : Bool :=
  parts x == .nan

/-- The integer part, for a finite double. -/
def truncate? (x : Float) : Option Int :=
  match parts x with
  | .finite negative m e =>
    let (num, den) := fraction m e
    some (if negative then -(num / den : Nat) else (num / den : Nat))
  | _ => none

/-- Exact comparison of an integer with a double. -/
def compareInt (n : Int) (x : Float) : Option Ordering :=
  match parts x with
  | .nan => none
  | .infinite negative => some (if negative then .gt else .lt)
  | .finite negative m e =>
    let (num, den) := fraction m e
    some (compare (n * den) (if negative then -(num : Int) else num))

def compareDouble (x y : Float) : Option Ordering :=
  if x < y then some .lt else if y < x then some .gt else if x == y then some .eq else none

/-- The remainder of a truncated division, exact, with the sign of `x`. -/
def truncatedMod (x y : Float) : Float :=
  match parts x, parts y with
  | .finite negative m e, .finite _ n f =>
    if n = 0 then nan else
    let g := min e f
    let r := (m * pow2 (e - g).toNat) % (n * pow2 (f - g).toNat)
    let (num, den) := fraction r g
    (ofFraction? negative num den).getD nan
  | .finite _ _ _, .infinite _ => x
  | _, _ => nan

/-- The remainder with the sign of `y`. -/
def flooredMod (x y : Float) : Float :=
  let r := truncatedMod x y
  if r == 0 then (match parts y with
    | .infinite negative | .finite negative _ _ => ofBits negative 0
    | .nan => r)
  else if isNaN r then r
  else if (y < 0) != (r < 0) then r + y
  else r

end Bhasha.Number
