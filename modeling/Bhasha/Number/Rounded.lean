import Bhasha.Number.Shortest

namespace Bhasha.Number

inductive DigitStyle
  /-- A number of digits behind the point. -/
  | fixed
  /-- One digit before the point and an exponent. -/
  | exponent
  /-- Whichever is shorter, without zeros at the end. -/
  | general
deriving DecidableEq

/-- Digits before and behind the point. A bare point stays only if `keepPoint`. -/
def pointed (whole part : List Char) (keepPoint : Bool) : List Char :=
  whole ++ if part.isEmpty then (if keepPoint then ['.'] else []) else '.' :: part

def fixedDigits (num den places : Nat) : List Char × List Char :=
  let ds := natDigits (roundDiv (num * pow10 places) den)
  let ds := List.replicate (places + 1 - ds.length) '0' ++ ds
  (ds.take (ds.length - places), ds.drop (ds.length - places))

/-- The first `count` digits of `num/den`, and the power of ten that the first one stands for. -/
def significantDigits (num den count : Nat) : List Char × Int :=
  if num = 0 then (List.replicate count '0', 0) else
  let size := decimalSize num den
  let k := size - count
  let n := if 0 ≤ k then roundDiv num (den * pow10 k.toNat)
    else roundDiv (num * pow10 (-k).toNat) den
  let ds := natDigits n
  if count < ds.length then (ds.take count, size) else (ds, size - 1)

def exponentText (e : Int) : List Char :=
  let ds := natDigits e.natAbs
  'e' :: (if e < 0 then '-' else '+') :: (if ds.length < 2 then '0' :: ds else ds)

def dropZeros (ds : List Char) : List Char :=
  (ds.reverse.dropWhile (· == '0')).reverse

/-- `num/den` in general notation: positional from `10^-4` up to `10^count`. -/
def generalText (num den count : Nat) (keepPoint : Bool) : List Char :=
  let (ds, e) := significantDigits num den count
  let trim := fun part => if keepPoint then part else dropZeros part
  if -4 ≤ e && e < count then
    if e < 0 then pointed ['0'] (trim (List.replicate (-e - 1).toNat '0' ++ ds)) keepPoint
    else pointed (ds.take (e.toNat + 1)) (trim (ds.drop (e.toNat + 1))) keepPoint
  else pointed (ds.take 1) (trim (ds.drop 1)) keepPoint ++ exponentText e

def roundedText (style : DigitStyle) (precision : Nat) (keepPoint : Bool) (num den : Nat) :
    List Char :=
  match style with
  | .fixed =>
    let (whole, part) := fixedDigits num den precision
    pointed whole part keepPoint
  | .exponent =>
    let (ds, e) := significantDigits num den (precision + 1)
    pointed (ds.take 1) (ds.drop 1) keepPoint ++ exponentText e
  | .general => generalText num den (max precision 1) keepPoint

def showRounded (style : DigitStyle) (precision : Nat) (keepPoint : Bool) (x : Float) : List Char :=
  let signed := fun (negative : Bool) cs => if negative then '-' :: cs else cs
  match parts x with
  | .nan => "nan".toList
  | .infinite negative => signed negative "inf".toList
  | .finite negative m e =>
    let (num, den) := fraction m e
    signed negative (roundedText style precision keepPoint num den)

end Bhasha.Number
