import Bhasha.Number.Double
import Bhasha.Text.Blank
import Bhasha.Text.Digit

namespace Bhasha.Number

open Bhasha.Text

/-- Integers of more digits are neither read nor written. -/
def digitLimit : Nat := 4300

/-- The smallest number that is too long to be written. -/
def unwritable : Nat :=
  pow10 digitLimit

/-- The number that a list of decimal digits of any scripts stands for. -/
def digitsValue (ds : List Char) : Nat :=
  ds.foldl (fun n c => 10 * n + (decimal? c).getD 0) 0

/-- Removes underscores that stand between two digits; any other one spoils the text. -/
def joinDigits : (afterDigit : Bool) → List Char → Option (List Char)
  | _, [] => some []
  | afterDigit, '_' :: cs =>
    match afterDigit, cs with
    | true, c :: _ => if isDecimal c then joinDigits false cs else none
    | _, _ => none
  | _, c :: cs => (joinDigits (isDecimal c) cs).map (c :: ·)

def readSign : List Char → Bool × List Char
  | '-' :: cs => (true, cs)
  | '+' :: cs => (false, cs)
  | cs => (false, cs)

inductive IntText
  | malformed
  | tooLong (digits : Nat)
  | value (n : Int)

/-- An integer in decimal: blanks around it, a sign, and underscores between digits are allowed. -/
def readInt (s : List Char) : IntText :=
  let (negative, body) := readSign (trimBy isNumberBlank s)
  match joinDigits false body with
  | some ds =>
    if ds.isEmpty || !ds.all isDecimal then .malformed
    else if digitLimit < ds.length then .tooLong ds.length
    else .value (if negative then -(digitsValue ds : Int) else digitsValue ds)
  | none => .malformed

/-- Digits, a point and digits; one side may be empty, and the point then missing. -/
def readMantissa (s : List Char) : Option (List Char × List Char × List Char) :=
  let whole := s.takeWhile isDecimal
  let afterWhole := s.dropWhile isDecimal
  match afterWhole with
  | '.' :: cs =>
    let part := cs.takeWhile isDecimal
    if whole.isEmpty && part.isEmpty then none else some (whole, part, cs.dropWhile isDecimal)
  | _ => if whole.isEmpty then none else some (whole, [], afterWhole)

def readExponent : List Char → Option Int
  | [] => some 0
  | c :: cs =>
    if c == 'e' || c == 'E' then
      let (negative, ds) := readSign cs
      if ds.isEmpty || !ds.all isDecimal then none
      else some (if negative then -(digitsValue ds : Int) else digitsValue ds)
    else none

def asciiLower (c : Char) : Char :=
  if 'A' ≤ c && c ≤ 'Z' then Char.ofNat (c.toNat + 32) else c

/-- A double in decimal, or one of the words for infinity and for no number at all. -/
def readDouble? (s : List Char) : Option Float :=
  match joinDigits false (trimBy isNumberBlank s) with
  | none => none
  | some text =>
    let (negative, body) := readSign text
    let word := String.ofList (body.map asciiLower)
    if word == "inf" || word == "infinity" then some (infinity negative)
    else if word == "nan" then some nan
    else do
      let (whole, part, rest) ← readMantissa body
      let e ← readExponent rest
      let digits := whole ++ part
      return ofDecimal negative (digitsValue digits) (e - part.length)

end Bhasha.Number
