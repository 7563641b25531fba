import Bhasha.Number.Arithmetic
import Bhasha.Number.Reading
import Bhasha.Number.Rounded
import Bhasha.Text.Quoted

/-! Text templates. A `%` in a template stands for a value that is put in its place; between the `%`
and the letter that says how the value is written there may be a key, flags, a width and a
precision. A template takes one value, or, if that has keys, the values behind them. -/

namespace Bhasha

namespace Template

/-- A value as far as a template can look into it. -/
structure Filler where
  text : Except Fault String
  literal : Except Fault String
  number : Option Num := none
  string : Option String := none

/-- What a template is filled with. -/
structure Arguments where
  whole : Filler
  keyed : Option (String → Except Fault Filler) := none

structure Flags where
  left : Bool := false
  plus : Bool := false
  blank : Bool := false
  alternate : Bool := false
  zero : Bool := false

structure Spec where
  flags : Flags := {}
  width : Option Nat := none
  precision : Option Nat := none
  letter : Char := 's'

def wrongType (message : String) : Fault :=
  .template .type message

def wrongValue (message : String) : Fault :=
  .template .value message

/-- A character outside ASCII is written as an escape. -/
def asciiChar (c : Char) : List Char :=
  if c.toNat < 0x80 then [c]
  else if c.toNat < 0x100 then '\\' :: 'x' :: Text.hex 2 c.toNat
  else if c.toNat < 0x10000 then '\\' :: 'u' :: Text.hex 4 c.toNat
  else '\\' :: 'U' :: Text.hex 8 c.toNat

def upper (c : Char) : Char :=
  if 'a' ≤ c && c ≤ 'z' then Char.ofNat (c.toNat - 32) else c

/-- Sign, base mark and digits, before they are padded. -/
structure Digits where
  sign : Option Char
  mark : List Char := []
  body : List Char

def Digits.ofText : List Char → Digits
  | '-' :: cs => ⟨some '-', [], cs⟩
  | cs => ⟨none, [], cs⟩

/-- Numbers are padded between their sign and their digits if the padding is zeros. -/
def padNumber (spec : Spec) (d : Digits) : List Char :=
  let sign := match d.sign with
    | some c => [c]
    | none => if spec.flags.plus then ['+'] else if spec.flags.blank then [' '] else []
  let front := sign ++ d.mark
  let missing := spec.width.getD 0 - (front.length + d.body.length)
  if spec.flags.left then front ++ d.body ++ List.replicate missing ' '
  else if spec.flags.zero then front ++ List.replicate missing '0' ++ d.body
  else List.replicate missing ' ' ++ front ++ d.body

def padText (spec : Spec) (cs : List Char) : List Char :=
  let missing := spec.width.getD 0 - cs.length
  if spec.flags.left then cs ++ List.replicate missing ' '
  else List.replicate missing ' ' ++ cs

def cutText (spec : Spec) (cs : List Char) : List Char :=
  match spec.precision with
  | some n => cs.take n
  | none => cs

def integerOf (f : Filler) : Except Fault Int :=
  match f.number with
  | some (.int n) => .ok n
  | some (.float x) => match Number.parts x with
    | .nan => .error .nanToInt
    | .infinite _ => .error .infinityToInt
    | .finite _ _ _ => .ok ((Number.truncate? x).getD 0)
  | none => .error (wrongType "a real number is required")

def exactInteger (f : Filler) : Except Fault Int :=
  match f.number with
  | some (.int n) => .ok n
  | _ => .error (wrongType "an integer is required")

/-- Digits in one of the bases, with the base mark if the form is the alternate one. -/
def integerDigits (spec : Spec) (n : Int) : Except Fault Digits := do
  let (base, mark) := match spec.letter with
    | 'o' => (8, ['0', 'o'])
    | 'x' => (16, ['0', 'x'])
    | 'X' => (16, ['0', 'X'])
    | _ => (10, [])
  if base == 10 && Number.unwritable ≤ n.natAbs then throw .longInteger
  let ds := Nat.toDigits base n.natAbs
  let ds := if spec.letter == 'X' then ds.map upper else ds
  let ds := List.replicate (spec.precision.getD 0 - ds.length) '0' ++ ds
  return { sign := if n < 0 then some '-' else none
           mark := if spec.flags.alternate then mark else []
           body := ds }

def floatText (spec : Spec) (f : Filler) : Except Fault (List Char) := do
  let some number := f.number | throw (wrongType "must be real number")
  let x ← number.toDouble
  let style : Number.DigitStyle := match spec.letter with
    | 'e' | 'E' => .exponent
    | 'f' | 'F' => .fixed
    | _ => .general
  let cs := Number.showRounded style (spec.precision.getD 6) spec.flags.alternate x
  return if spec.letter.isUpper then cs.map upper else cs

def character (f : Filler) : Except Fault Char :=
  match f.string, f.number with
  | some s, _ => match s.toList with
    | [c] => .ok c
    | _ => .error (wrongType "%c requires int or char")
  | none, some (.int n) =>
    if n < 0 || 0x110000 ≤ n then .error (.template .overflow "%c arg not in range(0x110000)")
    else .ok (Char.ofNat n.toNat)
  | none, _ => .error (wrongType "%c requires int or char")

def unsupported (letter : Char) (position : Nat) : Fault :=
  let shown := if 31 ≤ letter.toNat && letter.toNat < 126 then letter else '?'
  let code := String.ofList (Text.hex 1 letter.toNat)
  wrongValue s!"unsupported format character '{shown}' (0x{code}) at index {position}"

/-- The value as the specification wants it. -/
def write (spec : Spec) (position : Nat) (f : Filler) : Except Fault (List Char) :=
  match spec.letter with
  | 's' => do return padText spec (cutText spec (← f.text).toList)
  | 'r' => do return padText spec (cutText spec (← f.literal).toList)
  | 'a' => do return padText spec (cutText spec ((← f.literal).toList.flatMap asciiChar))
  | 'c' => do return padText spec [← character f]
  | 'd' | 'i' | 'u' => do return padNumber spec (← integerDigits spec (← integerOf f))
  | 'o' | 'x' | 'X' => do return padNumber spec (← integerDigits spec (← exactInteger f))
  | 'e' | 'E' | 'f' | 'F' | 'g' | 'G' => do
    return padNumber spec (Digits.ofText (← floatText spec f))
  | letter => .error (unsupported letter position)

structure Reader where
  rest : List Char
  /-- How many characters of the template were read. -/
  position : Nat := 0
  given : Option Filler

abbrev Read := EStateM Fault Reader

namespace Read

def next? : Read (Option Char) := do
  let r ← get
  match r.rest with
  | [] => return none
  | c :: cs =>
    set { r with rest := cs, position := r.position + 1 }
    return some c

/-- The value itself; it can be used once. -/
def take : Read Filler := do
  match (← get).given with
  | some f =>
    modify fun r => { r with given := none }
    return f
  | none => throw (wrongType "not enough arguments for format string")

/-- The text up to the bracket that closes `depth` open ones, and what follows. -/
def splitKey : (depth : Nat) → List Char → Option (List Char × List Char)
  | _, [] => none
  | depth, c :: cs =>
    if c == ')' then
      if depth ≤ 1 then some ([], cs)
      else (splitKey (depth - 1) cs).map fun (k, r) => (c :: k, r)
    else (splitKey (if c == '(' then depth + 1 else depth) cs).map fun (k, r) => (c :: k, r)

/-- A key in brackets chooses the value that is used next. -/
def key (arguments : Arguments) : Read Unit := do
  let r ← get
  match r.rest with
  | '(' :: cs =>
    let some lookup := arguments.keyed | throw (wrongType "format requires a mapping")
    let some (k, rest) := splitKey 1 cs | throw (wrongValue "incomplete format key")
    match lookup (String.ofList k) with
    | .ok f => set { r with rest, position := r.position + k.length + 2, given := some f }
    | .error f => throw f
  | _ => return ()

def addFlag (f : Flags) : Char → Option Flags
  | '-' => some { f with left := true }
  | '+' => some { f with plus := true }
  | ' ' => some { f with blank := true }
  | '#' => some { f with alternate := true }
  | '0' => some { f with zero := true }
  | _ => none

/-- All flags, and how many characters they take. -/
def flagsOf (f : Flags) : List Char → Flags × Nat
  | [] => (f, 0)
  | c :: cs => match addFlag f c with
    | some f => let (f, n) := flagsOf f cs; (f, n + 1)
    | none => (f, 0)

def skip (n : Nat) : Read Unit :=
  modify fun r => { r with rest := r.rest.drop n, position := r.position + n }

def isDigit (c : Char) : Bool :=
  '0' ≤ c && c ≤ '9'

/-- A number written in the template, no larger than `limit`. -/
def number (limit : Nat) (tooBig : String) : Read Nat := do
  let ds := (← get).rest.takeWhile isDigit
  let n := Number.digitsValue ds
  if limit < n then throw (wrongValue tooBig)
  skip ds.length
  return n

/-- A number taken from the values, as `*` asks for. -/
def starred (limit : Nat) (tooWide : String) : Read Int := do
  match (← take).number with
  | some (.int n) =>
    if n < -(limit : Int) - 1 || (limit : Int) < n then throw (.template .overflow tooWide)
    return n
  | _ => throw (wrongType "* wants int")

def widthLimit : Nat := 0x7fffffffffffffff

def precisionLimit : Nat := 0x7fffffff

def width (flags : Flags) : Read (Flags × Option Nat) := do
  match (← get).rest with
  | '*' :: _ =>
    skip 1
    let n ← starred widthLimit "Python int too large to convert to C ssize_t"
    return (if n < 0 then { flags with left := true } else flags, some n.natAbs)
  | c :: _ =>
    if isDigit c then return (flags, some (← number widthLimit "width too big"))
    else return (flags, none)
  | [] => return (flags, none)

def precision : Read (Option Nat) := do
  match (← get).rest with
  | '.' :: cs =>
    skip 1
    match cs with
    | '*' :: _ =>
      skip 1
      let n ← starred precisionLimit "Python int too large to convert to C int"
      return some n.toNat
    | _ => return some (← number precisionLimit "precision too big")
  | _ => return none

/-- The letters `h`, `l` and `L` before the last one say nothing. -/
def sizeLetter : Read Unit := do
  match (← get).rest with
  | c :: _ => if c == 'h' || c == 'l' || c == 'L' then skip 1
  | [] => return ()

/-- What stands behind a `%`, written out. -/
def conversion (arguments : Arguments) : Read (List Char) := do
  match (← get).rest with
  | '%' :: _ =>
    skip 1
    return ['%']
  | _ =>
    key arguments
    let (flags, count) := flagsOf {} (← get).rest
    skip count
    let (flags, width) ← width flags
    let precision ← precision
    sizeLetter
    let some letter ← next? | throw (wrongValue "incomplete format")
    let position := (← get).position - 1
    match write { flags, width, precision, letter } position (← take) with
    | .ok cs => return cs
    | .error f => throw f

/-- The whole template; `budget` is at least its length. -/
def all (arguments : Arguments) : (budget : Nat) → Read (List Char)
  | 0 => throw .outOfBudget
  | budget + 1 => do
    match ← next? with
    | none => return []
    | some '%' =>
      let cs ← conversion arguments
      return cs ++ (← all arguments budget)
    | some c => return c :: (← all arguments budget)

end Read

/-- A value without keys has to be used. -/
def fill (template : String) (arguments : Arguments) : Except Fault String :=
  let cs := template.toList
  match Read.all arguments (cs.length + 1) { rest := cs, given := some arguments.whole } with
  | .ok out r =>
    if r.given.isSome && arguments.keyed.isNone then
      .error (wrongType "not all arguments converted during string formatting")
    else .ok (String.ofList out)
  | .error f _ => .error f

end Template

end Bhasha
