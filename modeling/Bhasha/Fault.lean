import Bhasha.Text.Quoted

namespace Bhasha

/-- The families of faults. The operators and the built-in functions tell a fault of type from the
others. -/
inductive FaultKind
  | type
  | value
  | member
  | index
  | key
  | overflow
  | memory
  | nesting
  | endOfInput
  | interrupt
  | scope
deriving DecidableEq, Inhabited

/-- Why a computation broke off without a diagnostic of the language. A `koshish` block does not
stop a fault, and the parser does not recover from one. -/
inductive Fault
  /-- `maker` was handed a slot it does not have. -/
  | unknownSlot (maker slot : String)
  /-- `maker` was not handed these slots, which it needs. -/
  | missingSlots (maker : String) (slots : List String)
  | noMember (owner member : String)
  | noTokenKind (name : String)
  /-- The part of a diagnostic at `position` is a number, and only text can be joined. -/
  | wordingNotText (position : Nat)
  | listIndex
  | stringIndex
  | longIntegerText (digits : Nat)
  | longInteger
  | intTooLarge
  | quotientTooLarge
  | infinityToInt
  | nanToInt
  | unhashable (type : String)
  | notOrdered (symbol left right : String)
  | unsupported (symbol left right : String)
  | notInteger (type : String)
  | emptySequence (function : String)
  | zeroStep
  | indexTooWide
  | sizeTooWide
  | textTooLong
  | noMemory
  | tooManyArguments (function expected : String) (given : Nat)
  | missingArguments (function : String) (names : List String)
  | noLine
  | endOfInput
  /-- There is no input left for now, but more may come. -/
  | awaitingInput
  | interrupted
  | atRootScope
  | noKey (key : String)
  | template (kind : FaultKind) (message : String)
  /-- Two values were compared that lie ever deeper in each other. -/
  | endlessComparison
  | outOfBudget
deriving DecidableEq, Inhabited

namespace Fault

/-- `'a'`, `'a' and 'b'`, `'a', 'b', and 'c'`. -/
def enumerate (names : List String) : String :=
  match (names.map fun n => s!"'{n}'").reverse with
  | [] => ""
  | [a] => a
  | [b, a] => s!"{a} and {b}"
  | z :: rest => ", ".intercalate rest.reverse ++ s!", and {z}"

def missing (maker : String) (names : List String) : String :=
  let plural := if names.length == 1 then "" else "s"
  let count := names.length
  let list := enumerate names
  s!"{maker}() missing {count} required positional argument{plural}: {list}"

def message : Fault → String
  | unknownSlot maker slot => s!"{maker}() got an unexpected keyword argument '{slot}'"
  | missingSlots maker slots => missing maker slots
  | noMember owner member => s!"type object '{owner}' has no attribute '{member}'"
  | noTokenKind name => name
  | wordingNotText position => s!"sequence item {position}: expected str instance, int found"
  | listIndex => "list index out of range"
  | stringIndex => "string index out of range"
  | longIntegerText digits =>
    s!"Exceeds the limit (4300 digits) for integer string conversion: value has {digits} digits" ++
      "; use sys.set_int_max_str_digits() to increase the limit"
  | longInteger =>
    "Exceeds the limit (4300 digits) for integer string conversion; " ++
      "use sys.set_int_max_str_digits() to increase the limit"
  | intTooLarge => "int too large to convert to float"
  | quotientTooLarge => "integer division result too large for a float"
  | infinityToInt => "cannot convert float infinity to integer"
  | nanToInt => "cannot convert float NaN to integer"
  | unhashable type => s!"unhashable type: '{type}'"
  | notOrdered symbol left right =>
    s!"'{symbol}' not supported between instances of '{left}' and '{right}'"
  | unsupported symbol left right =>
    s!"unsupported operand type(s) for {symbol}: '{left}' and '{right}'"
  | notInteger type => s!"'{type}' object cannot be interpreted as an integer"
  | emptySequence function => s!"{function}() arg is an empty sequence"
  | zeroStep => "range() arg 3 must not be zero"
  | indexTooWide => "Python int too large to convert to C ssize_t"
  | sizeTooWide => "cannot fit 'int' into an index-sized integer"
  | textTooLong => "repeated string is too long"
  | noMemory => ""
  | tooManyArguments function expected given =>
    s!"{function}() takes {expected} but {given} were given"
  | missingArguments function names => missing function names
  | noLine => "'NoneType' object has no attribute 'line'"
  | endOfInput => "EOF when reading a line"
  | awaitingInput => ""
  | interrupted => ""
  | atRootScope => "Cannot exit the global scope."
  | noKey key => Text.quoted key
  | template _ text => text
  | endlessComparison => "maximum recursion depth exceeded in comparison"
  | outOfBudget => "maximum recursion depth exceeded"

def kind : Fault → FaultKind
  | unknownSlot _ _ | missingSlots _ _ | wordingNotText _ | unhashable _ | notOrdered _ _ _
  | unsupported _ _ _ | notInteger _ | tooManyArguments _ _ _ | missingArguments _ _ => .type
  | noMember _ _ | noTokenKind _ | noLine => .member
  | listIndex | stringIndex => .index
  | longIntegerText _ | longInteger | nanToInt | emptySequence _ | zeroStep => .value
  | intTooLarge | quotientTooLarge | infinityToInt | indexTooWide | sizeTooWide
  | textTooLong => .overflow
  | noMemory => .memory
  | endOfInput | awaitingInput => .endOfInput
  | interrupted => .interrupt
  | atRootScope => .scope
  | noKey _ => .key
  | template k _ => k
  | endlessComparison | outOfBudget => .nesting

end Fault

end Bhasha
