import Bhasha.Diagnostic
import Bhasha.Scalar

namespace Bhasha

/-- Plain data: what a slot of a diagnostic may be filled with. -/
inductive Datum
  | scalar (s : Scalar)
  | list (items : List Datum)
  | record (fields : List (String × Datum))
deriving Inhabited

namespace Datum

mutual

def literal (d : Datum) : String :=
  match d with
  | .scalar s => s.literal
  | .list ds => "[" ++ ", ".intercalate (literals ds) ++ "]"
  | .record fs => "\x7b" ++ ", ".intercalate (fieldLiterals fs) ++ "\x7d"
termination_by structural d

def literals (ds : List Datum) : List String :=
  match ds with
  | [] => []
  | d :: ds => d.literal :: literals ds
termination_by structural ds

def fieldLiterals (fs : List (String × Datum)) : List String :=
  match fs with
  | [] => []
  | (x, d) :: fs => (Text.quoted x ++ ": " ++ d.literal) :: fieldLiterals fs
termination_by structural fs

end

def text : Datum → String
  | scalar s => s.text
  | d => d.literal

end Datum

namespace Diagnostic

/-- What a diagnostic is made from. -/
structure Slots where
  data : List (String × Datum)
  /-- The members of a collection. -/
  members : List Diagnostic := []

namespace Slots

def text (s : Slots) (slot : String) : String :=
  match s.data.lookup slot with
  | some d => d.text
  | none => "None"

def text? (s : Slots) (slot : String) : Option String :=
  match s.data.lookup slot with
  | some (.scalar .none) | none => none
  | some d => some d.text

def int? (s : Slots) (slot : String) : Option Int :=
  match s.data.lookup slot with
  | some (.scalar v) => v.asInt?
  | _ => none

def names (s : Slots) (slot : String) : List String :=
  match s.data.lookup slot with
  | some (.list ds) => ds.map Datum.text
  | _ => []

end Slots

/-- How diagnostics of one sort are made: the slots they need, those they may have, and the rest. -/
structure Recipe where
  maker : String
  needs : List String
  takes : List String
  make : Lang → Slots → Diagnostic

namespace Recipe

def general (kind : Kind) : Recipe where
  maker := "MeriLangError.__init__"
  needs := ["message_en"]
  takes := ["message_hi", "line", "column", "suggestion_en", "suggestion_hi"]
  make _ s :=
    let en := s.text "message_en"
    { kind, en
      hi := match s.data.lookup "message_hi" with
        | some (.scalar (.int n)) => if n = 0 then .text en else .number n
        | _ => .text ((nonempty (s.text? "message_hi")).getD en)
      line := s.int? "line"
      column := s.int? "column"
      suggestEn := s.text? "suggestion_en"
      suggestHi := s.text? "suggestion_hi" }

def unterminatedString : Recipe where
  maker := "LexerError.unterminated_string"
  needs := ["line", "column", "quote"]
  takes := []
  make _ s :=
    let q := s.text "quote"
    { kind := .lexer
      en := s!"Unterminated string (missing closing {q})"
      hi := .text s!"अधूरा स्ट्रिंग (बंद करने वाला {q} गायब है)"
      line := s.int? "line"
      column := s.int? "column"
      suggestEn := some s!"Add a closing {q} at the end of the string"
      suggestHi := some s!"स्ट्रिंग के अंत में {q} जोड़ें" }

def unexpectedCharacter : Recipe where
  maker := "LexerError.unexpected_character"
  needs := ["char", "line", "column"]
  takes := []
  make _ s :=
    let c := s.text "char"
    { kind := .lexer
      en := s!"Unexpected character: '{c}'"
      hi := .text s!"अनपेक्षित अक्षर: '{c}'"
      line := s.int? "line"
      column := s.int? "column"
      suggestEn := some "Check for typos or unsupported characters"
      suggestHi := some "टाइपो या असमर्थित अक्षरों की जांच करें" }

def invalidNumber : Recipe where
  maker := "LexerError.invalid_number"
  needs := ["text", "line", "column"]
  takes := []
  make _ s :=
    let t := s.text "text"
    { kind := .lexer
      en := s!"Invalid number format: '{t}'"
      hi := .text s!"गलत संख्या प्रारूप: '{t}'"
      line := s.int? "line"
      column := s.int? "column"
      suggestEn := some "Numbers should be like: 42, 3.14, -10"
      suggestHi := some "संख्याएं इस तरह होनी चाहिए: 42, 3.14, -10" }

def unexpectedToken : Recipe where
  maker := "ParserError.unexpected_token"
  needs := ["expected", "got", "line", "column"]
  takes := []
  make _ s :=
    { Diagnostic.unexpectedToken (s.text "expected") (s.text "got") 0 0 with
      line := s.int? "line"
      column := s.int? "column" }

def missingToken : Recipe where
  maker := "ParserError.missing_token"
  needs := ["token", "line", "column"]
  takes := []
  make _ s :=
    let t := s.text "token"
    { kind := .parser
      en := s!"Missing '{t}'"
      hi := .text s!"'{t}' गायब है"
      line := s.int? "line"
      column := s.int? "column" }

def invalidConstruct : Recipe where
  maker := "ParserError.invalid_syntax"
  needs := ["context", "line", "column"]
  takes := []
  make _ s :=
    let c := s.text "context"
    { kind := .parser
      en := s!"Invalid syntax in {c}"
      hi := .text s!"{c} में गलत सिंटैक्स"
      line := s.int? "line"
      column := s.int? "column" }

def invalidOperation : Recipe where
  maker := "TypeError.invalid_operation"
  needs := ["op", "type1", "type2"]
  takes := ["line"]
  make _ s :=
    let op := s.text "op"
    let a := s.text "type1"
    let b := s.text "type2"
    { kind := .type
      en := s!"Cannot perform '{op}' between {a} and {b}"
      hi := .text s!"{a} और {b} के बीच '{op}' नहीं कर सकते"
      line := s.int? "line"
      suggestEn := some "Convert values to compatible types first"
      suggestHi := some "पहले मानों को संगत प्रकारों में बदलें" }

def notCallable : Recipe where
  maker := "TypeError.not_callable"
  needs := ["type_name"]
  takes := ["line"]
  make _ s :=
    let t := s.text "type_name"
    { kind := .type
      en := s!"'{t}' is not callable (not a function)"
      hi := .text s!"'{t}' कॉल करने योग्य नहीं है (फंक्शन नहीं है)"
      line := s.int? "line"
      suggestEn := some "Only functions can be called with ()"
      suggestHi := some "केवल फंक्शन को () से कॉल किया जा सकता है" }

def notIterable : Recipe where
  maker := "TypeError.not_iterable"
  needs := ["type_name"]
  takes := ["line"]
  make _ s :=
    let t := s.text "type_name"
    { kind := .type
      en := s!"'{t}' is not iterable"
      hi := .text s!"'{t}' पर लूप नहीं चला सकते"
      line := s.int? "line"
      suggestEn := some "Only lists can be used in for loops"
      suggestHi := some "केवल लिस्ट पर for लूप चला सकते हैं" }

def undefinedVariable : Recipe where
  maker := "NameError.__init__"
  needs := ["name"]
  takes := ["line", "similar_names"]
  make _ s :=
    { (Diagnostic.undefinedVariable (s.text "name") none).didYouMean (s.names "similar_names") with
      line := s.int? "line" }

def divisionByZero : Recipe where
  maker := "DivisionByZeroError.__init__"
  needs := []
  takes := ["line"]
  make _ s :=
    { kind := .divisionByZero
      en := "Division by zero"
      hi := .text "शून्य से भाग"
      line := s.int? "line"
      suggestEn := some "Check if the denominator is zero before dividing"
      suggestHi := some "भाग देने से पहले जांचें कि हर शून्य तो नहीं है" }

def indexOutside : Recipe where
  maker := "IndexError.__init__"
  needs := ["index", "length"]
  takes := ["line"]
  make _ s :=
    let i := s.text "index"
    let n := s.text "length"
    let last := ((s.int? "length").getD 0) - 1
    { kind := .index
      en := s!"Index {i} is out of bounds for list of length {n}"
      hi := .text s!"इंडेक्स {i} लंबाई {n} की लिस्ट के लिए सीमा से बाहर है"
      line := s.int? "line"
      suggestEn := some s!"Valid indices are 0 to {last}"
      suggestHi := some s!"वैध इंडेक्स 0 से {last} तक हैं" }

def noAttribute : Recipe where
  maker := "AttributeError.__init__"
  needs := ["obj_type", "attr"]
  takes := ["line"]
  make _ s :=
    let t := s.text "obj_type"
    let a := s.text "attr"
    { kind := .member
      en := s!"'{t}' object has no attribute '{a}'"
      hi := .text s!"'{t}' ऑब्जेक्ट में '{a}' एट्रिब्यूट नहीं है"
      line := s.int? "line" }

def fileAccess : Recipe where
  maker := "FileIOError.__init__"
  needs := ["operation", "filename", "reason"]
  takes := ["line"]
  make _ s :=
    let op := s.text "operation"
    let file := s.text "filename"
    let reason := s.text "reason"
    { kind := .fileAccess
      en := s!"Failed to {op} file '{file}': {reason}"
      hi := .text s!"फाइल '{file}' को {op} करने में विफल: {reason}"
      line := s.int? "line" }

def moduleImport : Recipe where
  maker := "ImportError.__init__"
  needs := ["module", "reason"]
  takes := ["line"]
  make _ s :=
    let m := s.text "module"
    let reason := s.text "reason"
    { kind := .moduleImport
      en := s!"Cannot import module '{m}': {reason}"
      hi := .text s!"मॉड्यूल '{m}' इम्पोर्ट नहीं कर सकते: {reason}"
      line := s.int? "line"
      suggestEn := some "Check if the file exists and has .dl extension"
      suggestHi := some "जांचें कि फाइल मौजूद है और .dl एक्सटेंशन है" }

def recursion : Recipe where
  maker := "RecursionError.__init__"
  needs := ["max_depth"]
  takes := ["line"]
  make _ s :=
    let n := s.text "max_depth"
    { kind := .recursion
      en := s!"Maximum recursion depth ({n}) exceeded"
      hi := .text s!"अधिकतम रिकर्शन गहराई ({n}) पार हो गई"
      line := s.int? "line"
      suggestEn := some "Check for infinite recursion in your code"
      suggestHi := some "अपने कोड में अनंत रिकर्शन की जांच करें" }

def thrown : Recipe where
  maker := "UserException.__init__"
  needs := ["message"]
  takes := ["line"]
  make _ s :=
    let m := s.text "message"
    { kind := .user
      en := s!"Exception: {m}"
      hi := .text s!"अपवाद: {m}"
      line := s.int? "line" }

def badOperands : Recipe where
  maker := "TypeCheckError.invalid_operation"
  needs := ["op", "left_type", "right_type"]
  takes := ["line"]
  make _ s :=
    Diagnostic.badOperands (s.text "op") (s.text "left_type") (s.text "right_type") (s.int? "line")

def badOperand : Recipe where
  maker := "TypeCheckError.unary_invalid"
  needs := ["op", "operand_type"]
  takes := ["line"]
  make _ s := Diagnostic.badOperand (s.text "op") (s.text "operand_type") (s.int? "line")

def undefinedName : Recipe where
  maker := "UndefinedNameError.__init__"
  needs := ["name"]
  takes := ["line", "similar_names"]
  make _ s :=
    { Diagnostic.undefinedName (s.text "name") none (s.names "similar_names") with
      line := s.int? "line" }

def redefinition : Recipe where
  maker := "RedefinitionError.__init__"
  needs := ["name", "original_line"]
  takes := ["line"]
  make _ s := Diagnostic.redefinition (s.text "name") (s.int? "original_line") (s.int? "line")

def lexerCollection : Recipe where
  maker := "LexerErrorCollection.__init__"
  needs := ["errors"]
  takes := []
  make lang s := Diagnostic.lexerCollection lang s.members

def parserCollection : Recipe where
  maker := "ParserErrorCollection.__init__"
  needs := ["errors"]
  takes := []
  make lang s := Diagnostic.parserCollection lang s.members

/-- Makes a diagnostic, if the slots are those that the recipe asks for. -/
def apply (r : Recipe) (lang : Lang) (s : Slots) : Except Fault Diagnostic := do
  let given := s.data.map (·.1)
  if let some slot := given.find? fun x => !(r.needs ++ r.takes).contains x then
    throw (.unknownSlot r.maker slot)
  let absent := r.needs.filter fun x => !given.contains x
  if !absent.isEmpty then throw (.missingSlots r.maker absent)
  let d := r.make lang s
  let _ ← d.format lang
  return d

end Recipe

/-- The recipes by name. -/
def catalogue : List (String × Recipe) :=
  [("MeriLangError", .general .general), ("LexerError", .general .lexer),
   ("LexerError.unterminated_string", .unterminatedString),
   ("LexerError.unexpected_character", .unexpectedCharacter),
   ("LexerError.invalid_number", .invalidNumber), ("ParserError", .general .parser),
   ("ParserError.unexpected_token", .unexpectedToken),
   ("ParserError.missing_token", .missingToken),
   ("ParserError.invalid_syntax", .invalidConstruct), ("RuntimeError", .general .runtime),
   ("TypeError", .general .type), ("TypeError.invalid_operation", .invalidOperation),
   ("TypeError.not_callable", .notCallable), ("TypeError.not_iterable", .notIterable),
   ("NameError", .undefinedVariable), ("DivisionByZeroError", .divisionByZero),
   ("IndexError", .indexOutside), ("AttributeError", .noAttribute), ("FileIOError", .fileAccess),
   ("ImportError", .moduleImport), ("RecursionError", .recursion), ("UserException", .thrown),
   ("LexerErrorCollection", .lexerCollection), ("ParserErrorCollection", .parserCollection),
   ("SemanticError", .general .semantic), ("TypeCheckError", .general .typeCheck),
   ("TypeCheckError.invalid_operation", .badOperands),
   ("TypeCheckError.unary_invalid", .badOperand), ("UndefinedNameError", .undefinedName),
   ("RedefinitionError", .redefinition)]

/-- A diagnostic by the name of its recipe. -/
def make (lang : Lang) (name : String) (s : Slots) : Except Fault Diagnostic :=
  match catalogue.lookup name with
  | some r => r.apply lang s
  | none => match name.splitOn "." with
    | [owner, member] => .error (.noMember owner member)
    | _ => .error (.noKey name)

end Diagnostic

end Bhasha
