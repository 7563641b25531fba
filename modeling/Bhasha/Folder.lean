import Bhasha.Text.Quoted

namespace Bhasha

/-- What comes of opening a file. -/
inductive Opened
  | text (s : String)
  | missing
  | failed (reason : String)

/-- The files of a folder, under the paths they have in it. -/
structure Folder where
  files : List (String × String) := []

namespace Folder

def longestName : Nat := 255

/-- The names a path goes through; a dot stays where it is. -/
def steps (path : String) : List String :=
  (path.splitOn "/").filter fun s => s != "" && s != "."

/-- Does the path end in a way that only a folder can? -/
def endsInFolder (path : String) : Bool :=
  path.endsWith "/" || path.endsWith "/." || path == "."

def refusal (number : Nat) (text path : String) : Opened :=
  let shown := Text.quoted path
  .failed s!"[Errno {number}] {text}: {shown}"

def lookup (f : Folder) (path : List String) : Option String :=
  (f.files.find? fun (p, _) => steps p == path).map (·.2)

/-- Is there a file on the way to the last name of the path? -/
def isBlocked (f : Folder) : List String → List String → Bool
  | _, [] => false
  | way, s :: rest =>
    (!rest.isEmpty && (f.lookup (way ++ [s])).isSome) || f.isBlocked (way ++ [s]) rest

def isFolder (f : Folder) (path : List String) : Bool :=
  path.all (· == "..") || f.files.any fun (p, _) => path.isPrefixOf (steps p)

/-- Opens the file at a path. Paths that leave the folder lead nowhere. -/
def open? (f : Folder) (path : String) : Opened :=
  let way := steps path
  if path.toList.contains '\x00' then .failed "embedded null byte"
  else if path.isEmpty then .missing
  else if way.any fun s => longestName < s.utf8ByteSize then refusal 36 "File name too long" path
  else if path.startsWith "/" then
    if way.isEmpty then refusal 21 "Is a directory" path else .missing
  else match f.lookup way with
    | some s => if endsInFolder path then refusal 20 "Not a directory" path else .text s
    | none =>
      if f.isBlocked [] way then refusal 20 "Not a directory" path
      else if f.isFolder way then refusal 21 "Is a directory" path
      else .missing

end Folder

end Bhasha
