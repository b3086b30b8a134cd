/-!
# Files

Reading a text by its path, from a directory that is held as a value. Paths lead through
directories by name; `.` stays and `..` goes back.
-/

namespace PatentFilter

inductive ReadFault where
  | notFound
  | notDirectory
  | isDirectory
  | nameTooLong
  | nulInName
  | invalidText
  | other (details : String) (code : Nat)
  deriving DecidableEq, Repr

def ReadFault.message : ReadFault → String
  | .notFound => "No such file or directory (os error 2)"
  | .notDirectory => "Not a directory (os error 20)"
  | .isDirectory => "Is a directory (os error 21)"
  | .nameTooLong => "File name too long (os error 36)"
  | .nulInName => "file name contained an unexpected NUL byte"
  | .invalidText => "stream did not contain valid UTF-8"
  | .other details code => details ++ " (os error " ++ toString code ++ ")"

/-- The fault that a system call reports by number. -/
def ReadFault.ofCode (details : String) : Nat → ReadFault
  | 2 => .notFound
  | 20 => .notDirectory
  | 21 => .isDirectory
  | 36 => .nameTooLong
  | code => .other details code

/-- A file's octets, or a directory. -/
inductive FileNode where
  | file (octets : ByteArray)
  | directory (entries : List (String × FileNode))
  deriving Inhabited

namespace FileNode

/-- The most octets that a name in a path, and a whole path, can have. -/
def nameLimit : Nat := 255

def pathLimit : Nat := 4095

def entry? (name : String) : FileNode → Except ReadFault FileNode
  | directory entries =>
    if nameLimit < name.utf8ByteSize then .error .nameTooLong
    else match entries.lookup name with
      | some n => .ok n
      | none => .error .notFound
  | file _ => .error .notDirectory

/-- Follows names from a directory whose ancestors are known, innermost first. Nothing is known
above the outermost one, but it has a parent. -/
def walk : List FileNode → FileNode → List String → Except ReadFault FileNode
  | _, n, [] => .ok n
  | above, n, name :: names =>
    match n with
    | file _ => .error .notDirectory
    | directory _ =>
      if name = "" ∨ name = "." then walk above n names
      else if name = ".." then
        match above with
        | parent :: rest => walk rest parent names
        | [] => walk [] (directory []) names
      else do
        let child ← n.entry? name
        walk (n :: above) child names

def at? (root : FileNode) (path : String) : Except ReadFault FileNode :=
  if path.contains '\x00' then .error .nulInName
  else if path = "" then .error .notFound
  else if pathLimit < path.utf8ByteSize then .error .nameTooLong
  else walk [] (if path.startsWith "/" then directory [] else root) (path.splitToList (· == '/'))

def text : FileNode → Except ReadFault String
  | directory _ => .error .isDirectory
  | file octets =>
    match String.fromUTF8? octets with
    | some s => .ok s
    | none => .error .invalidText

def read (root : FileNode) (path : String) : Except ReadFault String := do
  (← root.at? path).text

/-- A directory with a file or directory entered under the names that lead to it. -/
def insert (root : FileNode) (names : List String) (n : FileNode) : FileNode :=
  match root, names with
  | file octets, _ => file octets
  | directory entries, [] => directory entries
  | directory entries, [name] => directory ((name, n) :: entries)
  | directory entries, name :: rest =>
    let inner := (entries.lookup name).getD (directory [])
    directory ((name, inner.insert rest n) :: entries)
termination_by names.length

end FileNode

end PatentFilter
