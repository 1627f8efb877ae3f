import RegisterMachine.Shell.Turn

/-!
A folder that holds one file, and where paths lead from it. Of the rest of the system only the usual
folders at its top are known, and the device that is always empty; no other name is found.
-/

namespace RegisterMachine.Folder

/-- Why a path does not lead to a text. -/
inductive Trouble where
  | missing
  | notFolder
  | isFolder
  | tooLong
  | notText
  deriving DecidableEq, Repr

def Trouble.message : Trouble → String
  | missing => "No such file or directory (os error 2)"
  | notFolder => "Not a directory (os error 20)"
  | isFolder => "Is a directory (os error 21)"
  | tooLong => "File name too long (os error 36)"
  | notText => "stream did not contain valid UTF-8"

/-- How many bytes a name in a path can have. -/
def nameLimit : Nat := 255

/-- How many bytes a path can have. -/
def pathLimit : Nat := 4095

/-- How many bytes a text takes in UTF-8. -/
def byteCount (text : List Char) : Nat := (String.ofList text).utf8ByteSize

/-- The parts of a path between slashes. -/
def parts : List Char → List Char × List (List Char)
  | [] => ([], [])
  | c :: rest =>
    let (first, others) := parts rest
    if c = '/' then ([], first :: others) else (c :: first, others)

/-- Whether a part of a path leads from a folder to the same one. -/
def isHere (part : List Char) : Bool := part = [] || part = ['.']

/-- A folder on the way of a path. -/
inductive Place where
  /-- The folder that holds the one file. -/
  | home
  /-- A folder of which nothing is known. -/
  | elsewhere
  /-- The folder above all others. -/
  | top
  /-- One of the usual folders in the top one. -/
  | usual (name : List Char)
  deriving DecidableEq, Repr

/-- The usual folders in the top one. -/
def usualNames : List String :=
  ["bin", "boot", "dev", "etc", "home", "lib", "media", "mnt", "opt", "proc", "root", "run", "sbin",
    "srv", "sys", "tmp", "usr", "var"]

namespace Place

/-- The folder that holds a folder; the top one holds itself. -/
def parent : Place → Place
  | home | elsewhere => elsewhere
  | top | usual _ => top

end Place

/-- What a name in a folder stands for. -/
inductive Entry where
  | folder (place : Place)
  | file (content : ByteArray)

/-- The entry with a name in a folder, given the name and the content of the one file. -/
def entry? (name : List Char) (content : ByteArray) (part : List Char) : Place → Option Entry
  | .home => if part = name then some (.file content) else none
  | .elsewhere => none
  | .top => if usualNames.contains (String.ofList part) then some (.folder (.usual part)) else none
  | .usual folder =>
    if folder = "dev".toList ∧ part = "null".toList then some (.file .empty) else none

/-- The content that a path leads to. A name is looked at only in a folder that the parts before it
lead to. -/
def follow (name : List Char) (content : ByteArray) :
    Place → List (List Char) → Except Trouble ByteArray
  | _, [] => .error .isFolder
  | place, part :: rest =>
    if isHere part then follow name content place rest
    else if part = ['.', '.'] then follow name content place.parent rest
    else if nameLimit < byteCount part then .error .tooLong
    else
      match entry? name content part place with
      | none => .error .missing
      | some (.folder place) => follow name content place rest
      | some (.file content) => if rest.isEmpty then .ok content else .error .notFolder

/-- The content at a path. A path that begins with a slash starts in the top folder, and an empty one
leads nowhere. -/
def read (name : List Char) (content : ByteArray) (path : List Char) : Except Trouble ByteArray :=
  if path = [] then .error .missing
  else if pathLimit < byteCount path then .error .tooLong
  else
    let (first, others) := parts path
    follow name content (if first = [] then .top else .home) (first :: others)

/-- The files of a system with a folder that holds one file. -/
def single (name : String) (content : ByteArray) : Files := fun path =>
  match read name.toList content path.toList with
  | .error trouble => .error trouble.message
  | .ok bytes =>
    match String.fromUTF8? bytes with
    | none => .error Trouble.notText.message
    | some text => .ok text

end RegisterMachine.Folder
