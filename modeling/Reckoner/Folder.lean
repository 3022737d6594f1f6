import Reckoner.Utf8

/-!
A folder of files, and what a path leads to in it. A path is followed name by name, from the folder
itself or, after a slash in front, from the top. No more is known of what lies outside than that the
folders above this one are there.
-/

namespace Reckoner

/-- Why a path leads to no text. -/
inductive ReadFault
  | missing
  | isFolder
  | notFolder
  | longName
  | notText
  deriving DecidableEq

def ReadFault.message : ReadFault → String
  | missing => "No such file or directory (os error 2)"
  | isFolder => "Is a directory (os error 21)"
  | notFolder => "Not a directory (os error 20)"
  | longName => "File name too long (os error 36)"
  | notText => "stream did not contain valid UTF-8"

/-- Files and further folders, each under its names from this folder on. A folder that holds one of
them is there without being listed. -/
structure Folder where
  files : List (List String × List UInt8)
  folders : List (List String)

namespace Folder

inductive Entry
  | file (content : List UInt8)
  | folder

def entry? (f : Folder) (path : List String) : Option Entry :=
  match f.files.lookup path with
  | some content => some (.file content)
  | none =>
    if path.isEmpty || (f.files.map Prod.fst ++ f.folders).any path.isPrefixOf then some .folder
    else none

inductive Place
  | outside
  | inside (path : List String)

/-- The folder around a place. -/
def Place.above : Place → Place
  | outside | inside [] => outside
  | inside (name :: rest) => inside (name :: rest).dropLast

def Place.below? (name : String) : Place → Option Place
  | outside => none
  | inside path => some (inside (path ++ [name]))

def entryAt? (f : Folder) : Place → Option Entry
  | .outside => some .folder
  | .inside path => f.entry? path

/-- The bytes that one name may have. -/
def nameLimit : Nat := 255

/-- Such a name leads to the folder that it is looked up in. -/
def stays (name : String) : Bool := name = "" || name = "."

/-- Takes a name that is not `.` or `..`. -/
def enter (name : String) (place : Place) : Except ReadFault Place :=
  if nameLimit < name.utf8ByteSize then .error .longName
  else
    match place.below? name with
    | some inner => .ok inner
    | none => .error .missing

/-- Follows names from a place. Any name, also an empty one at the end, asks for a folder to look
it up in. -/
def follow (f : Folder) (place : Place) : List String → Except ReadFault Entry
  | [] =>
    match f.entryAt? place with
    | some entry => .ok entry
    | none => .error .missing
  | name :: rest =>
    match f.entryAt? place with
    | none => .error .missing
    | some (.file _) => .error .notFolder
    | some .folder =>
      if stays name then f.follow place rest
      else if name = ".." then f.follow place.above rest
      else
        match enter name place with
        | .ok inner => f.follow inner rest
        | .error fault => .error fault

/-- The bytes that a whole path stays below. -/
def pathLimit : Nat := 4096

def names (path : String) : List String := path.splitOn "/"

def find (f : Folder) (path : String) : Except ReadFault (List UInt8) :=
  if path.isEmpty then .error .missing
  else if pathLimit ≤ path.utf8ByteSize then .error .longName
  else
    match f.follow (if path.startsWith "/" then .outside else .inside []) (names path) with
    | .ok (.file content) => .ok content
    | .ok .folder => .error .isFolder
    | .error fault => .error fault

/-- A folder with files and folders under paths that do not climb. -/
def ofPaths (files : List (String × List UInt8)) (folders : List String) : Folder :=
  let path (text : String) := (names text).filter (!stays ·)
  ⟨files.map fun (text, content) => (path text, content), folders.map path⟩

end Folder

end Reckoner
