import Chip8.Word

/-!
# ROM files

A ROM image is read by its path, which may fail. The reader is a function that is handed in; a
directory that is known in full gives one. Paths are walked one component at a time.
-/

namespace Chip8

inductive ReadError where
  | notFound
  | notDirectory
  | isDirectory
  | nameTooLong
  | nulInName
  | refused (text : String) (number : Nat)
  deriving DecidableEq

namespace ReadError

def systemText (text : String) (number : Nat) : String :=
  text ++ " (os error " ++ Numeral.decimal number ++ ")"

def message : ReadError → String
  | notFound => systemText "No such file or directory" 2
  | notDirectory => systemText "Not a directory" 20
  | isDirectory => systemText "Is a directory" 21
  | nameTooLong => systemText "File name too long" 36
  | nulInName => "file name contained an unexpected NUL byte"
  | refused text number => systemText text number

end ReadError

abbrev Reader := String → Except ReadError (List Byte)

structure UnreadableRom where
  path : String
  cause : ReadError
  deriving DecidableEq

def UnreadableRom.message (u : UnreadableRom) : String :=
  "unable to read rom " ++ u.path ++ ": " ++ u.cause.message

def Reader.rom (read : Reader) (path : String) : Except UnreadableRom (List Byte) :=
  match read path with
  | .ok bytes => .ok bytes
  | .error cause => .error ⟨path, cause⟩

/-! ## Directories -/

/-- The names in a directory: files with their bytes, and directories that are empty. -/
structure Directory where
  entries : List (String × Option (List Byte))

namespace Directory

inductive Place where
  | here
  | inside
  /-- A directory above it, of which nothing is known. -/
  | above
  | file (bytes : List Byte)

def components (path : List Char) : List (List Char) :=
  path.foldr (fun c parts =>
    if c = '/' then [] :: parts
    else
      match parts with
      | [] => [[c]]
      | part :: others => (c :: part) :: others) [[]]

def longestName : Nat := 255

def longestPath : Nat := 4095

def byteLength (name : List Char) : Nat :=
  (String.ofList name).utf8ByteSize

def Place.parent : Place → Place
  | .inside => .here
  | _ => .above

def entry (d : Directory) (place : Place) (name : List Char) : Except ReadError Place :=
  match place, d.entries.lookup (String.ofList name) with
  | .here, some (some bytes) => .ok (.file bytes)
  | .here, some none => .ok .inside
  | _, _ => .error .notFound

/-- Follows one component of a path. Nothing lies below a file, not even itself. -/
def follow (d : Directory) (place : Place) (name : List Char) : Except ReadError Place :=
  match place with
  | .file _ => .error .notDirectory
  | _ =>
    if name = [] ∨ name = ['.'] then .ok place
    else if name = ['.', '.'] then .ok place.parent
    else if longestName < byteLength name then .error .nameTooLong
    else d.entry place name

def read (d : Directory) : Reader := fun path =>
  let cs := path.toList
  if '\x00' ∈ cs then .error .nulInName
  else if longestPath < byteLength cs then .error .nameTooLong
  else if cs = [] then .error .notFound
  else
    let start := if cs.head? = some '/' then Place.above else Place.here
    match (components cs).foldlM d.follow start with
    | .error cause => .error cause
    | .ok (.file bytes) => .ok bytes
    | .ok _ => .error .isDirectory

end Directory

end Chip8
