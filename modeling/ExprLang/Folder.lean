import ExprLang.Text.Bytes

/-!
# Files by name

A folder holds files in nested directories. A name is resolved one component at a time, starting
from the folder: a file can only be the last component, and a directory exists if a file lies in
it. Of what lies outside the folder little is known: the directories above it, and the common ones
at the root of the file system.
-/

namespace ExprLang

inductive FileError
  | missing
  | notDirectory
  | isDirectory
  | invalidName
  | nameTooLong
  deriving DecidableEq, Repr

namespace FileError

/-- What is said about a name that could not be read. -/
def message (name : Bytes) : FileError → Bytes
  | .missing => bytes "open " ++ name ++ bytes ": no such file or directory"
  | .notDirectory => bytes "open " ++ name ++ bytes ": not a directory"
  | .isDirectory => bytes "read " ++ name ++ bytes ": is a directory"
  | .invalidName => bytes "open " ++ name ++ bytes ": invalid argument"
  | .nameTooLong => bytes "open " ++ name ++ bytes ": file name too long"

end FileError

/-! ## Paths -/

abbrev Path := List Bytes

namespace Path

def separator : UInt8 := byte '/'

/-- This directory. -/
def here : Bytes := bytes "."

/-- The directory above. -/
def above : Bytes := bytes ".."

def ofName (name : Bytes) : Path := Text.splitOn separator name

def name (p : Path) : Bytes := [separator].intercalate p

/-- Whether a component stays in its directory. -/
def isIdle (c : Bytes) : Bool := c.isEmpty || c = here

/-- Drop idle components and let the directory above cancel the component before it. The first
argument holds the components kept so far, the last first. -/
def cleanFrom (rooted : Bool) : Path → Path → Path
  | kept, [] => kept.reverse
  | kept, c :: rest =>
    if isIdle c then cleanFrom rooted kept rest
    else if c = above then
      match kept with
      | [] => cleanFrom rooted (if rooted then [] else [above]) rest
      | last :: before =>
        if last = above then cleanFrom rooted (above :: kept) rest
        else cleanFrom rooted before rest
    else cleanFrom rooted (c :: kept) rest

/-- The shortest name that means the same as far as the text of the name tells. -/
def clean (name : Bytes) : Bytes :=
  let rooted := decide (name.head? = some separator)
  match cleanFrom rooted [] (ofName name) with
  | [] => if rooted then [separator] else here
  | path => (if rooted then [separator] else []) ++ Path.name path

/-- A name inside a directory. -/
def join (directory name : Bytes) : Bytes := clean (directory ++ separator :: name)

end Path

/-! ## Folders -/

structure Folder where
  files : List (Path × Bytes)
  deriving DecidableEq, Repr

/-- What a name stands for. -/
inductive Place
  | directory
  | file (path : Path) (content : Bytes)
  /-- A file that is always empty, whatever is written to it. -/
  | nullDevice
  /-- There is no such file, but it could be created. -/
  | vacant (path : Path)
  | error (e : FileError)
  deriving DecidableEq, Repr

namespace Folder

def content? (f : Folder) (p : Path) : Option Bytes := f.files.lookup p

def isDirectory (f : Folder) (p : Path) : Bool := f.files.any fun file => p.isPrefixOf file.1

def maxComponent : Nat := 255

/-- A name this long is refused before it is resolved. -/
def maxName : Nat := 4096

/-- Outside the folder only directories above it are known. -/
def locateOutside : Path → Place
  | [] => .directory
  | c :: rest =>
    if Path.isIdle c ∨ c = Path.above then locateOutside rest
    else if maxComponent < c.length then .error .nameTooLong
    else .error .missing

def rootDirectories : List Bytes :=
  ["bin", "boot", "dev", "etc", "home", "lib", "media", "mnt", "opt", "proc", "root", "run", "sbin",
    "srv", "sys", "tmp", "usr", "var"].map bytes

/-- Resolve the components of a name from the root of the file system. -/
def locateRooted : Path → Path → Place
  | _, [] => .directory
  | directory, c :: rest =>
    if Path.isIdle c then locateRooted directory rest
    else if c = Path.above then locateRooted directory.dropLast rest
    else if maxComponent < c.length then .error .nameTooLong
    else if directory.isEmpty ∧ rootDirectories.contains c then locateRooted [c] rest
    else if directory = [bytes "dev"] ∧ c = bytes "null" then
      if rest.isEmpty then .nullDevice else .error .notDirectory
    else .error .missing

/-- Resolve the components of a name from a directory of the folder. -/
def locate (f : Folder) : Path → Path → Place
  | _, [] => .directory
  | directory, c :: rest =>
    if Path.isIdle c then locate f directory rest
    else if c = Path.above then
      if directory.isEmpty then locateOutside rest else locate f directory.dropLast rest
    else if maxComponent < c.length then .error .nameTooLong
    else
      let path := directory ++ [c]
      match f.content? path with
      | some content => if rest.isEmpty then .file path content else .error .notDirectory
      | none =>
        if f.isDirectory path then locate f path rest
        else if rest.isEmpty then .vacant path
        else .error .missing

def find (f : Folder) (name : Bytes) : Place :=
  if name.isEmpty then .error .missing
  else if name.contains 0 then .error .invalidName
  else if maxName ≤ name.length then .error .nameTooLong
  else if name.head? = some Path.separator then locateRooted [] (Path.ofName name)
  else f.locate [] (Path.ofName name)

def read (f : Folder) (name : Bytes) : Except FileError Bytes :=
  match f.find name with
  | .directory => .error .isDirectory
  | .file _ content => .ok content
  | .nullDevice => .ok []
  | .vacant _ => .error .missing
  | .error e => .error e

/-- Put a file at a path. -/
def put (f : Folder) (path : Path) (content : Bytes) : Folder :=
  ⟨(path, content) :: f.files.filter fun file => file.1 ≠ path⟩

/-- Write a file, if one can be created under the name. -/
def write (f : Folder) (name content : Bytes) : Folder :=
  match f.find name with
  | .file path _ => f.put path content
  | .vacant path => f.put path content
  | _ => f

/-- The files of a folder that are not the same in an older one. -/
def changes (old new : Folder) : List (Path × Bytes) :=
  new.files.filter fun file => old.content? file.1 ≠ some file.2

end Folder

end ExprLang
