import Formicary.Files.Path
import Formicary.Text.Utf8

/-!
# A tree of files

Files and folders, each known by the names that lead to it from the root. A path is followed name by
name, from the root if it starts with a slash and from the current folder otherwise; every name but
the last has to be a folder. A slash at the end asks for a folder, so no file can be written there.
-/

namespace Formicary

/-- What goes wrong with files. -/
inductive FileError where
  | notFound
  | isFolder
  | notFolder
  | notText
  | nameTooLong
  | nulInName
  deriving DecidableEq

/-- The explanation a system gives. -/
def FileError.message : FileError → String
  | notFound => "No such file or directory (os error 2)"
  | isFolder => "Is a directory (os error 21)"
  | notFolder => "Not a directory (os error 20)"
  | notText => "stream did not contain valid UTF-8"
  | nameTooLong => "File name too long (os error 36)"
  | nulInName => "file name contained an unexpected NUL byte"

/-- A file with its content, or a folder. -/
inductive FileEntry where
  | file (content : List UInt8)
  | folder
  deriving DecidableEq

/-- Files and folders by the names that lead to them. -/
structure FileTree where
  /-- The current folder. -/
  here : List String
  entries : List (List String × FileEntry)

namespace FileTree

/-- No files; the root is the current folder. -/
def empty : FileTree := ⟨[], []⟩

/-- What the given names lead to; no names at all lead to the root. -/
def find? (t : FileTree) (names : List String) : Option FileEntry :=
  if names.isEmpty then some .folder else t.entries.lookup names

/-- Puts an entry in the place of any other of the same names. -/
def put (t : FileTree) (names : List String) (entry : FileEntry) : FileTree :=
  { t with entries := (names, entry) :: t.entries.filter (·.1 ≠ names) }

/-- The most bytes in one name. -/
def longestName : Nat := 255

/-- The most bytes in a path. -/
def longestPath : Nat := 4095

/-- Where a path starts. -/
def origin (t : FileTree) (p : Path) : List String :=
  if p.startsWith "/" then [] else t.here

/-- Where a path starts, provided its text can be followed at all. -/
def start (t : FileTree) (p : Path) : Except FileError (List String) :=
  if p.toList.contains '\x00' then .error .nulInName
  else if p = "" then .error .notFound
  else if longestPath < p.utf8ByteSize then .error .nameTooLong
  else .ok (t.origin p)

/-- Follows one part of a path from a folder. -/
def follow (t : FileTree) (here : List String) (part : String) :
    Except FileError (List String) :=
  match t.find? here with
  | none => .error .notFound
  | some (.file _) => .error .notFolder
  | some .folder =>
    if part = "" ∨ part = "." then .ok here
    else if part = ".." then .ok here.dropLast
    else if longestName < part.utf8ByteSize then .error .nameTooLong
    else if (t.find? (here ++ [part])).isSome then .ok (here ++ [part])
    else .error .notFound

/-- The names that a path leads to. -/
def resolve (t : FileTree) (p : Path) : Except FileError (List String) :=
  (t.start p).bind (p.parts.foldlM t.follow)

/-- What is at a path. -/
def at? (t : FileTree) (p : Path) : Option FileEntry :=
  match t.resolve p with
  | .ok names => t.find? names
  | .error _ => none

/-- Whether there is a folder at a path. -/
def isFolder (t : FileTree) (p : Path) : Bool :=
  t.at? p = some .folder

/-- The content of a file. -/
def read (t : FileTree) (p : Path) : Except FileError (List UInt8) :=
  match t.resolve p with
  | .error error => .error error
  | .ok names =>
    match t.find? names with
    | some (.file content) => .ok content
    | some .folder => .error .isFolder
    | none => .error .notFound

/-- The content of a file as text. -/
def readText (t : FileTree) (p : Path) : Except FileError String :=
  match t.read p with
  | .error error => .error error
  | .ok content =>
    match Text.ofBytes? content with
    | some text => .ok text
    | none => .error .notText

/-- Writes a file; its folder has to be there. Whatever ends in a slash or a dot part is taken for a
folder, whether it is there or not. -/
def write (t : FileTree) (p : Path) (content : List UInt8) : Except FileError FileTree := do
  let here ← t.start p
  match p.parts.reverse.dropWhile (· = "") with
  | [] => throw .isFolder
  | last :: before =>
    let folder ← before.reverse.foldlM t.follow here
    match t.find? folder with
    | none => throw .notFound
    | some (.file _) => throw .notFolder
    | some .folder =>
      if last = "." ∨ last = ".." ∨ p.endsWith "/" then throw .isFolder
      else if longestName < last.utf8ByteSize then throw .nameTooLong
      else if t.find? (folder ++ [last]) = some .folder then throw .isFolder
      else return t.put (folder ++ [last]) (.file content)

/-- The names in a folder. -/
def children (t : FileTree) (folder : List String) : List String :=
  t.entries.filterMap fun (names, _) =>
    match names.reverse with
    | last :: before => if before.reverse = folder then some last else none
    | [] => none

/-- The first parts of some names, from the shortest on. -/
def ancestors : List String → List (List String)
  | [] => []
  | name :: rest => [name] :: (ancestors rest).map (name :: ·)

/-- The names that a path would lead to if everything along it were there. -/
def locate (t : FileTree) (p : Path) : List String :=
  p.parts.foldl (fun here part =>
    if part = "" ∨ part = "." then here
    else if part = ".." then here.dropLast
    else here ++ [part]) (t.origin p)

/-- Adds an entry together with the folders that lead to it. -/
def add (t : FileTree) (p : Path) (entry : FileEntry) : FileTree :=
  let names := t.locate p
  let folders := ancestors names.dropLast
  let t := folders.foldl (fun t names =>
    if (t.find? names).isSome then t else t.put names .folder) t
  if names.isEmpty then t else t.put names entry

/-- The files below a folder that is found at a path, with their paths. The depth of the tree bounds
the search. -/
def filesBelow (t : FileTree) : (depth : Nat) → Path → List String → List Path
  | 0, _, _ => []
  | depth + 1, p, folder =>
    (t.children folder).flatMap fun name =>
      let names := folder ++ [name]
      match t.find? names with
      | some .folder => t.filesBelow depth (p.join name) names
      | _ => [p.join name]

/-- The most names that lead to any entry. -/
def depth (t : FileTree) : Nat :=
  (t.entries.map (·.1.length)).foldl max 0

/-- All files below the folder at a path, in the order of the names that lead to them; none if there
is no folder. -/
def walk (t : FileTree) (p : Path) : List Path :=
  match t.resolve p with
  | .error _ => []
  | .ok names =>
    if t.find? names = some .folder then
      (t.filesBelow (t.depth + 1) p names).mergeSort fun a b => compare a.names b.names ≠ .gt
    else []

end FileTree

end Formicary
