import Playbooks.Text.Pieces

/-!
# Files

The files and directories that commands work on, as a value. A place is the list of names that lead
to it from the working directory; entries are kept in the order of their places, so that a directory
is followed by what it holds, and two trees with the same entries are equal.

A file holds bytes, which need not be those of a text, and it may be closed to reading or writing.

Paths are texts. Reading a path takes name after name: two dots lead back, and what a path leads
through must be a directory that exists.

## Main definitions

* `Files.resolve` — the place of a path.
* `Files.read`, `Files.write`, `Files.makeDirs` — what commands do with files.
* `Files.changes` — the files of one tree that are new or different in another.
-/
namespace Playbooks

/-- Names from the working directory down. A place outside it begins with an empty name, for the
root, or with two dots for each directory that the working directory lies in. -/
abbrev Place := List String

namespace Place

def root : Place := [""]

/-- Whether a place is the working directory, the root, or a directory that the working directory
lies in. These are always there. -/
def isGiven (place : Place) : Bool :=
  place = root || place.all (· = "..")

/-- The directory that a place lies in. The root lies in itself. -/
def parent (place : Place) : Place :=
  if place = root then root
  else if place.isGiven then place ++ [".."]
  else place.dropLast

/-- The place that a name leads to. An empty name, as after a slash at the end of a path, and a
single dot stay where they are. -/
def step (place : Place) (name : List Char) : Place :=
  match name with
  | [] | ['.'] => place
  | ['.', '.'] => place.parent
  | name => place ++ [String.ofList name]

end Place

/-- What may be done with a file. -/
structure Access where
  read : Bool := true
  write : Bool := true
deriving DecidableEq

inductive Entry where
  | file (content : ByteArray) (access : Access := {})
  | directory

/-- A file that holds a text and is open to all. -/
def Entry.text (content : String) : Entry :=
  .file content.toUTF8

inductive FileError where
  | notFound
  | denied
  | occupied
  | notDirectory
  | isDirectory
  /-- The bytes of the file are not those of a text. -/
  | notText
deriving DecidableEq

def FileError.message : FileError → String
  | notFound => "No such file or directory (os error 2)"
  | denied => "Permission denied (os error 13)"
  | occupied => "File exists (os error 17)"
  | notDirectory => "Not a directory (os error 20)"
  | isDirectory => "Is a directory (os error 21)"
  | notText => "stream did not contain valid UTF-8"

/-- Entries in the order of their places. -/
structure Files where
  entries : List (Place × Entry) := []

/-- Where a path starts, and the names on it. -/
def pathNames (path : String) : Place × List (List Char) :=
  let names := Text.split ['/'] path.toList
  match path.toList with
  | '/' :: _ => (Place.root, names)
  | _ => ([], names)

namespace Files

/-- What stands at a place. -/
def get? (files : Files) (place : Place) : Option Entry :=
  if place.isGiven then some .directory else files.entries.lookup place

def insertEntry (place : Place) (entry : Entry) : List (Place × Entry) → List (Place × Entry)
  | [] => [(place, entry)]
  | (p, e) :: rest =>
    if place < p then (place, entry) :: (p, e) :: rest
    else if place = p then (place, entry) :: rest
    else (p, e) :: insertEntry place entry rest

def insert (files : Files) (place : Place) (entry : Entry) : Files :=
  ⟨insertEntry place entry files.entries⟩

theorem lookup_insertEntry (place other : Place) (entry : Entry)
    (entries : List (Place × Entry)) :
    (insertEntry place entry entries).lookup other
      = if other = place then some entry else entries.lookup other := by
  induction entries with
  | nil =>
    by_cases h : other = place
    · simp [insertEntry, h]
    · simp [insertEntry, List.lookup_cons, h, beq_eq_false_iff_ne.mpr h]
  | cons e rest ih =>
    obtain ⟨p, old⟩ := e
    by_cases h : other = place
    · subst h
      simp only [insertEntry]
      split
      · simp
      · split
        · simp
        · rename_i hne
          simp [List.lookup_cons, beq_eq_false_iff_ne.mpr hne, ih]
    · have differ := beq_eq_false_iff_ne.mpr h
      simp only [h, if_false] at ih
      simp only [insertEntry, h, if_false]
      split
      · simp [List.lookup_cons, differ]
      · split
        · rename_i heq
          subst heq
          simp [List.lookup_cons, differ]
        · simp [List.lookup_cons, ih]

/-- An entry put at a place is found there, and what stands at other places is as before. -/
theorem get?_insert (files : Files) (place other : Place) (entry : Entry)
    (h : place.isGiven = false) :
    (files.insert place entry).get? other
      = if other = place then some entry else files.get? other := by
  simp only [get?, insert, lookup_insertEntry]
  by_cases ho : other = place
  · subst ho; simp [h]
  · simp [ho]

/-- Follows names from a place. Only the last name can lead to nothing. -/
def follow (files : Files) (place : Place) : List (List Char) → Except FileError Place
  | [] => .ok place
  | name :: names =>
    match files.get? place with
    | none => .error .notFound
    | some (.file ..) => .error .notDirectory
    | some .directory => files.follow (place.step name) names

/-- The place a path leads to. -/
def resolve (files : Files) (path : String) : Except FileError Place :=
  if path.isEmpty then .error .notFound
  else
    let (start, names) := pathNames path
    files.follow start names

/-- What a path leads to. -/
def find (files : Files) (path : String) : Except FileError Entry := do
  let place ← files.resolve path
  match files.get? place with
  | some entry => pure entry
  | none => throw .notFound

def contains (files : Files) (path : String) : Bool :=
  (files.find path).isOk

def isFile (files : Files) (path : String) : Bool :=
  match files.find path with
  | .ok (.file ..) => true
  | _ => false

def isDirectory (files : Files) (path : String) : Bool :=
  match files.find path with
  | .ok .directory => true
  | _ => false

/-- The bytes of a file, and what may be done with it. -/
def source (files : Files) (path : String) : Except FileError (ByteArray × Access) := do
  match ← files.find path with
  | .file content access => if access.read then pure (content, access) else throw .denied
  | .directory => throw .isDirectory

/-- The text of a file. -/
def read (files : Files) (path : String) : Except FileError String := do
  let (content, _) ← files.source path
  match String.fromUTF8? content with
  | some text => pure text
  | none => throw .notText

/-- The place that a file is written at, and what may be done with the file there. A file is created
if its directory exists, and is open to all then. -/
def target (files : Files) (path : String) : Except FileError (Place × Access) := do
  let place ← files.resolve path
  match files.get? place with
  | none => pure (place, {})
  | some (.file _ access) => if access.write then pure (place, access) else throw .denied
  | some .directory => throw .isDirectory

/-- Puts a text in a file. -/
def write (files : Files) (path content : String) : Except FileError Files := do
  let (place, access) ← files.target path
  pure (files.insert place (.file content.toUTF8 access))

/-- Creates the directories on a way, from a place. -/
def makeDirsFrom (files : Files) (place : Place) : List (List Char) → Except FileError Files
  | [] => .ok files
  | name :: names =>
    let next := place.step name
    match files.get? next with
    | none => (files.insert next .directory).makeDirsFrom next names
    | some .directory => files.makeDirsFrom next names
    | some (.file ..) => .error .occupied

/-- Creates a directory and those it lies in, as far as they are missing. -/
def makeDirs (files : Files) (path : String) : Except FileError Files :=
  let (start, names) := pathNames path
  files.makeDirsFrom start names

/-- Copies a file, with what may be done with it, into another. -/
def copy (files : Files) (original duplicate : String) : Except FileError Files := do
  let (content, access) ← files.source original
  let (place, _) ← files.target duplicate
  pure (files.insert place (.file content access))

/-- The path of a place. -/
def pathOf (place : Place) : String :=
  "/".intercalate place

/-- The place of a path, whether there is something on the way or not. -/
def placeOf (path : String) : Place :=
  let (start, names) := pathNames path
  names.foldl Place.step start

/-- Puts an entry at the place of a path, and directories on the way to it. -/
def add (files : Files) (path : String) (entry : Entry) : Files :=
  let place := placeOf path
  let dirs := ((List.range place.length).map place.take).filter fun dir => !Place.isGiven dir
  (dirs.foldl (fun files dir => files.insert dir .directory) files).insert place entry

/-- A tree of files, with the directories they lie in. -/
def ofList (contents : List (String × String)) : Files :=
  contents.foldl (fun files (path, content) => files.add path (.text content)) {}

/-- The files that `after` holds and `before` does not, or not with the same bytes. -/
def changes (before after : Files) : List (String × ByteArray) :=
  after.entries.filterMap fun (place, entry) =>
    match entry, before.get? place with
    | .file content _, some (.file old _) =>
      if content.data = old.data then none else some (pathOf place, content)
    | .file content _, _ => some (pathOf place, content)
    | .directory, _ => none

end Files

end Playbooks
