import Playbooks.Compile.Settings

/-!
# The package of a program

A program is built as a package of its own, in a directory next to the output. The package is named
after the output.
-/
namespace Playbooks

/-- Where the text of a program is written. -/
def sourcePath (output : String) : String :=
  output ++ ".rs"

/-- Where the package of a program is laid out. -/
def packagePath (output : String) : String :=
  output ++ ".build"

/-- The last name of a path, if it is the name of a file. -/
def fileName? (path : List Char) : Option (List Char) :=
  let names := (Text.split ['/'] path).filter fun name => name ≠ [] ∧ name ≠ ['.']
  match names.getLast? with
  | some ['.', '.'] => none
  | name => name

/-- A name without its extension, which starts at the last dot; a dot in front starts none. -/
def stem (name : List Char) : List Char :=
  match (name.reverse.dropWhile (· ≠ '.')).drop 1 with
  | [] => name
  | rest => rest.reverse

/-- Letters, digits, hyphens and underscores make up the names of packages. -/
def isPackageChar (c : Char) : Bool :=
  c.isAlphanum || c = '-' || c = '_'

/-- The name of the package for an output: the name of the file without its extension, with other
characters replaced, and a letter in front. -/
def packageName (output : String) : String :=
  let name := (((fileName? output.toList).map stem).getD []).map
    fun c => if isPackageChar c then c else '-'
  match name with
  | c :: _ => if c.isAlpha then String.ofList name else "playbook-" ++ String.ofList name
  | [] => "playbook-"

/-- The manifest of a package. -/
def manifest (package : String) (s : Settings) : String :=
  "[package]\nname = \"" ++ package ++ "\"\nversion = \"0.1.0\"\nedition = \"2024\"\n"
    ++ "publish = false\n\n[[bin]]\nname = \"" ++ package ++ "\"\npath = \"src/main.rs\"\n\n"
    ++ "[dependencies]\n" ++ s.emit.runtimePackage ++ " = " ++ s.build.runtimeDependency
    ++ "\n\n[workspace]\n"

end Playbooks
