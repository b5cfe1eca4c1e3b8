import Playbooks.Number.Basic

/-!
# Terms of emitted programs

A compiled playbook is a Rust program. It needs few forms of expressions: paths, literals, calls,
struct literals, closures, vectors and tuples, and a comment before an expression.
-/
namespace Playbooks

/-- Keywords that an identifier can spell in raw form. -/
def rawKeywords : List String :=
  ["abstract", "as", "async", "await", "become", "box", "break", "const", "continue", "do", "dyn",
    "else", "enum", "extern", "false", "final", "fn", "for", "gen", "if", "impl", "in", "let", "loop",
    "macro", "match", "mod", "move", "mut", "override", "priv", "pub", "ref", "return", "static",
    "struct", "trait", "true", "try", "type", "typeof", "unsafe", "unsized", "use", "virtual", "where",
    "while", "yield"]

/-- Words that are no identifiers in any form. -/
def reservedIdents : List String :=
  ["_", "crate", "self", "Self", "super"]

/-- An identifier of the emitted program. -/
structure Ident where
  text : String
deriving DecidableEq

namespace Ident

/-- The identifier of a name in kebab-case: hyphens become underscores, and a keyword is written in
raw form. A name that cannot be an identifier has none. -/
def ofKebab? (name : String) : Option Ident :=
  let cs := name.toList.map fun c => if c = '-' then '_' else c
  let word := String.ofList cs
  let valid := match cs with
    | [] => false
    | c :: rest => (c.isAlpha || c == '_') && rest.all fun c => c.isAlphanum || c == '_'
  if !valid || reservedIdents.contains word then none
  else if rawKeywords.contains word then some ⟨"r#" ++ word⟩
  else some ⟨word⟩

/-- Stands where nothing valid can. It is defined nowhere, so that the program does not build. -/
def sentinel : Ident := ⟨"__bosun_invalid_identifier__"⟩

end Ident

inductive Literal where
  | string (s : String)
  | int (i : Int64)
  | float (x : Float)
  | bool (b : Bool)

inductive Term where
  | path (name : String)
  | lit (literal : Literal)
  | call (callee : Term) (args : List Term)
  | method (receiver : Term) (name : Ident) (args : List Term)
  | record (path : String) (fields : List (Ident × Term)) (rest : Option Term)
  | closure (params : List Ident) (body : Term)
  | vector (items : List Term)
  | tuple (items : List Term)
  | commented (comment : String) (term : Term)

namespace Term

def string (s : String) : Term :=
  .lit (.string s)

/-- A call of a path. -/
def apply (callee : String) (args : List Term) : Term :=
  .call (.path callee) args

/-- The sentinel, with a comment on what could not be resolved. -/
def invalid (comment : String) : Term :=
  .commented comment (.path Ident.sentinel.text)

end Term

/-- A function without parameters whose body is one expression. -/
structure ProgramFunction where
  name : Ident
  output : Option String := none
  body : Term

/-- A source file: comment lines, imported paths and functions. -/
structure Program where
  header : List String := []
  uses : List String := []
  functions : List ProgramFunction := []

end Playbooks
