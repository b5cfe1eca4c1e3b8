import Playbooks.Number.Reader

/-!
# Settings documents

The part of TOML that settings are written in: tables, and in them keys with strings, integers and
booleans. A document is kept flat, each value under the whole list of keys that leads to it.
-/
namespace Playbooks.Toml

inductive Scalar where
  | string (s : String)
  | integer (i : Int)
  | boolean (b : Bool)
deriving DecidableEq

/-- Keys from the top of a document down. -/
abbrev Keys := List String

structure Document where
  /-- The values, in the order they are written. -/
  entries : List (Keys × Scalar) := []
  /-- The tables that have a header. -/
  headers : List Keys := []
  /-- The tables that are opened by a dotted key. -/
  dotted : List Keys := []

namespace Document

def get? (d : Document) (keys : Keys) : Option Scalar :=
  d.entries.lookup keys

/-- Whether the keys lead to a table. -/
def isTable (d : Document) (keys : Keys) : Bool :=
  d.headers.any keys.isPrefixOf || d.entries.any fun (k, _) => keys.isPrefixOf k && k ≠ keys

/-- Whether a value stands on the way that the keys lead, its end included. -/
def meetsValue (d : Document) (keys : Keys) : Bool :=
  d.entries.any fun (k, _) => k.isPrefixOf keys

/-- Begins a table. A table has one header, and no header if a dotted key opened it. -/
def addHeader? (d : Document) (keys : Keys) : Option Document :=
  if d.headers.contains keys || d.dotted.contains keys || d.meetsValue keys then none
  else some { d with headers := d.headers ++ [keys] }

/-- The tables between a table and a key with dots in it. -/
def between (table key : Keys) : List Keys :=
  ((List.range key.length).drop 1).map fun n => table ++ key.take n

/-- Adds a value under a key of a table. A key has one value, and a key with dots does not reach
into a table that has a header. -/
def add? (d : Document) (table key : Keys) (value : Scalar) : Option Document :=
  let keys := table ++ key
  let opened := between table key
  if d.meetsValue keys || d.isTable keys || opened.any d.headers.contains then none
  else some { d with entries := d.entries ++ [(keys, value)], dotted := d.dotted ++ opened }

end Document

end Playbooks.Toml
