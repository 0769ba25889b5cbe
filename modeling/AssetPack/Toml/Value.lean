import AssetPack.Decimal.Binary64

/-!
# Values of a configuration document

A document is a table of values, of the kinds that TOML 1.0 has. Tables keep their keys in the order in which they came to stand
there, and remember how they were written, since that decides who may still add to them: a table
in braces is closed, one with a header of its own is closed to dotted keys, one that only the
header of a table inside it implies is open to its own header, and one that dotted keys made is
open to further dotted keys. These are the rules of the format for tables, tables in braces and
dotted keys.
-/

set_option autoImplicit false

namespace AssetPack.Toml

/-- How a table came to be. -/
inductive TableKind where
  | braces
  | header
  | implied
  | dotted
  deriving DecidableEq, Repr

/-- A value. A point in time is kept as its normal text. -/
inductive Value where
  | string (s : String)
  | integer (n : Int)
  | float (f : Decimal.Binary64)
  | boolean (b : Bool)
  | time (text : String)
  | array (items : List Value)
  | table (kind : TableKind) (entries : List (String × Value))
  | tables (items : List (List (String × Value)))

/-- Keys and values, in order. -/
abbrev Entries := List (String × Value)

/-! ## Adding to tables -/

/-- Replaces the value of a key that is there. -/
def Entries.set (key : String) (v : Value) (es : Entries) : Entries :=
  es.map fun e => if e.1 = key then (key, v) else e

/-- The table at the end of a path, changed by `f`; tables on the way that are not there yet are
made. With `dotted` the path is that of a dotted key, which may not enter a table that has a header
of its own. The path enters the latest of several tables of one name. -/
def updateAt {α : Type} (dotted : Bool) (f : TableKind → Entries → Option (Entries × α)) :
    List String → TableKind → Entries → Option (Entries × α)
  | [], kind, es => f kind es
  | key :: path, _, es =>
    match es.lookup key with
    | none => do
      let kind := if dotted then TableKind.dotted else .implied
      let (inner, a) ← updateAt dotted f path kind []
      return (es ++ [(key, .table kind inner)], a)
    | some (.table kind inner) =>
      if kind = .braces ∨ (dotted ∧ kind = .header) then none
      else do
        let (inner, a) ← updateAt dotted f path kind inner
        return (es.set key (.table kind inner), a)
    | some (.tables items) => do
      let last ← items.getLast?
      let (inner, a) ← updateAt dotted f path .header last
      return (es.set key (.tables (items.dropLast ++ [inner])), a)
    | some _ => none

/-- The table with one more value, under a key that may be dotted. Only tables that dotted keys
made take values from a longer path. -/
def Entries.put (es : Entries) (path : List String) (key : String) (v : Value) :
    Option Entries := do
  let add (kind : TableKind) (es : Entries) : Option (Entries × Unit) :=
    if path ≠ [] ∧ kind ≠ .dotted then none
    else
      match es.lookup key with
      | some _ => none
      | none => some (es ++ [(key, v)], ())
  let (es, ()) ← updateAt true add path .header es
  return es

end AssetPack.Toml
