/-!
# Values of settings files

The values that a settings file can hold. Tables keep their entries in the order of the file and
also keep two entries of one name; what reads a table decides what to make of these.

A dotted key such as `a.b` makes an entry in a table of its own (`Value.dottedTable`), which only
further dotted keys can extend (`insertPath?`).
-/

namespace MailProtocol.Toml

/-- A value. -/
inductive Value where
  | string (s : String)
  | integer (n : Int)
  /-- A number with a fraction or an exponent, or one that is none. No setting is one. -/
  | float
  | boolean (b : Bool)
  /-- A date, a time or both. No setting is one. -/
  | dateTime
  | array (items : List Value)
  /-- A table in braces, or one with a header of its own. -/
  | table (entries : List (String × Value))
  /-- A table that dotted keys have made. -/
  | dottedTable (entries : List (String × Value))
deriving Inhabited

/-- The entries of a table, in order. -/
abbrev Entries := List (String × Value)

/-- Put another value in the place of the first one of this name. -/
def replaceFirst (name : String) (v : Value) : Entries → Entries
  | [] => []
  | (n, old) :: rest =>
    if n = name then (n, v) :: rest else (n, old) :: replaceFirst name v rest

/-- Add an entry whose dotted key is `path`. The parts of the key before the last must name tables
that dotted keys have made, or nothing yet. -/
def insertPath? (v : Value) : List String → Entries → Option Entries
  | [], _ => none
  | [name], entries => some (entries ++ [(name, v)])
  | name :: path, entries =>
    match entries.lookup name with
    | none => do return entries ++ [(name, .dottedTable (← insertPath? v path []))]
    | some (.dottedTable inner) => do
      return replaceFirst name (.dottedTable (← insertPath? v path inner)) entries
    | some _ => none

/-- The value of a name: none if there is no such entry, and an error if there are two. -/
def field? (entries : Entries) (name : String) : Option (Option Value) :=
  match entries.filter (·.1 = name) with
  | [] => some none
  | [(_, v)] => some (some v)
  | _ => none

end MailProtocol.Toml
