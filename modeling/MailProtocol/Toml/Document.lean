import MailProtocol.Toml.Parser

/-!
# Settings files as a whole

`Document.parse?` reads a settings file into the entries of one table. Entries before the first
header are the table's own. A header `[a.b]` begins a table inside of `a`, in whatever order headers
come, and `[[a.b]]` begins a further table of an array; under a name that holds an array, headers
speak of its last table. No header may come twice, and no name can be a table by one header and an
array by another.

A table's own entries and the tables that headers begin inside of it are kept apart, so one name may
stand for one of each. Own entries come first.
-/

namespace MailProtocol.Toml

mutual

/-- A table with a header, or one that only lies on the way to others. -/
inductive Section where
  /-- `own` are the entries under the header, if there has been one. -/
  | mk (own : Option Entries) (parts : List Part)

/-- What a name of a section stands for. -/
inductive Part where
  | table (name : String) (s : Section)
  /-- An array of tables, of which there always is a last one. -/
  | array (name : String) (earlier : List Section) (last : Section)

end

namespace Section

/-- Nothing. -/
def empty : Section := mk none []

/-- The section with these entries and nothing else. -/
def ofEntries (entries : Entries) : Section := mk (some entries) []

/-- The entries under the section's header. -/
def own : Section → Option Entries
  | mk own _ => own

/-- What the names of the section stand for. -/
def parts : Section → List Part
  | mk _ parts => parts

end Section

/-- The name of a part. -/
def Part.name : Part → String
  | table name _ | array name _ _ => name

/-- Put another part in the place of the one of its name, or at the end. -/
def Part.put (p : Part) : List Part → List Part
  | [] => [p]
  | q :: rest => if q.name = p.name then p :: rest else q :: p.put rest

namespace Section

/-- What the last name of a header comes to stand for. -/
def define? (inArray : Bool) (name : String) (entries : Entries) : Option Part → Option Part
  | none =>
    some (if inArray then .array name [] (ofEntries entries) else .table name (ofEntries entries))
  | some (.table _ s) =>
    if inArray ∨ s.own.isSome then none else some (.table name (mk entries s.parts))
  | some (.array _ earlier last) =>
    if inArray then some (.array name (earlier ++ [last]) (ofEntries entries)) else none

/-- Add the entries under a header. -/
def insert? (inArray : Bool) (entries : Entries) : List String → Section → Option Section
  | [], _ => none
  | [name], s => do
    let part ← define? inArray name entries (s.parts.find? (·.name = name))
    return mk s.own (part.put s.parts)
  | name :: path, s => do
    let part ← match s.parts.find? (·.name = name) with
      | none => (insert? inArray entries path empty).map (Part.table name)
      | some (.table _ inner) => (insert? inArray entries path inner).map (Part.table name)
      | some (.array _ earlier last) =>
        (insert? inArray entries path last).map (Part.array name earlier)
    return mk s.own (part.put s.parts)

mutual

/-- The entries of a section, its own first. -/
def entries : Section → Entries
  | mk own parts => own.getD [] ++ partEntries parts

/-- The entries that parts make. -/
def partEntries : List Part → Entries
  | [] => []
  | .table name s :: rest => (name, .table s.entries) :: partEntries rest
  | .array name earlier last :: rest =>
    (name, .array (tables earlier ++ [.table last.entries])) :: partEntries rest

/-- Sections as values. -/
def tables : List Section → List Value
  | [] => []
  | s :: rest => .table s.entries :: tables rest

end

end Section

/-! ## Files -/

/-- The entries between two headers. -/
structure Block where
  path : List String
  inArray : Bool
  entries : Entries := []

/-- Blocks that have been read, newest first: the one that lines are added to, and those before. -/
abbrev Blocks := Block × List Block

/-- Add a line. -/
def Block.add? (blocks : Blocks) : Line → Option Blocks
  | .header path inArray => some ({ path, inArray }, blocks.1 :: blocks.2)
  | .entry path v => do
    return ({ blocks.1 with entries := ← insertPath? v path blocks.1.entries }, blocks.2)

/-- The entries of a settings file. -/
def Document.parse? (s : String) : Option Entries := do
  let lines ← lines? (← Token.scan? s)
  let (last, before) ← lines.foldlM Block.add? ({ path := [], inArray := false }, [])
  let whole ← (last :: before).reverse.foldlM (fun whole b =>
    match b.path with
    | [] => some (Section.ofEntries b.entries)
    | path => Section.insert? b.inArray b.entries path whole) Section.empty
  return whole.entries

end MailProtocol.Toml
