import MailProtocol.Config.Basic
import MailProtocol.Text.Utf8
import MailProtocol.Toml.Document

/-!
# Reading settings

A settings file has a section for each group of settings. Every section and every setting may be
missing, and has its default then. Names that are no settings are ignored, whatever they stand for;
a setting that is given twice, or has a value of the wrong kind, makes the file invalid.

A section may be written in any form of a table. It may also be an array, which holds its settings
by position, with the last ones left out. A date in the place of a section says nothing about it.
-/

namespace MailProtocol

/-- Why settings cannot be read. -/
inductive LoadError where
  /-- There is no file, or it is no text. -/
  | unreadable
  /-- The text is no settings file. -/
  | invalid
deriving DecidableEq, Repr

namespace Config

/-- A count, for which the default stands if there is no value. -/
def count? (default : Nat) : Option Toml.Value → Option Nat
  | none => some default
  | some (.integer n) => if 0 ≤ n then some n.toNat else none
  | some _ => none

/-- A switch. -/
def switch? (default : Bool) : Option Toml.Value → Option Bool
  | none => some default
  | some (.boolean b) => some b
  | some _ => none

/-- A text. -/
def text? (default : String) : Option Toml.Value → Option String
  | none => some default
  | some (.string s) => some s
  | some _ => none

/-- The values of the settings `names` in a section. -/
def settings? (names : List String) : Option Toml.Value → Option (List (Option Toml.Value))
  | none | some .dateTime => some (names.map fun _ => none)
  | some (.table entries) | some (.dottedTable entries) => names.mapM (Toml.field? entries)
  | some (.array items) =>
    if items.length ≤ names.length then
      some (items.map some ++ List.replicate (names.length - items.length) none)
    else none
  | some _ => none

/-- The limits of a section. -/
def limits? (section? : Option Toml.Value) : Option Limits := do
  let default : Limits := {}
  match ← settings? ["max_line_length", "max_literal_length", "read_chunk_size"] section? with
  | [line, literal, chunk] => return {
      maxLineLength := ← count? default.maxLineLength line
      maxLiteralLength := ← count? default.maxLiteralLength literal
      readChunkSize := ← count? default.readChunkSize chunk }
  | _ => none

/-- The timeouts of a section. -/
def timeouts? (section? : Option Toml.Value) : Option Timeouts := do
  let default : Timeouts := {}
  match ← settings? ["receive_ms", "send_ms"] section? with
  | [receive, send] => return {
      receiveMs := ← count? default.receiveMs receive
      sendMs := ← count? default.sendMs send }
  | _ => none

/-- The habits of a section. -/
def imap? (section? : Option Toml.Value) : Option ImapSettings := do
  let default : ImapSettings := {}
  match ← settings? ["literal_plus", "continuation_prompt"] section? with
  | [literalPlus, prompt] => return {
      literalPlus := ← switch? default.literalPlus literalPlus
      continuationPrompt := ← text? default.continuationPrompt prompt }
  | _ => none

/-- The settings of a file's entries. -/
def ofEntries? (entries : Toml.Entries) : Option Config := do
  return {
    limits := ← limits? (← Toml.field? entries "limits")
    timeouts := ← timeouts? (← Toml.field? entries "timeouts")
    imap := ← imap? (← Toml.field? entries "imap") }

/-- The settings in a file's content, of which there is none if there is no such file. -/
def load (content : Option Bytes) : Except LoadError Config :=
  match content.bind Utf8.read? with
  | none => .error .unreadable
  | some text =>
    match (Toml.Document.parse? text).bind ofEntries? with
    | none => .error .invalid
    | some config => .ok config

end Config

end MailProtocol
