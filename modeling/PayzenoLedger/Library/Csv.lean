import PayzenoLedger.Library.Strings

/-!
# Comma-separated values

The reader of the `csv` module in its default dialect: a machine over the characters of
a line and the end of the line, which gathers the cells of one row.  A quoted cell may go on
in the next line; the end of the text closes it.  Rows are read by name through the names in
the first row.
-/

set_option autoImplicit false

namespace PayzenoLedger.Library

namespace Csv

/-- Where the reader stands in a row. -/
inductive Position where
  | startRecord
  | startField
  | inField
  | inQuotedField
  | quoteInQuotedField
  | eatCrnl
deriving DecidableEq, Repr

/-- Why the reader gives up. -/
inductive Failure where
  | fieldTooLong
  | newlineInUnquotedField
deriving DecidableEq, Repr

structure Reader where
  position : Position := .startRecord
  field : List Char := []
  fields : List String := []
deriving DecidableEq, Repr

/-- `field_size_limit`. -/
def fieldSizeLimit : Nat := 131072

namespace Reader

/-- `parse_save_field`. -/
def saveField (reader : Reader) (position : Position) : Reader :=
  { position, field := [], fields := reader.fields ++ [String.ofList reader.field] }

/-- `parse_add_char`. -/
def addChar (reader : Reader) (char : Char) (position : Position) : Except Failure Reader :=
  if fieldSizeLimit ≤ reader.field.length then .error .fieldTooLong
  else .ok { reader with position, field := reader.field ++ [char] }

/-- A character where a cell may start. -/
def startField (reader : Reader) : Option Char → Except Failure Reader
  | none => .ok (reader.saveField .startRecord)
  | some '\n' => .ok (reader.saveField .eatCrnl)
  | some '\r' => .ok (reader.saveField .eatCrnl)
  | some '"' => .ok { reader with position := .inQuotedField }
  | some ',' => .ok (reader.saveField .startField)
  | some char => reader.addChar char .inField

/-- `parse_process_char`; `none` is the end of the line. -/
def processChar (reader : Reader) (next : Option Char) : Except Failure Reader :=
  match reader.position with
  | .startRecord =>
      match next with
      | none => .ok reader
      | some '\n' => .ok { reader with position := .eatCrnl }
      | some '\r' => .ok { reader with position := .eatCrnl }
      | some char => reader.startField (some char)
  | .startField => reader.startField next
  | .inField =>
      match next with
      | none => .ok (reader.saveField .startRecord)
      | some '\n' => .ok (reader.saveField .eatCrnl)
      | some '\r' => .ok (reader.saveField .eatCrnl)
      | some ',' => .ok (reader.saveField .startField)
      | some char => reader.addChar char .inField
  | .inQuotedField =>
      match next with
      | none => .ok reader
      | some '"' => .ok { reader with position := .quoteInQuotedField }
      | some char => reader.addChar char .inQuotedField
  | .quoteInQuotedField =>
      match next with
      | none => .ok (reader.saveField .startRecord)
      | some '"' => reader.addChar '"' .inQuotedField
      | some ',' => .ok (reader.saveField .startField)
      | some '\n' => .ok (reader.saveField .eatCrnl)
      | some '\r' => .ok (reader.saveField .eatCrnl)
      | some char => reader.addChar char .inField
  | .eatCrnl =>
      match next with
      | none => .ok { reader with position := .startRecord }
      | some '\n' => .ok reader
      | some '\r' => .ok reader
      | some _ => .error .newlineInUnquotedField

def processLine (reader : Reader) (line : List Char) : Except Failure Reader := do
  let reader ← line.foldlM (fun reader char => reader.processChar (some char)) reader
  reader.processChar none

end Reader

/-- The lines of a text, each with its line feed. -/
def lines : List Char → List (List Char)
  | [] => []
  | '\n' :: rest => ['\n'] :: lines rest
  | char :: rest =>
      match lines rest with
      | [] => [[char]]
      | line :: more => (char :: line) :: more

/-- The rows up to the failure of the reader, or all of them. -/
def readRows (reader : Reader) : List (List Char) → List (List String) × Option Failure
  | [] =>
      if reader.field ≠ [] ∨ reader.position = .inQuotedField then
        ([(reader.saveField .startRecord).fields], none)
      else ([], none)
  | line :: more =>
      match reader.processLine line with
      | .error failure => ([], some failure)
      | .ok reader =>
          if reader.position = .startRecord then
            let (rows, failure) := readRows {} more
            (reader.fields :: rows, failure)
          else readRows reader more

/-- `csv.reader` over a text. -/
def rows (text : List Char) : List (List String) × Option Failure :=
  readRows {} (lines text)

/-- One row of a `DictReader`: a cell for every name, or none where the row is short. -/
def dictRow : List String → List String → List (String × Option String)
  | [], _ => []
  | name :: names, [] => (name, none) :: dictRow names []
  | name :: names, cell :: cells => (name, some cell) :: dictRow names cells

/-- The cell under a name, that of the last column where two have the name. -/
def find (row : List (String × Option String)) (name : String) : Option (Option String) :=
  row.reverse.lookup name

/-- `row.get`. -/
def get (row : List (String × Option String)) (name : String) : Option String :=
  (find row name).join

example : rows "a,\"b\nc\"\r\n\n\"d".toList = ([["a", "b\nc"], [], ["d"]], none) := by decide

example : rows "a\rb".toList = ([], some .newlineInUnquotedField) := by decide

end Csv

end PayzenoLedger.Library
