import PayzenoLedger.Domain.Fx
import PayzenoLedger.Library.Csv
import PayzenoLedger.Library.Numerals

/-!
# The settlement files of the acquirers

Worldflow sends comma-separated values whose columns are read by name, Nordpay records of
fixed width whose amounts are decimal texts.  A malformed file is meant to be refused with a
validation error; a row without an acquirer reference is skipped with a line in the log.
-/

set_option autoImplicit false

namespace PayzenoLedger

open Library

/-- The methods of text whose tables are those of Unicode. -/
structure TextMethods where
  upper : String → String
  lower : String → String
  repr : String → String

/-- `LINE_TYPE_BY_CODE`. -/
def lineTypeByCode : String → Option LineType
  | "SL" => some .sale
  | "RF" => some .refund
  | "CB" => some .chargeback
  | "CR" => some .chargebackReversal
  | "SF" => some .schemeFee
  | "AD" => some .adjustment
  | "RH" => some .reserveHold
  | "RL" => some .reserveRelease
  | _ => none

/-- `LINE_TYPE_BY_CODE.values()`. -/
def lineTypeByName (name : String) : Option LineType :=
  [.sale, .refund, .chargeback, .chargebackReversal, .schemeFee, .adjustment, .reserveHold,
    .reserveRelease].find? fun lineType => lineType.toString == name

section

variable (methods : TextMethods)

/-- A code or the name of a line type, in either case. -/
def knownLineType (code : String) : Option LineType :=
  match lineTypeByCode (methods.upper (stripped code)) with
  | some lineType => some lineType
  | none => lineTypeByName (methods.lower (stripped code))

namespace SettlementFileParser

/-- `_line_type`. -/
def lineType (code : String) : Except Exception LineType :=
  match knownLineType methods code with
  | some lineType => .ok lineType
  | none =>
      .error (ledgerError .validationError ("unknown settlement line type " ++ methods.repr code)
        [("line_type", .text code)])

/-- `_int`. -/
def int : Option String → Except Exception Int
  | none => .ok 0
  | some raw =>
      if raw = "" then .ok 0
      else
        match parseInt raw with
        | some value => .ok value
        | none =>
            .error (ledgerError .validationError
              ("non-integer minor amount " ++ methods.repr raw) [("value", .text raw)])

end SettlementFileParser

namespace WorldflowCsvParser

open SettlementFileParser

def acquirer : String := "worldflow"

/-- `REQUIRED_COLUMNS`, in order. -/
def requiredColumns : List String :=
  ["acquirer_reference", "currency", "gross_minor", "line_type", "net_minor"]

/-- `raw.decode("utf-8-sig")`: the byte order mark is dropped. -/
def decode (raw : ByteArray) : Option (List Char) :=
  match String.fromUTF8? raw with
  | none => none
  | some text =>
      match text.toList with
      | '\uFEFF' :: rest => some rest
      | chars => some chars

/-- One row of the file; a row without a reference is skipped. -/
def parseRow (row : List (String × Option String)) :
    Except Exception (Option ParsedSettlementLine) := do
  match Csv.get row "acquirer_reference" with
  | none | some "" => pure none
  | some reference =>
      let currency := match Csv.get row "currency" with
        | none | some "" => "USD"
        | some currency => currency
      let network := stripped ((Csv.get row "network_reference").getD "")
      let lineType ← match Csv.find row "line_type" with
        | none => throw (.builtin .keyError)
        | some none => throw (.builtin .attributeError)
        | some (some code) => SettlementFileParser.lineType methods code
      let grossMinor ← int methods (Csv.get row "gross_minor")
      let feeMinor ← int methods (Csv.get row "fee_minor")
      let interchangeMinor ← int methods (Csv.get row "interchange_minor")
      let schemeFeeMinor ← int methods (Csv.get row "scheme_fee_minor")
      let netMinor ← int methods (Csv.get row "net_minor")
      pure (some
        { acquirerReference := stripped reference
          networkReference := if network = "" then none else some network
          lineType, grossMinor, feeMinor, interchangeMinor, schemeFeeMinor, netMinor
          currency := methods.upper (stripped currency) })

def parseRows (header : List String) :
    List (List String) → Except Exception (List ParsedSettlementLine)
  | [] => pure []
  | cells :: rows => do
      let line ← parseRow methods (Csv.dictRow header cells)
      let lines ← parseRows header rows
      match line with
      | none => pure lines
      | some line => pure (line :: lines)

/-- `WorldflowCsvParser.parse`.  The reader is asked for one row after the other, so what
it fails with is raised after the rows before. -/
def parse (raw : ByteArray) : Except Exception (List ParsedSettlementLine) :=
  match decode raw with
  | none => .error (.valueError "UnicodeDecodeError")
  | some text =>
      let (rows, failure) := Csv.rows text
      match rows, failure with
      | [], some _ => .error (.builtin .csvError)
      | [], none =>
          .error (ledgerError .validationError "settlement file has no header row"
            [("acquirer", .text acquirer)])
      | header :: rows, failure =>
          let missing := requiredColumns.filter fun column => column ∉ header.map stripped
          if missing ≠ [] then
            .error (ledgerError .validationError "settlement file is missing required columns"
              [("acquirer", .text acquirer), ("missing", .list (missing.map Json.text))])
          else do
            -- Blank lines are no rows.
            let lines ← parseRows methods header (rows.filter fun cells => cells ≠ [])
            match failure with
            | some _ => throw (.builtin .csvError)
            | none => pure lines

end WorldflowCsvParser

end

/-! ## Fixed width -/

section

-- `CURRENCY_EXPONENT` of the contracts.
variable (exponents : String → Option Nat)

/-- `to_minor`: only the reading of the text is guarded. -/
def toMinor (amount : List Char) (currency : String) : Except Exception Int := do
  let exponent ← exponentFor exponents currency
  match Numeral.parse amount with
  | none =>
      throw (ruleError .validationError "amount is not a decimal"
        [("amount", .text (String.ofList amount)), ("currency", .text currency)])
  | some .quietNaN => throw (.valueError "cannot convert NaN to integer")
  | some .signalingNaN => throw (.builtin .arithmeticError)
  | some .infinite => throw (.builtin .arithmeticError)
  | some (.finite value) =>
      match (Decimal.scaleb decimalPrecision exponent value).quantize decimalPrecision 0 with
      | none => throw (.builtin .arithmeticError)
      | some quantised => pure quantised.coefficient

variable (methods : TextMethods)

namespace LegacyFixedWidthParser

def acquirer : String := "nordpay"

/-- `RECORD_LENGTH`. -/
def recordLength : Nat := 105

/-- `raw.decode("latin-1")`. -/
def decode (raw : ByteArray) : List Char :=
  raw.data.toList.map fun byte => Char.ofNat byte.toNat

/-- `record[start:stop].strip()`. -/
def field (start stop : Nat) (record : List Char) : List Char :=
  strip ((record.drop start).take (stop - start))

/-- A field that may be left out, which is nought. -/
def orZero (text : List Char) : List Char :=
  if text = [] then ['0'] else text

/-- The currency of a record. -/
def currencyOf (record : List Char) : String :=
  let currency := methods.upper (String.ofList (field 102 105 record))
  if currency = "" then "EUR" else currency

/-- The header and the trailer. -/
def isControl (record : List Char) : Bool :=
  "HDR".toList.isPrefixOf record || "TRL".toList.isPrefixOf record

/-- A blank record and the control records are no lines. -/
def isSkipped (record : List Char) : Bool :=
  (strip record).isEmpty || isControl record

def parseRecord (rowNumber : Nat) (record : List Char) :
    Except Exception (Option ParsedSettlementLine) := do
  if isSkipped record then pure none
  else if record.length < recordLength then
    throw (ledgerError .validationError "fixed-width settlement record is short"
      [("acquirer", .text acquirer), ("row", .int rowNumber), ("length", .int record.length),
       ("expected", .int recordLength)])
  else
    let currency := currencyOf methods record
    let network := field 20 40 record
    let lineType ← SettlementFileParser.lineType methods
      (String.ofList ((record.drop 40).take 2))
    let grossMinor ← toMinor exponents (field 42 54 record) currency
    let feeMinor ← toMinor exponents (orZero (field 54 66 record)) currency
    let interchangeMinor ← toMinor exponents (orZero (field 66 78 record)) currency
    let schemeFeeMinor ← toMinor exponents (orZero (field 78 90 record)) currency
    let netMinor ← toMinor exponents (field 90 102 record) currency
    pure (some
      { acquirerReference := String.ofList (field 0 20 record)
        networkReference := if network = [] then none else some (String.ofList network)
        lineType, grossMinor, feeMinor, interchangeMinor, schemeFeeMinor, netMinor, currency })

def parseRecords (rowNumber : Nat) :
    List (List Char) → Except Exception (List ParsedSettlementLine)
  | [] => pure []
  | record :: records => do
      let line ← parseRecord exponents methods rowNumber record
      let lines ← parseRecords (rowNumber + 1) records
      match line with
      | none => pure lines
      | some line => pure (line :: lines)

/-- `LegacyFixedWidthParser.parse`. -/
def parse (raw : ByteArray) : Except Exception (List ParsedSettlementLine) :=
  parseRecords exponents methods 1 (splitLines (decode raw))

end LegacyFixedWidthParser

end

/-! ## Answers -/

namespace SettlementFileParser

/-- The parser raises a validation error. -/
def Rejected {α : Type} (result : Except Exception α) : Prop :=
  ∃ raised, result = .error raised ∧ raised.isInstance .validationError = true

/-- The parser raises a validation error or answers so. -/
def RejectedOr {α : Type} (result : Except Exception α) (answered : α → Prop) : Prop :=
  Rejected result ∨ ∃ answer, result = .ok answer ∧ answered answer

theorem rejectedOr_bind {α β : Type} {result : Except Exception α} {answered : α → Prop}
    {next : α → Except Exception β} {answered' : β → Prop} (h : RejectedOr result answered)
    (hnext : ∀ answer, answered answer → RejectedOr (next answer) answered') :
    RejectedOr (result >>= next) answered' := by
  rcases h with ⟨raised, rfl, hraised⟩ | ⟨answer, rfl, hanswer⟩
  · exact .inl ⟨raised, rfl, hraised⟩
  · exact hnext answer hanswer

theorem lineType_rejectedOr {methods : TextMethods} (code : String) :
    RejectedOr (lineType methods code) fun known =>
      knownLineType methods code = some known := by
  unfold lineType
  split
  · next known hknown => exact .inr ⟨known, rfl, hknown⟩
  · exact .inl ⟨_, rfl, rfl⟩

end SettlementFileParser

end PayzenoLedger
