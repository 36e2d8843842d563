import PayzenoLedger.Settlement.CsvFiles

/-!
# Files of fixed width

A Nordpay file is the records of its lines between a header and a trailer.  The records are
told apart by every line break that Python knows and the header and the trailer by their first
letters, so the parser gives back the lines whose references hold no line break and do not
begin as a control record does.  An amount that is no finite number, or too large a one,
raises what is not a validation error.
-/

set_option autoImplicit false

namespace PayzenoLedger

open Library

namespace LegacyFixedWidthParser

open SettlementFileParser

/-! ## The format -/

/-- The code of a line type. -/
def codeOf : LineType → List Char
  | .sale => "SL".toList
  | .refund => "RF".toList
  | .chargeback => "CB".toList
  | .chargebackReversal => "CR".toList
  | .schemeFee => "SF".toList
  | .adjustment => "AD".toList
  | .reserveHold => "RH".toList
  | .reserveRelease => "RL".toList

section

variable (exponents : String → Option Nat)

def placesOf (currency : String) : Nat :=
  (exponents currency).getD 0

/-- An amount as a decimal text of the places of its currency. -/
def encodeAmount (currency : String) (minor : Int) : List Char :=
  Numeral.write (placesOf exponents currency) minor

/-- The fields of a record, in order. -/
def segments (line : ParsedSettlementLine) : List (List Char) :=
  [ljust 20 line.acquirerReference.toList, ljust 20 (line.networkReference.getD "").toList,
    codeOf line.lineType, ljust 12 (encodeAmount exponents line.currency line.grossMinor),
    ljust 12 (encodeAmount exponents line.currency line.feeMinor),
    ljust 12 (encodeAmount exponents line.currency line.interchangeMinor),
    ljust 12 (encodeAmount exponents line.currency line.schemeFeeMinor),
    ljust 12 (encodeAmount exponents line.currency line.netMinor), line.currency.toList]

/-- The record of a line. -/
def encodeLine (line : ParsedSettlementLine) : List Char :=
  (segments exponents line).flatten

/-- Each record on a line of its own. -/
def encodeLines (lines : List ParsedSettlementLine) : List Char :=
  lines.flatMap fun line => encodeLine exponents line ++ ['\n']

def encode (text : List Char) : ByteArray :=
  ⟨(text.map fun char => UInt8.ofNat char.toNat).toArray⟩

/-- The file between a header and a trailer. -/
def encodeFile (header trailer : List Char) (lines : List ParsedSettlementLine) : ByteArray :=
  encode (header ++ '\n' :: (encodeLines exponents lines ++ trailer))

/-- A text of the encoding of the file. -/
def Latin (text : List Char) : Prop :=
  ∀ char ∈ text, char.toNat < 256

/-- A reference that its field has room for, without blanks at its ends. -/
structure FitsReference (text : List Char) : Prop where
  length : text.length ≤ 20
  latin : Latin text
  leading : text.head? ≠ some ' '
  trailing : text.getLast? ≠ some ' '

/-- A line that the layout of the record can hold. -/
structure Representable (line : ParsedSettlementLine) : Prop where
  reference : FitsReference line.acquirerReference.toList
  network : ∀ reference, line.networkReference = some reference →
    reference ≠ "" ∧ FitsReference reference.toList
  supported : ∃ places, exponents line.currency = some places
  letters : line.currency.toList.length = 3
  capitals : ∀ char ∈ line.currency.toList, char.isUpper = true
  amounts : ∀ minor ∈ [line.grossMinor, line.feeMinor, line.interchangeMinor,
    line.schemeFeeMinor, line.netMinor],
    (encodeAmount exponents line.currency minor).length ≤ 12

end

/-- A header or a trailer, which the file holds on a line of its own. -/
structure ControlRecord (text : List Char) : Prop where
  latin : Latin text
  oneLine : ∀ char ∈ text, isLineBreak char = false
  tagged : isControl text = true

/-- A reference without white space at its ends and without line breaks. -/
def PlainReference (text : List Char) : Prop :=
  strip text = text ∧ ∀ char ∈ text, isLineBreak char = false

/-- A line whose references are read back, and which is not taken for a control record. -/
structure Unmistakable (line : ParsedSettlementLine) : Prop where
  reference : PlainReference line.acquirerReference.toList
  network : ∀ reference, line.networkReference = some reference →
    PlainReference reference.toList
  notControl : isControl line.acquirerReference.toList = false

variable {exponents : String → Option Nat} {methods : TextMethods} {line : ParsedSettlementLine}
  {lines : List ParsedSettlementLine} {text header trailer : List Char}

theorem decode_encode (latin : Latin text) : decode (encode text) = text := by
  unfold decode encode
  dsimp only
  rw [List.map_map]
  conv_rhs => rw [← List.map_id text]
  refine List.map_congr_left fun char hchar => ?_
  have hsmall : (UInt8.ofNat char.toNat).toNat = char.toNat :=
    Nat.mod_eq_of_lt (latin char hchar)
  change Char.ofNat (UInt8.ofNat char.toNat).toNat = char
  rw [hsmall, Char.ofNat_toNat]

theorem ControlRecord.ne_nil (control : ControlRecord text) : text ≠ [] := by
  rintro rfl
  cases control.tagged

/-- A capital letter ends no line and is no white space. -/
theorem capital_plain {char : Char} (h : char.isUpper = true) :
    isLineBreak char = false ∧ isSpace char = false ∧ char.toNat < 256 := by
  have hall : ∀ code < 91, 65 ≤ code → isLineBreak (Char.ofNat code) = false ∧
      isSpace (Char.ofNat code) = false := by decide
  unfold Char.isUpper at h
  rw [decide_eq_true_eq] at h
  have hlow : 65 ≤ char.toNat := h.1
  have hhigh : char.toNat ≤ 90 := h.2
  obtain ⟨hbreak, hspace⟩ := hall char.toNat (by omega) hlow
  rw [Char.ofNat_toNat] at hbreak hspace
  exact ⟨hbreak, hspace, by omega⟩

/-- A capital letter, a digit, a sign, a point or a blank. -/
def Inert (char : Char) : Prop :=
  char.isUpper = true ∨ Numeral.Plain char ∨ char = ' '

theorem Inert.plain {char : Char} (h : Inert char) :
    isLineBreak char = false ∧ char.toNat < 256 := by
  rcases h with h | h | rfl
  · exact ⟨(capital_plain h).1, (capital_plain h).2.2⟩
  · have hall : ("0123456789-.".toList.all fun char =>
        !isLineBreak char && decide (char.toNat < 256)) = true := by decide
    simpa using List.all_eq_true.mp hall char h.mem
  · decide

theorem inert_ljust {width : Nat} (h : ∀ char ∈ text, Inert char) :
    ∀ char ∈ ljust width text, Inert char := by
  intro char hchar
  rcases List.mem_append.mp hchar with hchar | hchar
  · exact h char hchar
  · exact .inr (.inr (List.eq_of_mem_replicate hchar))

theorem inert_codeOf (lineType : LineType) : ∀ char ∈ codeOf lineType, char.isUpper = true := by
  have hall (lineType : LineType) : (codeOf lineType).all Char.isUpper = true := by
    cases lineType <;> decide
  exact List.all_eq_true.mp (hall lineType)

theorem codeOf_length (lineType : LineType) : (codeOf lineType).length = 2 := by
  cases lineType <;> rfl

/-- The rest of a record after its references. -/
def encodeRest (exponents : String → Option Nat) (line : ParsedSettlementLine) : List Char :=
  ((segments exponents line).drop 2).flatten

theorem encodeLine_eq (exponents : String → Option Nat) (line : ParsedSettlementLine) :
    encodeLine exponents line = ljust 20 line.acquirerReference.toList ++
      (ljust 20 (line.networkReference.getD "").toList ++ encodeRest exponents line) :=
  rfl

theorem Representable.network_length (representable : Representable exponents line) :
    (line.networkReference.getD "").toList.length ≤ 20 := by
  cases hnetwork : line.networkReference with
  | none => exact Nat.zero_le _
  | some reference => exact (representable.network reference hnetwork).2.length

theorem amount_length (representable : Representable exponents line) {minor : Int}
    (hminor : minor ∈ [line.grossMinor, line.feeMinor, line.interchangeMinor,
      line.schemeFeeMinor, line.netMinor]) :
    (ljust 12 (encodeAmount exponents line.currency minor)).length = 12 :=
  length_ljust (representable.amounts minor hminor)

def widths : List Nat := [20, 20, 2, 12, 12, 12, 12, 12, 3]

theorem length_segments (representable : Representable exponents line) :
    (segments exponents line).map List.length = widths := by
  unfold segments
  simp only [List.map_cons, List.map_nil, codeOf_length, representable.letters]
  rw [length_ljust representable.reference.length, length_ljust representable.network_length,
    amount_length representable (by simp), amount_length representable (by simp),
    amount_length representable (by simp), amount_length representable (by simp),
    amount_length representable (by simp)]
  rfl

theorem encodeLine_length (representable : Representable exponents line) :
    (encodeLine exponents line).length = recordLength := by
  unfold encodeLine
  rw [List.length_flatten, length_segments representable]
  rfl

theorem inert_amount (exponents : String → Option Nat) (currency : String) (minor : Int) :
    ∀ char ∈ ljust 12 (encodeAmount exponents currency minor), Inert char :=
  inert_ljust fun char hchar => .inr (.inl ((Numeral.write_plain _ _).2 char hchar))

theorem inert_rest (representable : Representable exponents line) :
    ∀ char ∈ encodeRest exponents line, Inert char := by
  intro char hchar
  obtain ⟨segment, hsegment, hchar⟩ := List.mem_flatten.mp hchar
  simp only [segments, List.drop_succ_cons, List.drop_zero, List.mem_cons, List.not_mem_nil,
    or_false] at hsegment
  rcases hsegment with rfl | rfl | rfl | rfl | rfl | rfl | rfl
  · exact .inl (inert_codeOf line.lineType char hchar)
  · exact inert_amount exponents line.currency line.grossMinor char hchar
  · exact inert_amount exponents line.currency line.feeMinor char hchar
  · exact inert_amount exponents line.currency line.interchangeMinor char hchar
  · exact inert_amount exponents line.currency line.schemeFeeMinor char hchar
  · exact inert_amount exponents line.currency line.netMinor char hchar
  · exact .inl (representable.capitals char hchar)

theorem latin_ljust {width : Nat} (h : Latin text) : Latin (ljust width text) := by
  intro char hchar
  rcases List.mem_append.mp hchar with hchar | hchar
  · exact h char hchar
  · rw [List.eq_of_mem_replicate hchar]
    decide

theorem Representable.network_latin (representable : Representable exponents line) :
    Latin (line.networkReference.getD "").toList := by
  cases hnetwork : line.networkReference with
  | none => exact fun char hchar => absurd hchar List.not_mem_nil
  | some reference => exact (representable.network reference hnetwork).2.latin

theorem latin_encodeLine (representable : Representable exponents line) :
    Latin (encodeLine exponents line) := by
  rw [encodeLine_eq]
  intro char hchar
  rw [List.mem_append, List.mem_append] at hchar
  rcases hchar with hchar | hchar | hchar
  · exact latin_ljust representable.reference.latin char hchar
  · exact latin_ljust representable.network_latin char hchar
  · exact (inert_rest representable char hchar).plain.2

theorem currency_mem_rest (representable : Representable exponents line) :
    ∃ char ∈ encodeRest exponents line, char.isUpper = true := by
  obtain ⟨char, hchar⟩ := List.exists_mem_of_length_pos
    (show 0 < line.currency.toList.length by rw [representable.letters]; decide)
  refine ⟨char, ?_, representable.capitals char hchar⟩
  refine List.mem_flatten.mpr ⟨line.currency.toList, ?_, hchar⟩
  simp [segments]

theorem encodeRest_ne_nil (representable : Representable exponents line) :
    encodeRest exponents line ≠ [] := by
  obtain ⟨char, hchar, -⟩ := currency_mem_rest representable
  exact List.ne_nil_of_mem hchar

/-- The line feed after a record ends nothing but the record. -/
theorem splitLines_encodeLines (representable : ∀ line ∈ lines, Representable exponents line)
    (rest : List Char) :
    splitLines (encodeLines exponents lines ++ rest) =
      (lines.flatMap fun line => splitLines (encodeLine exponents line)) ++ splitLines rest := by
  induction lines with
  | nil => rfl
  | cons line lines ih =>
      obtain ⟨hline, hlines⟩ := List.forall_mem_cons.mp representable
      have hrest := encodeRest_ne_nil hline
      have hinner : ljust 20 (line.networkReference.getD "").toList ++
          encodeRest exponents line ≠ [] := List.append_ne_nil_of_right_ne_nil _ hrest
      have hne : encodeLine exponents line ≠ [] := by
        rw [encodeLine_eq]
        exact List.append_ne_nil_of_right_ne_nil _ hinner
      have hlast : isLineBreak ((encodeLine exponents line).getLast hne) = false := by
        have hmem : (encodeLine exponents line).getLast hne ∈ encodeRest exponents line := by
          simp only [encodeLine_eq, List.getLast_append_of_right_ne_nil _ _ hinner,
            List.getLast_append_of_right_ne_nil _ _ hrest]
          exact List.getLast_mem hrest
        exact (inert_rest hline _ hmem).plain.1
      have hfeed := splitLines_append_lineFeed hne hlast (encodeLines exponents lines ++ rest)
      rw [ih hlines] at hfeed
      rw [List.flatMap_cons, List.append_assoc, ← hfeed]
      simp only [encodeLines, List.flatMap_cons, List.append_assoc, List.cons_append,
        List.nil_append]

theorem ControlRecord.splitLines_eq (control : ControlRecord text) : splitLines text = [text] :=
  splitLines_of_not_break control.ne_nil control.oneLine

/-- The records of a file are its header, those of its lines and its trailer. -/
theorem records_encodeFile (hheader : ControlRecord header) (htrailer : ControlRecord trailer)
    (representable : ∀ line ∈ lines, Representable exponents line) :
    splitLines (decode (encodeFile exponents header trailer lines)) =
      header :: ((lines.flatMap fun line => splitLines (encodeLine exponents line)) ++
        [trailer]) := by
  have hlatin : Latin (header ++ '\n' :: (encodeLines exponents lines ++ trailer)) := by
    intro char hchar
    rcases List.mem_append.mp hchar with hchar | hchar
    · exact hheader.latin char hchar
    · rcases List.mem_cons.mp hchar with rfl | hchar
      · decide
      · rcases List.mem_append.mp hchar with hchar | hchar
        · obtain ⟨line, hline, hchar⟩ := List.mem_flatMap.mp hchar
          rcases List.mem_append.mp hchar with hchar | hchar
          · exact latin_encodeLine (representable line hline) char hchar
          · rw [List.mem_singleton.mp hchar]
            decide
        · exact htrailer.latin char hchar
  unfold encodeFile
  rw [decode_encode hlatin, splitLines_append_lineFeed hheader.ne_nil
    (hheader.oneLine _ (List.getLast_mem _)), splitLines_encodeLines representable,
    hheader.splitLines_eq, htrailer.splitLines_eq]
  rfl

/-! ## One record -/

/-- The line with its references as they are read. -/
def strippedLine (line : ParsedSettlementLine) : ParsedSettlementLine :=
  { line with
    acquirerReference := String.ofList (strip line.acquirerReference.toList)
    networkReference :=
      if strip (line.networkReference.getD "").toList = [] then none
      else some (String.ofList (strip (line.networkReference.getD "").toList)) }

/-- `upper` leaves capital letters as they are. -/
def KeepsCapitals (methods : TextMethods) : Prop :=
  ∀ text : String, (∀ char ∈ text.toList, char.isUpper = true) → methods.upper text = text

/-- What is written of an amount is read back. -/
theorem toMinor_encodeAmount {currency : String} {minor : Int}
    (supported : ∃ places, exponents currency = some places)
    (hshort : (encodeAmount exponents currency minor).length ≤ 12) :
    toMinor exponents (encodeAmount exponents currency minor) currency = .ok minor := by
  obtain ⟨places, hplaces⟩ := supported
  have hdigits : minor.natAbs < 10 ^ decimalPrecision :=
    (Numeral.natAbs_lt_write _ _).trans_le
      (Nat.pow_le_pow_right (by decide) (hshort.trans (by decide)))
  have hexponent : exponentFor exponents currency = .ok (places : Int) := by
    unfold exponentFor
    rw [hplaces]
  have hscaled : Decimal.scaleb decimalPrecision places ⟨minor, -(places : Int)⟩ = ⟨minor, 0⟩ := by
    rw [Decimal.scaleb_short hdigits]
    simp
  have hquantised : Decimal.quantize decimalPrecision 0 ⟨minor, 0⟩ = some ⟨minor, 0⟩ := by
    have hsame : Decimal.rescale 0 ⟨minor, 0⟩ = minor := Decimal.rescale_same rfl
    exact Decimal.quantize_eq_some.mpr ⟨by rw [hsame], by rwa [hsame]⟩
  have hparsed : Numeral.parse (encodeAmount exponents currency minor) =
      some (.finite ⟨minor, -(places : Int)⟩) := by
    unfold encodeAmount placesOf
    rw [hplaces]
    exact Numeral.parse_write places minor
  unfold toMinor
  rw [hexponent, hparsed]
  simp only [bind, Except.bind]
  rw [hscaled, hquantised]
  rfl

/-- A field stands after the widths of those before it. -/
theorem slice_encodeLine (representable : Representable exponents line) {index : Nat}
    {segment : List Char} (hsegment : (segments exponents line)[index]? = some segment) :
    ((encodeLine exponents line).drop (widths.take index).sum).take segment.length =
      segment := by
  obtain ⟨hindex, hsegment⟩ := List.getElem?_eq_some_iff.mp hsegment
  unfold encodeLine
  rw [← length_segments representable, List.drop_sum_flatten,
    List.drop_eq_getElem_cons hindex, hsegment, List.flatten_cons, List.take_left]

/-- The field of a record that holds an amount. -/
theorem field_amount (representable : Representable exponents line) {index : Nat} {minor : Int}
    (hsegment : (segments exponents line)[index]? =
      some (ljust 12 (encodeAmount exponents line.currency minor)))
    (hminor : minor ∈ [line.grossMinor, line.feeMinor, line.interchangeMinor,
      line.schemeFeeMinor, line.netMinor]) :
    field (widths.take index).sum ((widths.take index).sum + 12) (encodeLine exponents line) =
      encodeAmount exponents line.currency minor := by
  have hslice := slice_encodeLine representable hsegment
  rw [amount_length representable hminor] at hslice
  unfold field
  rw [Nat.add_sub_cancel_left, hslice, strip_ljust]
  exact strip_of_not_space fun char hchar => ((Numeral.write_plain _ _).2 char hchar).kept.1

/-- A record is taken for a control record by its reference. -/
theorem isControl_encodeLine (exponents : String → Option Nat) (line : ParsedSettlementLine) :
    isControl (encodeLine exponents line) = isControl line.acquirerReference.toList := by
  unfold isControl
  rw [encodeLine_eq, isPrefixOf_ljust (by decide) (by decide),
    isPrefixOf_ljust (by decide) (by decide)]

theorem isSkipped_encodeLine (representable : Representable exponents line) :
    isSkipped (encodeLine exponents line) = isControl line.acquirerReference.toList := by
  have hblank : (strip (encodeLine exponents line)).isEmpty = false := by
    obtain ⟨char, hchar, hupper⟩ := currency_mem_rest representable
    refine List.isEmpty_eq_false_iff.mpr (strip_ne_nil ?_ (capital_plain hupper).2.1)
    rw [encodeLine_eq]
    exact List.mem_append_right _ (List.mem_append_right _ hchar)
  rw [isSkipped, hblank, Bool.false_or, isControl_encodeLine]

theorem currencyOf_encodeLine (capitals : KeepsCapitals methods)
    (representable : Representable exponents line) :
    currencyOf methods (encodeLine exponents line) = line.currency := by
  have hstrip : strip line.currency.toList = line.currency.toList :=
    strip_of_not_space fun char hchar => (capital_plain (representable.capitals char hchar)).2.1
  have hne : line.currency ≠ "" := by
    intro hempty
    have hletters := representable.letters
    rw [hempty] at hletters
    cases hletters
  have hfield : field 102 105 (encodeLine exponents line) = line.currency.toList := by
    have hslice := slice_encodeLine representable (show (segments exponents line)[8]? =
      some line.currency.toList from rfl)
    rw [representable.letters] at hslice
    change strip (((encodeLine exponents line).drop (widths.take 8).sum).take 3) = _
    rw [hslice, hstrip]
  unfold currencyOf
  rw [hfield, String.ofList_toList, capitals line.currency representable.capitals]
  exact if_neg hne

theorem lineType_codeOf (capitals : KeepsCapitals methods) (known : LineType) :
    SettlementFileParser.lineType methods (String.ofList (codeOf known)) = .ok known := by
  have hletters := inert_codeOf known
  have hcode : stripped (String.ofList (codeOf known)) = String.ofList (codeOf known) := by
    unfold stripped
    rw [String.toList_ofList, strip_of_not_space fun char hchar =>
      (capital_plain (hletters char hchar)).2.1]
  have hupper : methods.upper (String.ofList (codeOf known)) = String.ofList (codeOf known) := by
    refine capitals _ ?_
    rw [String.toList_ofList]
    exact hletters
  unfold SettlementFileParser.lineType knownLineType
  rw [hcode, hupper]
  cases known <;> rfl

/-- A record is read back as its line, with its references as they are read. -/
theorem parseRecord_encodeLine (capitals : KeepsCapitals methods)
    (representable : Representable exponents line)
    (hcontrol : isControl line.acquirerReference.toList = false) (rowNumber : Nat) :
    parseRecord exponents methods rowNumber (encodeLine exponents line) =
      .ok (some (strippedLine line)) := by
  have hreference : field 0 20 (encodeLine exponents line) =
      strip line.acquirerReference.toList := by
    have hslice := @slice_encodeLine exponents line representable 0 _ rfl
    rw [length_ljust representable.reference.length] at hslice
    change strip (((encodeLine exponents line).drop (widths.take 0).sum).take 20) = _
    rw [hslice, strip_ljust]
  have hnetwork : field 20 40 (encodeLine exponents line) =
      strip (line.networkReference.getD "").toList := by
    have hslice := @slice_encodeLine exponents line representable 1 _ rfl
    rw [length_ljust representable.network_length] at hslice
    change strip (((encodeLine exponents line).drop (widths.take 1).sum).take 20) = _
    rw [hslice, strip_ljust]
  have hcode : ((encodeLine exponents line).drop 40).take 2 = codeOf line.lineType := by
    have hslice := @slice_encodeLine exponents line representable 2 _ rfl
    rw [codeOf_length] at hslice
    exact hslice
  have hgross := @field_amount exponents line representable 3 line.grossMinor rfl (by simp)
  have hfee := @field_amount exponents line representable 4 line.feeMinor rfl (by simp)
  have hinterchange :=
    @field_amount exponents line representable 5 line.interchangeMinor rfl (by simp)
  have hscheme := @field_amount exponents line representable 6 line.schemeFeeMinor rfl (by simp)
  have hnet := @field_amount exponents line representable 7 line.netMinor rfl (by simp)
  change field 42 54 _ = _ at hgross
  change field 54 66 _ = _ at hfee
  change field 66 78 _ = _ at hinterchange
  change field 78 90 _ = _ at hscheme
  change field 90 102 _ = _ at hnet
  have hamount : ∀ minor ∈ [line.grossMinor, line.feeMinor, line.interchangeMinor,
      line.schemeFeeMinor, line.netMinor],
      toMinor exponents (encodeAmount exponents line.currency minor) line.currency =
        .ok minor ∧
      orZero (encodeAmount exponents line.currency minor) =
        encodeAmount exponents line.currency minor := fun minor hminor =>
    ⟨toMinor_encodeAmount representable.supported (representable.amounts minor hminor),
      if_neg (Numeral.write_plain _ _).1⟩
  unfold parseRecord
  rw [isSkipped_encodeLine representable, hcontrol, if_neg Bool.false_ne_true,
    if_neg (by rw [encodeLine_length representable]; exact lt_irrefl _)]
  dsimp only
  rw [currencyOf_encodeLine capitals representable, hcode, lineType_codeOf capitals, hreference,
    hnetwork, hgross, hfee, hinterchange, hscheme, hnet,
    (hamount line.feeMinor (by simp)).2, (hamount line.interchangeMinor (by simp)).2,
    (hamount line.schemeFeeMinor (by simp)).2, (hamount line.grossMinor (by simp)).1,
    (hamount line.feeMinor (by simp)).1, (hamount line.interchangeMinor (by simp)).1,
    (hamount line.schemeFeeMinor (by simp)).1, (hamount line.netMinor (by simp)).1]
  rfl

/-- Exactly a plain reference is read as it was written. -/
theorem strippedLine_eq_iff (representable : Representable exponents line) :
    strippedLine line = line ↔
      strip line.acquirerReference.toList = line.acquirerReference.toList ∧
      ∀ reference, line.networkReference = some reference →
        strip reference.toList = reference.toList := by
  constructor
  · intro h
    constructor
    · have hreference := congrArg (fun line => line.acquirerReference.toList) h
      simpa only [strippedLine, String.toList_ofList] using hreference
    · intro reference hreference
      have hnetwork := congrArg ParsedSettlementLine.networkReference h
      simp only [strippedLine, hreference, Option.getD_some] at hnetwork
      split at hnetwork
      · cases hnetwork
      · have hsame := congrArg String.toList (Option.some.inj hnetwork)
        rwa [String.toList_ofList] at hsame
  · rintro ⟨hreference, hnetwork⟩
    have hnetworks : (if strip (line.networkReference.getD "").toList = [] then none
        else some (String.ofList (strip (line.networkReference.getD "").toList))) =
        line.networkReference := by
      cases hsome : line.networkReference with
      | none => rfl
      | some reference =>
          have hne : reference.toList ≠ [] := fun hnil =>
            (representable.network reference hsome).1 (String.toList_eq_nil_iff.mp hnil)
          rw [Option.getD_some, hnetwork reference hsome, if_neg hne, String.ofList_toList]
    unfold strippedLine
    rw [hreference, hnetworks, String.ofList_toList]

/-! ## The lines of a file -/

theorem parseRecords_append (rowNumber : Nat) (records more : List (List Char)) :
    parseRecords exponents methods rowNumber (records ++ more) =
      (do
        let lines ← parseRecords exponents methods rowNumber records
        let others ← parseRecords exponents methods (rowNumber + records.length) more
        pure (lines ++ others)) := by
  induction records generalizing rowNumber with
  | nil =>
      change _ = (parseRecords exponents methods rowNumber more >>= fun others => pure others)
      exact (bind_pure _).symm
  | cons record records ih =>
      have hrow : rowNumber + (record :: records).length = rowNumber + 1 + records.length := by
        rw [List.length_cons]
        omega
      rw [List.cons_append, parseRecords, parseRecords, ih, hrow]
      cases parseRecord exponents methods rowNumber record with
      | error raised => rfl
      | ok parsed =>
          cases parseRecords exponents methods (rowNumber + 1) records with
          | error raised => rfl
          | ok lines =>
              cases parsed with
              | none => cases parseRecords exponents methods _ more <;> rfl
              | some line => cases parseRecords exponents methods _ more <;> rfl

theorem parseRecord_control {record : List Char} (h : isControl record = true)
    (rowNumber : Nat) : parseRecord exponents methods rowNumber record = .ok none := by
  unfold parseRecord
  rw [if_pos (by rw [isSkipped, h, Bool.or_true])]
  rfl

/-- A piece of a record is no line. -/
theorem parseRecords_short {records : List (List Char)}
    (h : ∀ record ∈ records, record.length < recordLength) {rowNumber : Nat}
    (hparsed : parseRecords exponents methods rowNumber records = .ok lines) : lines = [] := by
  induction records generalizing rowNumber lines with
  | nil =>
      cases hparsed
      rfl
  | cons record records ih =>
      obtain ⟨hrecord, hrecords⟩ := List.forall_mem_cons.mp h
      unfold parseRecords parseRecord at hparsed
      split at hparsed
      · cases hrest : parseRecords exponents methods (rowNumber + 1) records with
        | error raised =>
            rw [hrest] at hparsed
            cases hparsed
        | ok others =>
            rw [hrest] at hparsed
            cases hparsed
            exact ih hrecords hrest
      · cases hparsed

theorem not_break_of_references (representable : Representable exponents line)
    (hreference : ∀ char ∈ line.acquirerReference.toList, isLineBreak char = false)
    (hnetwork : ∀ reference, line.networkReference = some reference →
      ∀ char ∈ reference.toList, isLineBreak char = false) :
    ∀ char ∈ encodeLine exponents line, isLineBreak char = false := by
  have hblank {width : Nat} {text : List Char}
      (h : ∀ char ∈ text, isLineBreak char = false) :
      ∀ char ∈ ljust width text, isLineBreak char = false := by
    intro char hchar
    rcases List.mem_append.mp hchar with hchar | hchar
    · exact h char hchar
    · rw [List.eq_of_mem_replicate hchar]
      rfl
  intro char hchar
  rw [encodeLine_eq, List.mem_append, List.mem_append] at hchar
  rcases hchar with hchar | hchar | hchar
  · exact hblank hreference char hchar
  · refine hblank ?_ char hchar
    cases hsome : line.networkReference with
    | none => exact fun char hchar => absurd hchar List.not_mem_nil
    | some reference => exact hnetwork reference hsome
  · exact (inert_rest representable char hchar).plain.1

theorem references_not_break
    (h : ∀ char ∈ encodeLine exponents line, isLineBreak char = false) :
    (∀ char ∈ line.acquirerReference.toList, isLineBreak char = false) ∧
      ∀ reference, line.networkReference = some reference →
        ∀ char ∈ reference.toList, isLineBreak char = false := by
  rw [encodeLine_eq] at h
  constructor
  · exact fun char hchar =>
      h char (List.mem_append_left _ (List.mem_append_left _ hchar))
  · intro reference hreference char hchar
    refine h char (List.mem_append_right _ (List.mem_append_left _ (List.mem_append_left _ ?_)))
    rw [hreference]
    exact hchar

theorem parseRecords_singleton {record : List Char} {parsed : Option ParsedSettlementLine}
    {rowNumber : Nat} (h : parseRecord exponents methods rowNumber record = .ok parsed) :
    parseRecords exponents methods rowNumber [record] = .ok parsed.toList := by
  unfold parseRecords
  rw [h]
  cases parsed with
  | none => rfl
  | some line => rfl

/-- The record of an unmistakable line is its line, and that of another is not. -/
theorem parseRecords_encodeLine (capitals : KeepsCapitals methods)
    (representable : Representable exponents line) (rowNumber : Nat) :
    (Unmistakable line →
      parseRecords exponents methods rowNumber (splitLines (encodeLine exponents line)) =
        .ok [line]) ∧
    ∀ parsed,
      parseRecords exponents methods rowNumber (splitLines (encodeLine exponents line)) =
        .ok parsed → parsed.length ≤ 1 ∧ (parsed = [line] → Unmistakable line) := by
  by_cases hwhole : ∀ char ∈ encodeLine exponents line, isLineBreak char = false
  · have hne : encodeLine exponents line ≠ [] := by
      intro hnil
      have hlength := encodeLine_length representable
      rw [hnil] at hlength
      cases hlength
    rw [splitLines_of_not_break hne hwhole]
    obtain ⟨hreference, hnetwork⟩ := references_not_break hwhole
    cases hcontrol : isControl line.acquirerReference.toList with
    | true =>
        have hskipped : isControl (encodeLine exponents line) = true := by
          rw [isControl_encodeLine, hcontrol]
        rw [parseRecords_singleton (parseRecord_control hskipped rowNumber)]
        constructor
        · intro unmistakable
          rw [unmistakable.notControl] at hcontrol
          cases hcontrol
        · rintro parsed ⟨⟩
          exact ⟨Nat.zero_le _, by rintro ⟨⟩⟩
    | false =>
        rw [parseRecords_singleton
          (parseRecord_encodeLine capitals representable hcontrol rowNumber)]
        have hstripped := strippedLine_eq_iff representable
        constructor
        · intro unmistakable
          rw [hstripped.mpr ⟨unmistakable.reference.1,
            fun reference hsome => (unmistakable.network reference hsome).1⟩]
          rfl
        · rintro parsed ⟨⟩
          refine ⟨le_rfl, fun hsame => ?_⟩
          obtain ⟨hplain, hplains⟩ := hstripped.mp (List.singleton_inj.mp hsame)
          exact ⟨⟨hplain, hreference⟩,
            fun reference hsome => ⟨hplains reference hsome, hnetwork reference hsome⟩, hcontrol⟩
  · -- A line break leaves pieces that are too short for a record.
    have hbreak : ∃ char ∈ encodeLine exponents line, isLineBreak char = true := by
      push Not at hwhole
      simpa using hwhole
    have hshort : ∀ record ∈ splitLines (encodeLine exponents line),
        record.length < recordLength := fun record hrecord => by
      rw [← encodeLine_length representable]
      exact length_lt_of_mem_splitLines hbreak hrecord
    constructor
    · intro unmistakable
      exact absurd (not_break_of_references representable unmistakable.reference.2
        fun reference hsome => (unmistakable.network reference hsome).2) hwhole
    · intro parsed hparsed
      rw [parseRecords_short hshort hparsed]
      exact ⟨Nat.zero_le _, by rintro ⟨⟩⟩

/-- The records of the lines are read back exactly when all the lines are unmistakable. -/
theorem parseRecords_encodeLines (capitals : KeepsCapitals methods)
    (representable : ∀ line ∈ lines, Representable exponents line) (rowNumber : Nat) :
    ((∀ line ∈ lines, Unmistakable line) →
      parseRecords exponents methods rowNumber
        (lines.flatMap fun line => splitLines (encodeLine exponents line)) = .ok lines) ∧
    ∀ parsed,
      parseRecords exponents methods rowNumber
        (lines.flatMap fun line => splitLines (encodeLine exponents line)) = .ok parsed →
      parsed.length ≤ lines.length ∧ (parsed = lines → ∀ line ∈ lines, Unmistakable line) := by
  induction lines generalizing rowNumber with
  | nil =>
      refine ⟨fun _ => rfl, ?_⟩
      rintro parsed ⟨⟩
      exact ⟨le_rfl, fun _ line hline => absurd hline List.not_mem_nil⟩
  | cons line lines ih =>
      obtain ⟨hline, hlines⟩ := List.forall_mem_cons.mp representable
      obtain ⟨hkept, hread⟩ := parseRecords_encodeLine capitals hline rowNumber
      obtain ⟨hkepts, hreads⟩ := ih hlines
        (rowNumber + (splitLines (encodeLine exponents line)).length)
      rw [List.flatMap_cons, parseRecords_append]
      constructor
      · intro unmistakable
        obtain ⟨hfirst, hrest⟩ := List.forall_mem_cons.mp unmistakable
        rw [hkept hfirst, hkepts hrest]
        rfl
      · intro parsed hparsed
        cases hfirst : parseRecords exponents methods rowNumber
            (splitLines (encodeLine exponents line)) with
        | error raised =>
            rw [hfirst] at hparsed
            cases hparsed
        | ok first =>
            cases hrest : parseRecords exponents methods
                (rowNumber + (splitLines (encodeLine exponents line)).length)
                (lines.flatMap fun line => splitLines (encodeLine exponents line)) with
            | error raised =>
                rw [hfirst, hrest] at hparsed
                cases hparsed
            | ok rest =>
                rw [hfirst, hrest] at hparsed
                cases hparsed
                obtain ⟨hone, honly⟩ := hread first hfirst
                obtain ⟨hfew, hall⟩ := hreads rest hrest
                rw [List.length_append, List.length_cons]
                refine ⟨by omega, fun hsame => ?_⟩
                -- Each record gives at most one line, so the first gives the first.
                have hlength := congrArg List.length hsame
                rw [List.length_append, List.length_cons] at hlength
                obtain ⟨parsedLine, rfl⟩ := List.length_eq_one_iff.mp
                  (show first.length = 1 by omega)
                obtain ⟨rfl, rfl⟩ := List.cons.inj hsame
                exact List.forall_mem_cons.mpr ⟨honly rfl, hall rfl⟩

theorem parse_encodeFile_iff (capitals : KeepsCapitals methods) (hheader : ControlRecord header)
    (htrailer : ControlRecord trailer)
    (representable : ∀ line ∈ lines, Representable exponents line) :
    parse exponents methods (encodeFile exponents header trailer lines) = .ok lines ↔
      ∀ line ∈ lines, Unmistakable line := by
  obtain ⟨hkept, hread⟩ := parseRecords_encodeLines capitals representable 2
  have hfile : parse exponents methods (encodeFile exponents header trailer lines) =
      parseRecords exponents methods 2
        (lines.flatMap fun line => splitLines (encodeLine exponents line)) := by
    unfold parse
    rw [records_encodeFile hheader htrailer representable, parseRecords,
      parseRecord_control hheader.tagged, parseRecords_append]
    cases parseRecords exponents methods (1 + 1)
      (lines.flatMap fun line => splitLines (encodeLine exponents line)) with
    | error raised => rfl
    | ok parsed =>
        rw [parseRecords_singleton (parseRecord_control htrailer.tagged _)]
        exact congrArg Except.ok (List.append_nil parsed)
  rw [hfile]
  constructor
  · exact fun hparsed => (hread lines hparsed).2 rfl
  · exact hkept

/-! ## What stops the parser -/

/-- What is wrong with a field: it is malformed, or it holds an amount that is no integer of
the context, which is a NaN, an infinity or a number with too many digits. -/
inductive Fault where
  | malformed
  | unconvertible
deriving DecidableEq, Repr

/-- The number in minor units has no more digits than the context. -/
def FitsContext (places : Nat) (value : Decimal) : Prop :=
  (halfUp (Decimal.scaleb decimalPrecision places value).value).natAbs < 10 ^ decimalPrecision

instance (places : Nat) (value : Decimal) : Decidable (FitsContext places value) :=
  inferInstanceAs (Decidable (_ < _))

section

variable (exponents : String → Option Nat) (methods : TextMethods)

def amountFault (amount : List Char) (currency : String) : Option Fault :=
  match exponents currency, Numeral.parse amount with
  | none, _ => some .malformed
  | some _, none => some .malformed
  | some places, some (.finite value) =>
      if FitsContext places value then none else some .unconvertible
  | some _, some _ => some .unconvertible

/-- The first thing that is wrong with a record, in the order of its fields. -/
def recordFault (record : List Char) : Option Fault :=
  let currency := currencyOf methods record
  if isSkipped record then none
  else if record.length < recordLength then some .malformed
  else if knownLineType methods (String.ofList ((record.drop 40).take 2)) = none then
    some .malformed
  else
    [field 42 54 record, orZero (field 54 66 record), orZero (field 66 78 record),
      orZero (field 78 90 record), field 90 102 record].findSome?
      fun amount => amountFault exponents amount currency

/-- The first thing that is wrong with a file. -/
def fileFault (raw : ByteArray) : Option Fault :=
  (splitLines (decode raw)).findSome? (recordFault exponents methods)

end

/-- A result answers to a fault: a validation error to a malformed field, another error to
an amount that cannot be converted, and a value where nothing is wrong. -/
def AnswersTo {α : Type} (result : Except Exception α) : Option Fault → Prop
  | none => ∃ answer, result = .ok answer
  | some .malformed => Rejected result
  | some .unconvertible => ∃ raised, result = .error raised ∧
      raised.isInstance .validationError = false

theorem answersTo_bind {α β : Type} {result : Except Exception α}
    {next : α → Except Exception β} {fault fault' : Option Fault} (h : AnswersTo result fault)
    (hnext : ∀ answer, AnswersTo (next answer) fault') :
    AnswersTo (result >>= next) (fault.or fault') := by
  cases fault with
  | none =>
      obtain ⟨answer, rfl⟩ := h
      exact hnext answer
  | some fault =>
      cases fault with
      | malformed =>
          obtain ⟨raised, rfl, hraised⟩ := h
          exact ⟨raised, rfl, hraised⟩
      | unconvertible =>
          obtain ⟨raised, rfl, hraised⟩ := h
          exact ⟨raised, rfl, hraised⟩

theorem toMinor_answersTo (amount : List Char) (currency : String) :
    AnswersTo (toMinor exponents amount currency) (amountFault exponents amount currency) := by
  unfold toMinor amountFault exponentFor
  cases exponents currency with
  | none => exact ⟨_, rfl, rfl⟩
  | some places =>
      simp only [bind, Except.bind]
      cases Numeral.parse amount with
      | none => exact ⟨_, rfl, rfl⟩
      | some numeral =>
          cases numeral with
          | quietNaN => exact ⟨_, rfl, rfl⟩
          | signalingNaN => exact ⟨_, rfl, rfl⟩
          | infinite => exact ⟨_, rfl, rfl⟩
          | finite value =>
              dsimp only
              by_cases hfits : FitsContext places value
              · have hquantised := Decimal.quantize_eq decimalPrecision
                  (Decimal.scaleb decimalPrecision places value) 0
                rw [neg_zero, zpow_zero, mul_one] at hquantised
                rw [if_pos hfits, hquantised hfits]
                exact ⟨_, rfl⟩
              · have hrescaled := Decimal.rescale_eq
                  (Decimal.scaleb decimalPrecision places value) 0
                rw [neg_zero, zpow_zero, mul_one] at hrescaled
                have hquantised : (Decimal.scaleb decimalPrecision places value).quantize
                    decimalPrecision 0 = none := by
                  unfold Decimal.quantize
                  rw [hrescaled]
                  exact if_neg hfits
                rw [if_neg hfits, hquantised]
                exact ⟨_, rfl, rfl⟩

theorem findSome?_cons_or {α β : Type} (fault : α → Option β) (first : α) (rest : List α) :
    (first :: rest).findSome? fault = (fault first).or (rest.findSome? fault) := by
  rw [List.findSome?_cons]
  cases fault first with
  | none => rfl
  | some found => rfl

theorem lineType_answersTo (code : String) :
    AnswersTo (SettlementFileParser.lineType methods code)
      (if knownLineType methods code = none then some .malformed else none) := by
  unfold SettlementFileParser.lineType
  cases hknown : knownLineType methods code with
  | none => exact ⟨_, rfl, rfl⟩
  | some known => exact ⟨known, rfl⟩

theorem parseRecord_answersTo (rowNumber : Nat) (record : List Char) :
    AnswersTo (parseRecord exponents methods rowNumber record)
      (recordFault exponents methods record) := by
  have hif (condition : Prop) [Decidable condition] (fault : Option Fault) :
      (if condition then some Fault.malformed else fault) =
        (if condition then some Fault.malformed else none).or fault := by
    split
    · rfl
    · rfl
  unfold parseRecord recordFault
  dsimp only
  split
  · exact ⟨none, rfl⟩
  · split
    · exact ⟨_, rfl, rfl⟩
    · rw [hif]
      refine answersTo_bind (lineType_answersTo _) fun lineType => ?_
      simp only [findSome?_cons_or]
      refine answersTo_bind (toMinor_answersTo _ _) fun gross => ?_
      refine answersTo_bind (toMinor_answersTo _ _) fun fee => ?_
      refine answersTo_bind (toMinor_answersTo _ _) fun interchange => ?_
      refine answersTo_bind (toMinor_answersTo _ _) fun scheme => ?_
      refine answersTo_bind (toMinor_answersTo _ _) fun net => ?_
      exact ⟨_, rfl⟩

theorem parseRecords_answersTo (rowNumber : Nat) (records : List (List Char)) :
    AnswersTo (parseRecords exponents methods rowNumber records)
      (records.findSome? (recordFault exponents methods)) := by
  induction records generalizing rowNumber with
  | nil => exact ⟨[], rfl⟩
  | cons record records ih =>
      rw [findSome?_cons_or]
      refine answersTo_bind (parseRecord_answersTo rowNumber record) fun parsed => ?_
      rw [← Option.or_none (o := records.findSome? _)]
      refine answersTo_bind (ih (rowNumber + 1)) fun lines => ?_
      cases parsed with
      | none => exact ⟨lines, rfl⟩
      | some line => exact ⟨line :: lines, rfl⟩

/-- The parser raises another error than a validation error exactly when an amount that
cannot be converted is the first thing wrong with the file. -/
theorem parse_answers_iff (raw : ByteArray) :
    RejectedOr (parse exponents methods raw) (fun _ => True) ↔
      fileFault exponents methods raw ≠ some .unconvertible := by
  have hanswers : AnswersTo (parse exponents methods raw) (fileFault exponents methods raw) :=
    parseRecords_answersTo 1 (splitLines (decode raw))
  cases hfault : fileFault exponents methods raw with
  | none =>
      rw [hfault] at hanswers
      obtain ⟨lines, hlines⟩ := hanswers
      exact ⟨fun _ => by rintro ⟨⟩, fun _ => .inr ⟨lines, hlines, trivial⟩⟩
  | some fault =>
      rw [hfault] at hanswers
      cases fault with
      | malformed => exact ⟨fun _ => by rintro ⟨⟩, fun _ => .inl hanswers⟩
      | unconvertible =>
          obtain ⟨raised, hraised, hother⟩ := hanswers
          refine ⟨?_, fun hne => absurd rfl hne⟩
          rintro (⟨other, hrejected, hvalidation⟩ | ⟨lines, hlines, -⟩)
          · rw [hraised] at hrejected
            cases hrejected
            rw [hother] at hvalidation
            cases hvalidation
          · rw [hraised] at hlines
            cases hlines

/-- The parser inverts the format exactly on unmistakable lines, and what it raises is a
validation error unless an amount that cannot be converted is the first fault of the file. -/
theorem fixed_width_inverts_iff {exponents : String → Option Nat} {methods : TextMethods}
    (capitals : KeepsCapitals methods) :
    (∀ header trailer lines, ControlRecord header → ControlRecord trailer →
      (∀ line ∈ lines, Representable exponents line) →
      (parse exponents methods (encodeFile exponents header trailer lines) = .ok lines ↔
        ∀ line ∈ lines, Unmistakable line)) ∧
    ∀ raw, RejectedOr (parse exponents methods raw) (fun _ => True) ↔
      fileFault exponents methods raw ≠ some .unconvertible := by
  constructor
  · intro header trailer lines hheader htrailer representable
    exact parse_encodeFile_iff capitals hheader htrailer representable
  · exact parse_answers_iff

namespace Sample

open WorldflowCsvParser (asciiMethods)

/-- A sale of ten dollars under a reference. -/
def sale (acquirerReference : String) : ParsedSettlementLine where
  acquirerReference := acquirerReference
  networkReference := some "N-1"
  lineType := .sale
  grossMinor := 1000
  feeMinor := 29
  interchangeMinor := 20
  schemeFeeMinor := 5
  netMinor := -971
  currency := "USD"

def fileHeader : List Char := "HDR20260415".toList

def fileTrailer : List Char := "TRL00000001".toList

/-- A sale whose gross amount is no number. -/
def unreadable : List Char :=
  (encodeLine sampleExponents (sale "NP-1")).take 42 ++ ljust 12 "NaN".toList ++
    (encodeLine sampleExponents (sale "NP-1")).drop 54

theorem capitals : KeepsCapitals asciiMethods := by
  intro text htext
  have hall : ∀ code < 91, 65 ≤ code → (Char.ofNat code).toUpper = Char.ofNat code := by decide
  have hmap : text.toList.map Char.toUpper = text.toList := by
    conv_rhs => rw [← List.map_id text.toList]
    refine List.map_congr_left fun char hchar => ?_
    have hupper := htext char hchar
    unfold Char.isUpper at hupper
    rw [decide_eq_true_eq] at hupper
    have hlow : 65 ≤ char.toNat := hupper.1
    have hhigh : char.toNat ≤ 90 := hupper.2
    have hsame := hall char.toNat (by omega) hlow
    rwa [Char.ofNat_toNat] at hsame
  change String.ofList (text.toList.map Char.toUpper) = text
  rw [hmap, String.ofList_toList]

theorem controlRecord {text : List Char}
    (hplain : (text.all fun char => decide (char.toNat < 256) && !isLineBreak char) = true)
    (htagged : isControl text = true) : ControlRecord text where
  latin := fun char hchar => by
    have hboth := List.all_eq_true.mp hplain char hchar
    rw [Bool.and_eq_true, decide_eq_true_eq] at hboth
    exact hboth.1
  oneLine := fun char hchar => by
    have hboth := List.all_eq_true.mp hplain char hchar
    rw [Bool.and_eq_true, Bool.not_eq_true'] at hboth
    exact hboth.2
  tagged := htagged

theorem control_header : ControlRecord fileHeader :=
  controlRecord (by decide) (by decide)

theorem control_trailer : ControlRecord fileTrailer :=
  controlRecord (by decide) (by decide)

theorem fits {text : List Char} (hlength : text.length ≤ 20)
    (hlatin : (text.all fun char => decide (char.toNat < 256)) = true)
    (hleading : text.head? ≠ some ' ') (htrailing : text.getLast? ≠ some ' ') :
    FitsReference text where
  length := hlength
  latin := fun char hchar => of_decide_eq_true (List.all_eq_true.mp hlatin char hchar)
  leading := hleading
  trailing := htrailing

theorem representable {acquirerReference : String}
    (h : FitsReference acquirerReference.toList) :
    Representable sampleExponents (sale acquirerReference) where
  reference := h
  network := by
    rintro reference ⟨⟩
    exact ⟨by decide, fits (by decide) (by decide) (by decide) (by decide)⟩
  supported := ⟨2, rfl⟩
  letters := by
    change "USD".toList.length = 3
    decide
  capitals := by
    have hall : "USD".toList.all Char.isUpper = true := rfl
    exact List.all_eq_true.mp hall
  amounts := by
    intro minor hminor
    simp only [sale, List.mem_cons, List.not_mem_nil, or_false] at hminor
    have hwidth (minor : Int) :
        encodeAmount sampleExponents (sale acquirerReference).currency minor =
          Numeral.write 2 minor := rfl
    rw [hwidth]
    rcases hminor with rfl | rfl | rfl | rfl | rfl <;> decide

end Sample

open Sample in
open WorldflowCsvParser (asciiMethods) in
/-- A sale under a reference of its own is read back. -/
theorem sale_read_back :
    parse sampleExponents asciiMethods
        (encodeFile sampleExponents fileHeader fileTrailer [sale "NP-1"]) = .ok [sale "NP-1"] ∧
      RejectedOr (parse sampleExponents asciiMethods (encode fileTrailer)) fun _ => True := by
  obtain ⟨hlines, hraises⟩ := @fixed_width_inverts_iff sampleExponents _ capitals
  constructor
  · refine (hlines fileHeader fileTrailer [sale "NP-1"] control_header control_trailer ?_).mpr ?_
    · intro line hline
      rw [List.mem_singleton.mp hline]
      exact representable (fits (by decide) (by decide) (by decide) (by decide))
    · intro line hline
      rw [List.mem_singleton.mp hline]
      have hplain {text : List Char} (hstrip : strip text = text)
          (hbreak : (text.all fun char => !isLineBreak char) = true) : PlainReference text :=
        ⟨hstrip, fun char hchar => by simpa using List.all_eq_true.mp hbreak char hchar⟩
      constructor
      · exact hplain (by decide) (by decide)
      · rintro reference ⟨⟩
        exact hplain (by decide) (by decide)
      · rfl
  · exact (hraises (encode fileTrailer)).mpr (by decide)

open Sample in
open WorldflowCsvParser (asciiMethods) in
/-- A sale whose reference begins as the header does is lost, and a gross amount that is not
a number raises what is no validation error. -/
theorem sale_taken_for_header :
    Representable sampleExponents (sale "HDR-1") ∧
      parse sampleExponents asciiMethods
        (encodeFile sampleExponents fileHeader fileTrailer [sale "HDR-1"]) ≠ .ok [sale "HDR-1"] ∧
      ¬ RejectedOr (parse sampleExponents asciiMethods (encode unreadable)) fun _ => True := by
  have hline := representable (@fits "HDR-1".toList (by decide) (by decide) (by decide)
    (by decide))
  have hlines : ∀ line ∈ [sale "HDR-1"], Representable sampleExponents line := by
    intro line hmem
    rw [List.mem_singleton.mp hmem]
    exact hline
  refine ⟨hline, ?_, ?_⟩
  · rw [Ne, parse_encodeFile_iff capitals control_header control_trailer hlines]
    intro unmistakable
    have hcontrol := (unmistakable _ (List.mem_singleton_self _)).notControl
    cases hcontrol
  · rw [parse_answers_iff]
    exact fun hother => hother (by decide)

end LegacyFixedWidthParser

end PayzenoLedger
