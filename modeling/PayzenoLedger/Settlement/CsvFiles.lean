import PayzenoLedger.Services.SettlementParser

/-!
# Files of comma-separated values

What a Worldflow file holds is read under the names of its columns without the white space
around them.  The parser checks the names that way and then looks the cells up under the
names as they stand, so it answers for a file whose documented names bear no white space.
A row without an acquirer reference is skipped; every other row becomes one line.
-/

set_option autoImplicit false

namespace PayzenoLedger

open Library

/-! ## Names -/

namespace Library.Csv

theorem find_cons (entry : String × Option String) (row : List (String × Option String))
    (name : String) :
    find (entry :: row) name =
      (find row name).or (if name = entry.1 then some entry.2 else none) := by
  obtain ⟨column, cell⟩ := entry
  unfold find
  rw [List.reverse_cons, List.lookup_append]
  congr 1
  by_cases hname : name = column
  · subst hname
    simp
  · have hbeq : (name == column) = false := beq_false_of_ne hname
    simp [List.lookup_cons, hbeq, hname]

/-- Names that are rewritten the same way find the same cell. -/
theorem find_dictRow_map (rename : String → String) {name : String} (hfixed : rename name = name)
    {header : List String} (hname : ∀ column ∈ header, rename column = name → column = name)
    (cells : List String) :
    find (dictRow (header.map rename) cells) name = find (dictRow header cells) name := by
  induction header generalizing cells with
  | nil => rfl
  | cons column header ih =>
      obtain ⟨hcolumn, hrest⟩ := List.forall_mem_cons.mp hname
      have hsame : (name = rename column) = (name = column) := by
        refine propext ⟨fun h => (hcolumn h.symm).symm, fun h => ?_⟩
        rw [← h, hfixed]
      cases cells with
      | nil =>
          rw [List.map_cons, dictRow, dictRow, find_cons, find_cons, ih hrest]
          simp only [hsame]
      | cons cell cells =>
          rw [List.map_cons, dictRow, dictRow, find_cons, find_cons, ih hrest]
          simp only [hsame]

end Library.Csv

namespace WorldflowCsvParser

open SettlementFileParser

variable {methods : TextMethods} {header : List String} {cells : List String}
  {row row' : List (String × Option String)} {raised : Exception}

/-- The columns that the parser reads. -/
def documentedColumns : List String :=
  ["acquirer_reference", "network_reference", "line_type", "gross_minor", "fee_minor",
    "interchange_minor", "scheme_fee_minor", "net_minor", "currency"]

/-- A row under the names of the columns without the white space around them. -/
def trimmedRow (header cells : List String) : List (String × Option String) :=
  Csv.dictRow (header.map stripped) cells

/-- The row has a reference. -/
def hasReference (row : List (String × Option String)) : Bool :=
  match Csv.get row "acquirer_reference" with
  | none => false
  | some reference => reference ≠ ""

/-- An amount is the number in its cell; a cell that is missing or empty is nought. -/
def AmountRead : Option String → Int → Prop
  | none, amount => amount = 0
  | some cell, amount => if cell = "" then amount = 0 else parseInt cell = some amount

/-- The line holds what the row does. -/
structure Carries (methods : TextMethods) (row : List (String × Option String))
    (line : ParsedSettlementLine) : Prop where
  reference : ∃ cell, Csv.get row "acquirer_reference" = some cell ∧
    line.acquirerReference = stripped cell
  network : line.networkReference =
    (Csv.get row "network_reference").bind fun cell =>
      if stripped cell = "" then none else some (stripped cell)
  lineType : ∃ cell, Csv.get row "line_type" = some cell ∧
    knownLineType methods cell = some line.lineType
  gross : AmountRead (Csv.get row "gross_minor") line.grossMinor
  fee : AmountRead (Csv.get row "fee_minor") line.feeMinor
  interchange : AmountRead (Csv.get row "interchange_minor") line.interchangeMinor
  schemeFee : AmountRead (Csv.get row "scheme_fee_minor") line.schemeFeeMinor
  net : AmountRead (Csv.get row "net_minor") line.netMinor
  currency : line.currency = methods.upper (stripped
    (((Csv.get row "currency").filter fun cell => cell ≠ "").getD "USD"))

/-- The names that the parser reads stand in the header without white space, and every row
with a reference has a cell for its line type.  Where the column itself is missing no row has
one, and the parser refuses the file before it reads any. -/
structure Tidy (header : List String) (rows : List (List String)) : Prop where
  names : ∀ column ∈ header, stripped column ∈ documentedColumns → stripped column = column
  codes : ∀ cells ∈ rows, hasReference (trimmedRow header cells) = true →
    ∃ code, Csv.get (trimmedRow header cells) "line_type" = some code

/-! ## One row -/

theorem stripped_documented : ∀ column ∈ documentedColumns, stripped column = column := by
  have hall : documentedColumns.all (fun column => stripped column == column) = true := by decide
  exact fun column hcolumn => beq_iff_eq.mp (List.all_eq_true.mp hall column hcolumn)

theorem find_trimmedRow {column : String} (hcolumn : column ∈ documentedColumns)
    (hnames : ∀ column ∈ header, stripped column ∈ documentedColumns →
      stripped column = column) (cells : List String) :
    Csv.find (trimmedRow header cells) column = Csv.find (Csv.dictRow header cells) column := by
  refine Csv.find_dictRow_map stripped (stripped_documented column hcolumn) ?_ cells
  intro other hother hsame
  rw [← hnames other hother (hsame ▸ hcolumn)]
  exact hsame

theorem parseRow_congr
    (h : ∀ column ∈ documentedColumns, Csv.find row column = Csv.find row' column) :
    parseRow methods row = parseRow methods row' := by
  have hget : ∀ column ∈ documentedColumns, Csv.get row column = Csv.get row' column := by
    intro column hcolumn
    unfold Csv.get
    rw [h column hcolumn]
  unfold parseRow
  rw [h "line_type" (by decide), hget "acquirer_reference" (by decide),
    hget "network_reference" (by decide), hget "gross_minor" (by decide),
    hget "fee_minor" (by decide), hget "interchange_minor" (by decide),
    hget "scheme_fee_minor" (by decide), hget "net_minor" (by decide),
    hget "currency" (by decide)]

theorem int_rejectedOr (cell : Option String) :
    RejectedOr (SettlementFileParser.int methods cell) (AmountRead cell) := by
  cases cell with
  | none => exact .inr ⟨0, rfl, rfl⟩
  | some text =>
      unfold SettlementFileParser.int AmountRead
      dsimp only
      split
      · exact .inr ⟨0, rfl, rfl⟩
      · split
        · next amount hamount => exact .inr ⟨amount, rfl, hamount⟩
        · exact .inl ⟨_, rfl, rfl⟩

theorem parseRow_skips (h : hasReference row = false) : parseRow methods row = .ok none := by
  unfold hasReference at h
  unfold parseRow
  split at h
  · next hnone => rw [hnone]; rfl
  · next reference hsome =>
      have hempty : reference = "" := by simpa using h
      rw [hsome, hempty]
      rfl

/-- A row with a reference is read as one line. -/
theorem parseRow_reads (h : hasReference row = true)
    (hcode : ∃ code, Csv.get row "line_type" = some code) :
    RejectedOr (parseRow methods row) fun parsed =>
      ∃ line, parsed = some line ∧ Carries methods row line := by
  obtain ⟨code, hcode⟩ := hcode
  have hfind : Csv.find row "line_type" = some (some code) := Option.join_eq_some_iff.mp hcode
  unfold hasReference at h
  split at h
  · cases h
  · next reference hreference =>
      have hnonempty : reference ≠ "" := by simpa using h
      unfold parseRow
      rw [hreference, hfind]
      split
      · next hnone => cases hnone
      · next hempty => exact absurd (Option.some.inj hempty) hnonempty
      · next present _ hpresent =>
          obtain rfl := Option.some.inj hpresent
          refine rejectedOr_bind (lineType_rejectedOr code) fun lineType hlineType => ?_
          refine rejectedOr_bind (int_rejectedOr _) fun gross hgross => ?_
          refine rejectedOr_bind (int_rejectedOr _) fun fee hfee => ?_
          refine rejectedOr_bind (int_rejectedOr _) fun interchange hinterchange => ?_
          refine rejectedOr_bind (int_rejectedOr _) fun schemeFee hschemeFee => ?_
          refine rejectedOr_bind (int_rejectedOr _) fun net hnet => ?_
          refine .inr ⟨_, rfl, _, rfl, ?_⟩
          constructor
          · exact ⟨reference, hreference, rfl⟩
          · dsimp only
            cases Csv.get row "network_reference" with
            | none => rfl
            | some cell => rfl
          · exact ⟨code, hcode, hlineType⟩
          · exact hgross
          · exact hfee
          · exact hinterchange
          · exact hschemeFee
          · exact hnet
          · dsimp only
            split
            · next hcurrency => rw [hcurrency]; rfl
            · next hcurrency => rw [hcurrency]; rfl
            · next currency hcurrency hsome =>
                rw [hsome, Option.filter_some_pos (by simpa using hcurrency)]
                rfl

/-! ## The file -/

/-- The rows with a reference become the lines, in order. -/
theorem parseRows_reads {rows : List (List String)} (tidy : Tidy header rows) :
    RejectedOr (parseRows methods header rows) fun lines =>
      List.Forall₂ (fun cells line => Carries methods (trimmedRow header cells) line)
        (rows.filter fun cells => hasReference (trimmedRow header cells)) lines := by
  induction rows with
  | nil => exact .inr ⟨[], rfl, .nil⟩
  | cons cells rows ih =>
      have hrest : Tidy header rows :=
        ⟨tidy.names, fun cells hcells => tidy.codes cells (List.mem_cons_of_mem _ hcells)⟩
      have htrimmed : parseRow methods (Csv.dictRow header cells) =
          parseRow methods (trimmedRow header cells) :=
        (parseRow_congr fun column hcolumn =>
          find_trimmedRow hcolumn tidy.names cells).symm
      unfold parseRows
      rw [htrimmed]
      cases hreference : hasReference (trimmedRow header cells) with
      | false =>
          rw [List.filter_cons_of_neg (by simp [hreference])]
          have hskipped : RejectedOr (parseRow methods (trimmedRow header cells)) (· = none) :=
            .inr ⟨none, parseRow_skips hreference, rfl⟩
          refine rejectedOr_bind hskipped fun parsed hparsed => ?_
          rw [hparsed]
          exact rejectedOr_bind (ih hrest) fun lines hlines => .inr ⟨lines, rfl, hlines⟩
      | true =>
          rw [List.filter_cons, if_pos hreference]
          refine rejectedOr_bind (parseRow_reads hreference
            (tidy.codes cells List.mem_cons_self hreference)) fun parsed hparsed => ?_
          obtain ⟨line, rfl, hline⟩ := hparsed
          exact rejectedOr_bind (ih hrest) fun lines hlines =>
            .inr ⟨line :: lines, rfl, .cons hline hlines⟩

/-- The names of the columns: the first row. -/
def headerOf (rows : List (List String)) : List String :=
  rows.headD []

/-- The rows after the first that are not blank. -/
def dataRows (rows : List (List String)) : List (List String) :=
  rows.tail.filter fun cells => cells ≠ []

/-- A tidy file is refused with a validation error or becomes one line for each row with
a reference, in order and with what the row holds. -/
theorem parse_keeps_rows (methods : TextMethods) {raw : ByteArray} {text : List Char}
    {rows : List (List String)} (hdecoded : decode raw = some text)
    (hrows : Csv.rows text = (rows, none)) (tidy : Tidy (headerOf rows) (dataRows rows)) :
    RejectedOr (parse methods raw) fun lines =>
      List.Forall₂ (fun cells line => Carries methods (trimmedRow (headerOf rows) cells) line)
        ((dataRows rows).filter fun cells => hasReference (trimmedRow (headerOf rows) cells))
        lines := by
  unfold parse
  rw [hdecoded]
  dsimp only
  rw [hrows]
  cases rows with
  | nil => exact .inl ⟨_, rfl, rfl⟩
  | cons header rest =>
      dsimp only
      split
      · exact .inl ⟨_, rfl, rfl⟩
      · exact rejectedOr_bind (parseRows_reads tidy) fun lines hlines => .inr ⟨lines, rfl, hlines⟩

/-! ## A row without a reference -/

theorem decode_toUTF8 {text : String} (h : text.toList.head? ≠ some '\uFEFF') :
    decode text.toUTF8 = some text.toList := by
  have hvalid : String.fromUTF8? text.toUTF8 = some text := dif_pos text.isValidUTF8
  unfold decode
  rw [hvalid]
  dsimp only
  split
  · next rest hmark => exact absurd (by rw [hmark]; rfl) h
  · rfl

/-- Every row becomes a line, as long as nothing but a validation error is raised. -/
def LosesNoRow (methods : TextMethods) (raw : ByteArray) : Prop :=
  RejectedOr (parse methods raw) fun lines => ∃ text rows, decode raw = some text ∧
    Csv.rows text = (rows, none) ∧
    List.Forall₂ (fun cells line => Carries methods (trimmedRow (headerOf rows) cells) line)
      (dataRows rows) lines

/-- The case mappings of ASCII. -/
def asciiMethods : TextMethods where
  upper text := String.ofList (text.toList.map Char.toUpper)
  lower text := String.ofList (text.toList.map Char.toLower)
  repr text := "'" ++ text ++ "'"

/-- Two sales, the second without a reference. -/
def sampleText : String :=
  "currency,net_minor,line_type,acquirer_reference,gross_minor\n" ++
    "USD,9710,SL,WF-3001,10000\nUSD,90,SL,,100\n"

def sampleRows : List (List String) :=
  [["currency", "net_minor", "line_type", "acquirer_reference", "gross_minor"],
    ["USD", "9710", "SL", "WF-3001", "10000"], ["USD", "90", "SL", "", "100"]]

def sampleLine : ParsedSettlementLine where
  acquirerReference := "WF-3001"
  networkReference := none
  lineType := .sale
  grossMinor := 10000
  feeMinor := 0
  interchangeMinor := 0
  schemeFeeMinor := 0
  netMinor := 9710
  currency := "USD"

theorem decode_sample : decode sampleText.toUTF8 = some sampleText.toList :=
  decode_toUTF8 (by decide)

theorem rows_sample : Csv.rows sampleText.toList = (sampleRows, none) := by rfl

theorem parse_sample : parse asciiMethods sampleText.toUTF8 = .ok [sampleLine] := by
  unfold parse
  rw [decode_sample]
  dsimp only
  rw [rows_sample]
  rfl

theorem tidy_sample : Tidy (headerOf sampleRows) (dataRows sampleRows) where
  names := by decide
  codes := by
    intro cells hcells _
    have hrows : dataRows sampleRows =
        [["USD", "9710", "SL", "WF-3001", "10000"], ["USD", "90", "SL", "", "100"]] := rfl
    rw [hrows, List.mem_cons, List.mem_singleton] at hcells
    rcases hcells with rfl | rfl
    · exact ⟨"SL", rfl⟩
    · exact ⟨"SL", rfl⟩

/-- The row with a reference is the line of the file. -/
theorem sample_keeps_row :
    Carries asciiMethods (trimmedRow (headerOf sampleRows)
      ["USD", "9710", "SL", "WF-3001", "10000"]) sampleLine := by
  rcases parse_keeps_rows asciiMethods decode_sample rows_sample tidy_sample with
    ⟨raised, hraised, -⟩ | ⟨lines, hlines, hcarried⟩
  · rw [parse_sample] at hraised
    cases hraised
  · rw [parse_sample] at hlines
    cases hlines
    cases hcarried with
    | cons hcarries _ => exact hcarries

/-- The row without a reference is lost. -/
theorem row_without_reference_lost : ¬ LosesNoRow asciiMethods sampleText.toUTF8 := by
  rintro (⟨raised, hraised, -⟩ | ⟨lines, hlines, text, rows, hdecoded, hrows, hcarried⟩)
  · rw [parse_sample] at hraised
    cases hraised
  · rw [parse_sample] at hlines
    cases hlines
    obtain rfl := Option.some.inj (decode_sample.symm.trans hdecoded)
    obtain rfl := congrArg Prod.fst (rows_sample.symm.trans hrows)
    have hlength := hcarried.length_eq
    cases hlength

end WorldflowCsvParser

end PayzenoLedger
