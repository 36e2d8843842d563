import PayzenoLedger.Domain.Rules
import PayzenoLedger.Library.Base64
import PayzenoLedger.Library.Keyset
import Mathlib.Data.String.Basic

/-!
# Pages of a repository

A list is read in descending order of a text column.  The cursor that continues it is the last
key of the page, in base64 without the padding, and the next page selects strictly below it.
One row more than the page is read, to tell whether anything remains.
-/

set_option autoImplicit false

namespace PayzenoLedger

open Library

/-- `MAX_PAGE_SIZE`. -/
def maxPageSize : Int := 200

/-- `DEFAULT_PAGE_SIZE`. -/
def defaultPageSize : Int := 50

structure Page (Row : Type) where
  items : List Row
  nextCursor : Option String
  hasMore : Bool

/-! ## Cursors -/

def encodeCursor (value : String) : String :=
  String.ofList (Base64.unpadded value.toUTF8.data.toList)

/-- A character outside ASCII, digits that are no base64 and bytes that are no UTF-8 fail
alike. -/
def decodeCursor (cursor : String) : Except Exception String :=
  let padded := Base64.padded cursor.toList
  let decoded :=
    if padded.all fun char => char.toNat < 128 then
      (Base64.decode padded).bind fun bytes => String.fromUTF8? ⟨bytes.toArray⟩
    else none
  match decoded with
  | some value => .ok value
  | none =>
      .error (ruleError .validationError "malformed cursor" [("cursor", .text cursor)])

theorem fromUTF8_toUTF8 (value : String) : String.fromUTF8? value.toUTF8 = some value := by
  unfold String.fromUTF8?
  exact dif_pos value.isValidUTF8

/-- A key comes back from its cursor. -/
theorem decodeCursor_encodeCursor (value : String) :
    decodeCursor (encodeCursor value) = .ok value := by
  have hpadded : Base64.padded (encodeCursor value).toList =
      Base64.encode value.toUTF8.data.toList := by
    unfold encodeCursor
    rw [String.toList_ofList, Base64.padded_unpadded]
  have hascii : ((Base64.encode value.toUTF8.data.toList).all fun char => char.toNat < 128) =
      true :=
    List.all_eq_true.mpr fun char hchar =>
      decide_eq_true (Base64.encode_lt_128 value.toUTF8.data.toList char hchar)
  have hbytes : String.fromUTF8? ⟨value.toUTF8.data⟩ = some value := fromUTF8_toUTF8 value
  unfold decodeCursor
  simp only [hpadded, hascii, if_true, Base64.decode_encode, Option.bind_some,
    Array.toArray_toList, hbytes]

/-! ## One page -/

def clampLimit (limit : Option Int) : Except Exception Int :=
  match limit with
  | none => .ok defaultPageSize
  | some limit =>
      if limit < 1 then
        .error (ruleError .validationError "limit must be positive" [("limit", .int limit)])
      else .ok (min limit maxPageSize)

/-- The order of texts in the collation of the database: they compare by what they weigh, and
no two of them weigh the same. -/
structure Collation where
  Weight : Type
  order : LinearOrder Weight
  weigh : String → Weight
  injective : Function.Injective weigh

instance (collation : Collation) : LinearOrder collation.Weight := collation.order

/-- The collation that compares code points. -/
def Collation.codePoints : Collation where
  Weight := String
  order := inferInstance
  weigh := id
  injective := Function.injective_id

/-- What a repository says of the table it reads: the name of the model, the column that the
pages are ordered by, and how a column of some name compares with a value. -/
structure BaseRepository (Row Value : Type) where
  entity : String
  defaultOrder : Row → String
  column : String → Option (Row → Value → Bool)

namespace BaseRepository

variable {Row Value : Type} (repository : BaseRepository Row Value)

/-- The filters are equalities; one without a value is passed over. -/
def filterBy : List (String × Option Value) → List Row → Except Exception (List Row)
  | [], rows => .ok rows
  | (_, none) :: filters, rows => filterBy filters rows
  | (columnName, some value) :: filters, rows =>
      match repository.column columnName with
      | none =>
          .error (ruleError .validationError "unknown filter column"
            [("column", .text columnName), ("entity", .text repository.entity)])
      | some equals => filterBy filters (rows.filter fun row => equals row value)

variable (collation : Collation)

/-- A row's place in the order of the pages. -/
def place (row : Row) : collation.Weight :=
  collation.weigh (repository.defaultOrder row)

def belowCursor (cursor : Option String) (rows : List Row) : Except Exception (List Row) :=
  match cursor with
  | none => .ok rows
  | some cursor => do
      let bound ← decodeCursor cursor
      pure (rows.filter (Keyset.below (repository.place collation) (some (collation.weigh bound))))

/-- `BaseRepository.list_page`. -/
def listPage (table : List Row) (cursor : Option String) (limit : Option Int)
    (conditions : List (Row → Bool)) (filters : List (String × Option Value)) :
    Except Exception (Page Row) := do
  let pageSize ← clampLimit limit
  let selected := table.filter fun row => conditions.all fun condition => condition row
  let selected ← repository.filterBy filters selected
  let selected ← repository.belowCursor collation cursor selected
  let rows := (Keyset.descending (repository.place collation) selected).take (pageSize + 1).toNat
  let hasMore := decide (pageSize < rows.length)
  let items := rows.take pageSize.toNat
  let nextCursor :=
    match hasMore, items.getLast? with
    | true, some last => some (encodeCursor (repository.defaultOrder last))
    | _, _ => none
  pure { items, nextCursor, hasMore }

end BaseRepository

/-! ## Entries -/

namespace LedgerEntryRepository

/-- Entries are filtered on their text columns. -/
def columns : BaseRepository LedgerEntry String where
  entity := "LedgerEntry"
  defaultOrder := LedgerEntry.id
  column
    | "id" => some fun row value => row.id == value
    | "transaction_id" => some fun row value => row.transactionId == value
    | "account_id" => some fun row value => row.accountId == value
    | "currency" => some fun row value => row.currency == value
    | _ => none

/-- The conditions for `[created_from, created_to)`. -/
def window (createdFrom createdTo : Option Instant) : List (LedgerEntry → Bool) :=
  (match createdFrom with
    | none => []
    | some createdFrom => [fun row => createdFrom ≤ row.createdAt]) ++
  (match createdTo with
    | none => []
    | some createdTo => [fun row => row.createdAt < createdTo])

/-- `LedgerEntryRepository.list_page`. -/
def listPage (collation : Collation) (table : List LedgerEntry) (cursor : Option String)
    (limit : Option Int) (createdFrom createdTo : Option Instant)
    (filters : List (String × Option String)) : Except Exception (Page LedgerEntry) :=
  columns.listPage collation table cursor limit (window createdFrom createdTo) filters

def sampleEntry (id : String) (createdAt : Instant) : LedgerEntry where
  id := id
  transactionId := "ltx_1"
  accountId := "acct_payable"
  direction := .credit
  amountMinor := 500
  currency := "USD"
  livemode := true
  sequence := 0
  createdAt := createdAt

end LedgerEntryRepository

/-! ## What a page holds -/

namespace BaseRepository

variable {Row Value : Type} (repository : BaseRepository Row Value)

/-- Whether a row passes every filter that has a value. -/
def passes (filters : List (String × Option Value)) (row : Row) : Bool :=
  filters.all fun filter =>
    match filter.2, repository.column filter.1 with
    | some value, some equals => equals row value
    | _, _ => true

/-- The columns that are filtered on are columns of the model. -/
def Known (filters : List (String × Option Value)) : Prop :=
  ∀ filter ∈ filters, filter.2.isSome = true → (repository.column filter.1).isSome = true

/-- Whether a row is one that the list is asked for. -/
def selects (conditions : List (Row → Bool)) (filters : List (String × Option Value))
    (row : Row) : Bool :=
  (conditions.all fun condition => condition row) && repository.passes filters row

variable {repository}

theorem filterBy_eq_ok {filters : List (String × Option Value)}
    (hknown : repository.Known filters) (rows : List Row) :
    repository.filterBy filters rows = .ok (rows.filter (repository.passes filters)) := by
  induction filters generalizing rows with
  | nil => exact congrArg Except.ok (List.filter_eq_self.mpr fun _ _ => rfl).symm
  | cons filter filters ih =>
      obtain ⟨columnName, value⟩ := filter
      obtain ⟨hcolumn, hothers⟩ := List.forall_mem_cons.mp hknown
      cases value with
      | none =>
          unfold filterBy
          rw [ih hothers]
          rfl
      | some value =>
          obtain ⟨equals, hequals⟩ := Option.isSome_iff_exists.mp (hcolumn rfl)
          unfold filterBy
          rw [hequals]
          dsimp only
          rw [ih hothers, List.filter_filter]
          refine congrArg Except.ok (List.filter_congr fun row _ => ?_)
          simp only [passes, List.all_cons, hequals, Bool.and_comm]

variable {collation : Collation}

/-- What a cursor bounds the page by. -/
inductive Reads : Option String → Option collation.Weight → Prop where
  | start : Reads none none
  | after {cursor bound : String} (h : decodeCursor cursor = .ok bound) :
      Reads (some cursor) (some (collation.weigh bound))

theorem belowCursor_eq_ok {cursor : Option String} {bound : Option collation.Weight}
    (h : Reads cursor bound) (rows : List Row) :
    repository.belowCursor collation cursor rows =
      .ok (rows.filter (Keyset.below (repository.place collation) bound)) := by
  cases h with
  | start => exact congrArg Except.ok (List.filter_eq_self.mpr fun _ _ => rfl).symm
  | after h =>
      unfold belowCursor
      dsimp only
      rw [h]
      rfl

theorem reads_of_belowCursor {cursor : Option String} {rows below : List Row}
    (h : repository.belowCursor collation cursor rows = .ok below) :
    ∃ bound : Option collation.Weight, Reads cursor bound := by
  cases cursor with
  | none => exact ⟨none, .start⟩
  | some cursor =>
      cases hbound : decodeCursor cursor with
      | ok bound => exact ⟨_, .after hbound⟩
      | error exception =>
          unfold belowCursor at h
          dsimp only at h
          rw [hbound] at h
          cases h

variable (repository) in
/-- The first page of the rows that are left. -/
def pageOf (pageSize : Int) (left : List Row) : Page Row where
  items := left.take pageSize.toNat
  nextCursor :=
    match decide (pageSize < left.length), (left.take pageSize.toNat).getLast? with
    | true, some last => some (encodeCursor (repository.defaultOrder last))
    | _, _ => none
  hasMore := decide (pageSize < left.length)

/-- The one row more tells as much as all the rows that are left. -/
theorem pageOf_take {pageSize : Int} (h : 1 ≤ pageSize) (left : List Row) :
    repository.pageOf pageSize (left.take (pageSize + 1).toNat) =
      repository.pageOf pageSize left := by
  have hitems : (left.take (pageSize + 1).toNat).take pageSize.toNat =
      left.take pageSize.toNat := by
    rw [List.take_take]
    congr 1
    omega
  have hmore : (pageSize < (left.take (pageSize + 1).toNat).length) =
      (pageSize < left.length) := by
    rw [List.length_take]
    refine propext ⟨fun _ => ?_, fun _ => ?_⟩ <;> omega
  unfold pageOf
  simp only [hitems, hmore]

theorem clampLimit_eq_ok {limit : Option Int} {pageSize : Int}
    (h : clampLimit limit = .ok pageSize) : 1 ≤ pageSize := by
  unfold clampLimit at h
  cases limit with
  | none =>
      cases h
      decide
  | some limit =>
      dsimp only at h
      split at h
      · cases h
      · cases h
        exact le_min (by omega) (by decide)

theorem exists_clampLimit {limit : Option Int} (h : ∀ size, limit = some size → 1 ≤ size) :
    ∃ pageSize, clampLimit limit = .ok pageSize := by
  cases limit with
  | none => exact ⟨_, rfl⟩
  | some limit =>
      have hsize := h limit rfl
      exact ⟨min limit maxPageSize, if_neg (by omega)⟩

variable {table : List Row} {limit : Option Int} {conditions : List (Row → Bool)}
  {filters : List (String × Option Value)}

variable (repository collation table conditions filters) in
/-- The rows that the list still has to give below a bound, in the order of the pages. -/
def left (bound : Option collation.Weight) : List Row :=
  Keyset.remaining (repository.place collation)
    (table.filter (repository.selects conditions filters)) bound

theorem listPage_eq_ok {cursor : Option String} {bound : Option collation.Weight}
    {pageSize : Int} (hsize : clampLimit limit = .ok pageSize)
    (hknown : repository.Known filters) (hcursor : Reads cursor bound) :
    repository.listPage collation table cursor limit conditions filters =
      .ok (repository.pageOf pageSize
        (repository.left collation table conditions filters bound)) := by
  have hpositive := clampLimit_eq_ok hsize
  have hrows : (table.filter fun row => conditions.all fun condition => condition row).filter
      (repository.passes filters) = table.filter (repository.selects conditions filters) := by
    rw [List.filter_filter]
    exact List.filter_congr fun row _ => Bool.and_comm _ _
  unfold listPage
  rw [hsize]
  change (repository.filterBy filters _ >>= fun selected => _) = _
  rw [filterBy_eq_ok hknown]
  change (repository.belowCursor collation cursor _ >>= fun selected => _) = _
  rw [belowCursor_eq_ok hcursor, hrows]
  exact congrArg Except.ok (pageOf_take hpositive _)

variable (repository) in
/-- A page that is not the last ends in a row, and its cursor bounds the next page by the key
of that row. -/
theorem pageOf_next {pageSize : Int} (hpositive : 1 ≤ pageSize) {left : List Row}
    (hmore : pageSize < left.length) :
    ∃ front last, left = front ++ last :: left.drop pageSize.toNat ∧
      (repository.pageOf pageSize left).items = front ++ [last] ∧
      (repository.pageOf pageSize left).nextCursor =
        some (encodeCursor (repository.defaultOrder last)) := by
  have hne : left.take pageSize.toNat ≠ [] := by
    intro hnil
    have hlength := congrArg List.length hnil
    rw [List.length_take, List.length_nil] at hlength
    omega
  refine ⟨(left.take pageSize.toNat).dropLast, (left.take pageSize.toNat).getLast hne, ?_, ?_, ?_⟩
  · rw [List.append_cons, List.dropLast_append_getLast hne, List.take_append_drop]
  · exact (List.dropLast_append_getLast hne).symm
  · unfold pageOf
    simp only [hmore, decide_true, List.getLast?_eq_some_getLast hne]

variable (repository) in
theorem pageOf_last {pageSize : Int} {left : List Row} (h : left.length ≤ pageSize) :
    (repository.pageOf pageSize left).items = left ∧
      (repository.pageOf pageSize left).nextCursor = none := by
  have hmore : ¬ pageSize < left.length := by omega
  constructor
  · exact List.take_of_length_le (by omega)
  · unfold pageOf
    simp only [hmore, decide_false]

/-! ## Following the cursors -/

/-- The pages that a caller gets who starts at a cursor and goes on until there is none. -/
inductive Follows (list : Option String → Except Exception (Page Row)) :
    Option String → List (Page Row) → Prop where
  | last {cursor : Option String} {page : Page Row} (hpage : list cursor = .ok page)
      (hnext : page.nextCursor = none) : Follows list cursor [page]
  | next {cursor : Option String} {page : Page Row} {next : String} {pages : List (Page Row)}
      (hpage : list cursor = .ok page) (hnext : page.nextCursor = some next)
      (hpages : Follows list (some next) pages) : Follows list cursor (page :: pages)

theorem Follows.unique {list : Option String → Except Exception (Page Row)}
    {cursor : Option String} {pages others : List (Page Row)} (h : Follows list cursor pages)
    (hothers : Follows list cursor others) : pages = others := by
  induction h generalizing others with
  | last hpage hnext =>
      cases hothers with
      | last hpage' _ =>
          cases hpage.symm.trans hpage'
          rfl
      | next hpage' hnext' _ =>
          cases hpage.symm.trans hpage'
          cases hnext.symm.trans hnext'
  | next hpage hnext _ ih =>
      cases hothers with
      | last hpage' hnext' =>
          cases hpage.symm.trans hpage'
          cases hnext.symm.trans hnext'
      | next hpage' hnext' hpages' =>
          cases hpage.symm.trans hpage'
          cases hnext.symm.trans hnext'
          rw [ih hpages']

variable (collation) in
/-- The rows that are asked for differ in their places. -/
theorem nodup_places (hkeys : (table.map repository.defaultOrder).Nodup) (test : Row → Bool) :
    ((table.filter test).map (repository.place collation)).Nodup := by
  have hselected := hkeys.sublist ((List.filter_sublist (p := test)).map repository.defaultOrder)
  have hmap := hselected.map collation.injective
  rw [List.map_map] at hmap
  exact hmap

variable (collation conditions) in
/-- From any bound the pages give what is left, in order. -/
theorem exists_follows (hkeys : (table.map repository.defaultOrder).Nodup)
    (hknown : repository.Known filters) {pageSize : Int}
    (hsize : clampLimit limit = .ok pageSize) {cursor : Option String}
    {bound : Option collation.Weight} (hcursor : Reads cursor bound) :
    ∃ pages, Follows
        (fun cursor => repository.listPage collation table cursor limit conditions filters)
        cursor pages ∧
      pages.flatMap Page.items = repository.left collation table conditions filters bound := by
  have hpositive := clampLimit_eq_ok hsize
  have hselected := nodup_places collation hkeys (repository.selects conditions filters)
  induction hlength : (repository.left collation table conditions filters bound).length
    using Nat.strong_induction_on generalizing cursor bound with
  | h length ih =>
      have hpage : repository.listPage collation table cursor limit conditions filters = .ok _ :=
        listPage_eq_ok hsize hknown hcursor
      by_cases hmore : pageSize < (repository.left collation table conditions filters bound).length
      · obtain ⟨front, last, hleft, hitems, hnext⟩ :=
          pageOf_next repository hpositive hmore
        have hafter : repository.left collation table conditions filters
            (some (repository.place collation last)) = _ :=
          Keyset.remaining_after hselected hleft
        have hreads : Reads (some (encodeCursor (repository.defaultOrder last)))
            (some (repository.place collation last)) :=
          .after (decodeCursor_encodeCursor _)
        obtain ⟨pages, hpages, hflat⟩ := ih _ (by
          rw [hafter, List.length_drop]
          omega) hreads rfl
        refine ⟨_ :: pages, .next hpage hnext hpages, ?_⟩
        rw [List.flatMap_cons, hitems, hflat, hafter, ← List.append_cons, ← hleft]
      · obtain ⟨hitems, hnext⟩ := pageOf_last repository (not_lt.mp hmore)
        refine ⟨[_], .last hpage hnext, ?_⟩
        rw [List.flatMap_singleton, hitems]

/-- Whether a row lies beyond what a cursor stands for. -/
def Beyond (repository : BaseRepository Row Value) (collation : Collation)
    (cursor : Option String) (row : Row) : Prop :=
  ∀ text bound, cursor = some text → decodeCursor text = .ok bound →
    repository.place collation row < collation.weigh bound

variable (repository) in
theorem below_iff_beyond {cursor : Option String} {bound : Option collation.Weight}
    (h : Reads cursor bound) (row : Row) :
    Keyset.below (repository.place collation) bound row = true ↔
      repository.Beyond collation cursor row := by
  cases h with
  | start =>
      refine ⟨fun _ text bound hcursor => ?_, fun _ => rfl⟩
      cases hcursor
  | @after cursor bound h =>
      constructor
      · intro hbelow text bound' htext hbound
        cases htext
        cases h.symm.trans hbound
        exact of_decide_eq_true hbelow
      · intro hbeyond
        exact decide_eq_true (hbeyond cursor bound rfl h)

theorem mem_left {cursor : Option String} {bound : Option collation.Weight}
    (h : Reads cursor bound) (row : Row) :
    row ∈ repository.left collation table conditions filters bound ↔
      row ∈ table ∧ repository.selects conditions filters row = true ∧
        repository.Beyond collation cursor row := by
  have hbelow := below_iff_beyond repository h row
  rw [← hbelow]
  constructor
  · intro hrow
    obtain ⟨hrow, hbound⟩ := List.mem_filter.mp ((Keyset.descending_perm _).mem_iff.mp hrow)
    obtain ⟨htable, hselects⟩ := List.mem_filter.mp hrow
    exact ⟨htable, hselects, hbound⟩
  · rintro ⟨htable, hselects, hbound⟩
    exact (Keyset.descending_perm _).mem_iff.mpr
      (List.mem_filter.mpr ⟨List.mem_filter.mpr ⟨htable, hselects⟩, hbound⟩)

/-- The pages of a list that is followed to its end. -/
structure VisitsOnce (repository : BaseRepository Row Value) (collation : Collation)
    (table : List Row) (limit : Option Int) (conditions : List (Row → Bool))
    (filters : List (String × Option Value)) : Prop where
  /-- The pages come to an end. -/
  ends : ∃ pages, Follows
    (fun cursor => repository.listPage collation table cursor limit conditions filters) none pages
  /-- Every row that is asked for stands on one page, once. -/
  once : ∀ pages, Follows
      (fun cursor => repository.listPage collation table cursor limit conditions filters)
      none pages →
    (pages.flatMap Page.items).Perm (table.filter (repository.selects conditions filters))
  /-- The rows come in descending order, on each page and from page to page. -/
  order : ∀ pages, Follows
      (fun cursor => repository.listPage collation table cursor limit conditions filters)
      none pages →
    Keyset.Descends (repository.place collation) (pages.flatMap Page.items)
  /-- There is no next cursor exactly when the page holds all that remained. -/
  absent : ∀ cursor page,
    repository.listPage collation table cursor limit conditions filters = .ok page →
    (page.nextCursor = none ↔ ∀ row ∈ table, repository.selects conditions filters row = true →
      repository.Beyond collation cursor row → row ∈ page.items)

theorem listPage_eq_pageOf (hknown : repository.Known filters) {cursor : Option String}
    {page : Page Row}
    (h : repository.listPage collation table cursor limit conditions filters = .ok page) :
    ∃ (pageSize : Int) (bound : Option collation.Weight), clampLimit limit = .ok pageSize ∧
      Reads cursor bound ∧
      page = repository.pageOf pageSize
        (repository.left collation table conditions filters bound) := by
  obtain ⟨pageSize, hsize, bound, hcursor⟩ : ∃ pageSize, clampLimit limit = .ok pageSize ∧
      ∃ bound : Option collation.Weight, Reads cursor bound := by
    unfold listPage at h
    cases hsize : clampLimit limit with
    | error exception =>
        rw [hsize] at h
        cases h
    | ok pageSize =>
        rw [hsize] at h
        change (repository.filterBy filters _ >>= fun selected => _) = _ at h
        rw [filterBy_eq_ok hknown] at h
        change (repository.belowCursor collation cursor _ >>= fun selected => _) = _ at h
        cases hbelow : repository.belowCursor collation cursor _ with
        | error exception =>
            rw [hbelow] at h
            cases h
        | ok below => exact ⟨pageSize, rfl, reads_of_belowCursor hbelow⟩
  refine ⟨pageSize, bound, hsize, hcursor, ?_⟩
  have hpage := h.symm.trans (listPage_eq_ok hsize hknown hcursor)
  exact Except.ok.inj hpage

theorem nextCursor_eq_none_iff (hkeys : (table.map repository.defaultOrder).Nodup)
    (hknown : repository.Known filters) {cursor : Option String} {page : Page Row}
    (hpage : repository.listPage collation table cursor limit conditions filters = .ok page) :
    page.nextCursor = none ↔ ∀ row ∈ table, repository.selects conditions filters row = true →
      repository.Beyond collation cursor row → row ∈ page.items := by
  obtain ⟨pageSize, bound, hsize, hcursor, rfl⟩ := listPage_eq_pageOf hknown hpage
  have hdescends : Keyset.Descends (repository.place collation)
      (repository.left collation table conditions filters bound) := by
    have hselected := nodup_places collation hkeys (repository.selects conditions filters)
    exact Keyset.descends_descending (hselected.sublist (List.filter_sublist.map _))
  have hpositive := clampLimit_eq_ok hsize
  constructor
  · intro hnone row htable hselects hbeyond
    have hrow := (mem_left hcursor row).mpr ⟨htable, hselects, hbeyond⟩
    by_cases hmore : pageSize < (repository.left collation table conditions filters bound).length
    · obtain ⟨_, _, _, _, hnext⟩ :=
        pageOf_next repository hpositive hmore
      cases hnone.symm.trans hnext
    · rw [(pageOf_last repository (not_lt.mp hmore)).1]
      exact hrow
  · intro hall
    by_cases hmore : pageSize < (repository.left collation table conditions filters bound).length
    · -- The first row after the page would stand on it as well.
      obtain ⟨front, last, hleft, hitems, -⟩ :=
        pageOf_next repository hpositive hmore
      obtain ⟨row, rest, hrest⟩ := List.exists_cons_of_length_pos
        (l := (repository.left collation table conditions filters bound).drop pageSize.toNat)
        (by rw [List.length_drop]; omega)
      rw [hrest] at hleft
      have hrow : row ∈ repository.left collation table conditions filters bound := by
        rw [hleft]
        simp
      obtain ⟨htable, hselects, hbeyond⟩ := (mem_left hcursor row).mp hrow
      have hpage := hall row htable hselects hbeyond
      rw [hitems] at hpage
      rw [hleft, List.append_cons] at hdescends
      have hbelow := (List.pairwise_append.mp hdescends).2.2 row hpage row List.mem_cons_self
      exact absurd hbelow (lt_irrefl _)
    · exact (pageOf_last repository (not_lt.mp hmore)).2

/-- Following the cursors from the first page on visits every row that is asked for exactly
once, in the order of the pages, and a cursor stands for the key that it was made of. -/
theorem pages_visit_once (repository : BaseRepository Row Value) (collation : Collation)
    {table : List Row} (hkeys : (table.map repository.defaultOrder).Nodup)
    {limit : Option Int} (hlimit : ∀ size, limit = some size → 1 ≤ size)
    (conditions : List (Row → Bool)) {filters : List (String × Option Value)}
    (hknown : repository.Known filters) :
    repository.VisitsOnce collation table limit conditions filters ∧
      ∀ value, decodeCursor (encodeCursor value) = .ok value := by
  refine ⟨?_, decodeCursor_encodeCursor⟩
  obtain ⟨pageSize, hsize⟩ := exists_clampLimit hlimit
  obtain ⟨pages, hpages, hitems⟩ := exists_follows collation conditions hkeys hknown hsize .start
  have hselected := nodup_places collation hkeys (repository.selects conditions filters)
  have hall : table.filter (repository.selects conditions filters) =
      (table.filter (repository.selects conditions filters)).filter
        (Keyset.below (repository.place collation) none) :=
    (List.filter_eq_self.mpr fun _ _ => rfl).symm
  constructor
  case ends => exact ⟨pages, hpages⟩
  case once =>
    intro others hothers
    rw [← hpages.unique hothers, hitems, hall]
    exact Keyset.descending_perm _
  case order =>
    intro others hothers
    rw [← hpages.unique hothers, hitems]
    unfold left Keyset.remaining
    rw [← hall]
    exact Keyset.descends_descending hselected
  case absent =>
    intro cursor page hpage
    exact nextCursor_eq_none_iff hkeys hknown hpage

/-- Three entries of one account, a page of one row and an open window. -/
theorem entries_visited_once :
    LedgerEntryRepository.columns.VisitsOnce .codePoints
      [LedgerEntryRepository.sampleEntry "len_2" 7, LedgerEntryRepository.sampleEntry "len_3" 9,
        LedgerEntryRepository.sampleEntry "len_1" 5]
      (some 1) (LedgerEntryRepository.window (some 5) none)
      [("account_id", some "acct_payable"), ("currency", none)] := by
  refine (pages_visit_once LedgerEntryRepository.columns .codePoints (by decide)
    (fun size hsize => ?_) _ (fun filter hfilter _ => ?_)).1
  · cases hsize
    decide
  · rcases List.mem_cons.mp hfilter with rfl | hfilter
    · rfl
    · cases List.mem_singleton.mp hfilter
      rfl

end BaseRepository

end PayzenoLedger
