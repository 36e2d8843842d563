import PayzenoLedger.Services.Balances

/-!
# The balance history tiles its window

Hours and days are buckets to the service and to the query alike.  A week is one to the service
alone: a weekly request passes the checks, and the query refuses it unless the merchant has no
payable account.
-/

set_option autoImplicit false

namespace PayzenoLedger

open Library LedgerEntryRepository

/-! ## What a history should show -/

/-- The unit that an interval is the width of. -/
def intervalUnit : List (String × TruncUnit) :=
  [("hour", .hour), ("day", .day), ("week", .week)]

def Account.IsPayable (merchantId currency : String) (livemode : Bool) (account : Account) :
    Prop :=
  account.merchantId = some merchantId ∧ account.type = .merchantPayable ∧
    account.currency = currency ∧ account.livemode = livemode

instance (merchantId currency : String) (livemode : Bool) (account : Account) :
    Decidable (account.IsPayable merchantId currency livemode) :=
  inferInstanceAs (Decidable (_ ∧ _))

/-- The entries of the window on a payable account of the merchant. -/
def payableEntries (merchantId currency : String) (livemode : Bool) (from_ to_ : Datetime)
    (opened db : Database) : List LedgerEntry :=
  db.entries.filter fun entry =>
    (opened.accounts.any fun account =>
      account.IsPayable merchantId currency livemode ∧ account.id = entry.accountId) ∧
    from_.instant ≤ entry.createdAt ∧ entry.createdAt < to_.instant

/-- An instant that is not after the end of the bucket that begins at `start`. -/
def UpToEnd (zone : SessionZone) (unit : TruncUnit) (start instant : Int) : Prop :=
  ∃ last, zone.dateTrunc unit last = start ∧ instant ≤ last

open Classical in
/-- The points tile the entries. -/
structure Tiles (zone : SessionZone) (unit : TruncUnit) (entries : List LedgerEntry)
    (points : List TimeseriesPoint) : Prop where
  /-- Every entry has one point. -/
  placed : ∀ entry ∈ entries, ∃! point, point ∈ points ∧
    point.bucketStart = bucketOf zone unit entry
  /-- A point counts the entries it is the point of, and has some. -/
  count : ∀ point ∈ points, 0 < point.count ∧
    point.count = (entries.filter fun entry => bucketOf zone unit entry = point.bucketStart).length
  /-- Buckets begin one after the other. -/
  increase : points.Pairwise fun first second => first.bucketStart < second.bucketStart
  /-- A point shows the movement up to the end of its bucket. -/
  amount : ∀ point ∈ points, point.amountMinor =
    netMinor (entries.filter fun entry => UpToEnd zone unit point.bucketStart entry.createdAt)
  /-- The last point shows all of it, and only a window without entries has none. -/
  last : match points.getLast? with
    | some point => point.amountMinor = netMinor entries
    | none => entries = []

/-! ## The running sum -/

namespace BalanceService

theorem accumulate_starts (running : Int) (rows : List BalanceBucketRow) :
    (accumulate running rows).map TimeseriesPoint.bucketStart =
      rows.map BalanceBucketRow.bucketStart := by
  induction rows generalizing running with
  | nil => rfl
  | cons row rows ih =>
      unfold accumulate
      rw [List.map_cons, List.map_cons, ih]

/-- A point shows the rows up to its own. -/
theorem mem_accumulate {running : Int} {rows : List BalanceBucketRow} {point : TimeseriesPoint}
    (h : point ∈ accumulate running rows) :
    ∃ before row after, rows = before ++ row :: after ∧
      point = { bucketStart := row.bucketStart
                amountMinor :=
                  running + ((before ++ [row]).map BalanceBucketRow.deltaMinor).sum
                count := row.entryCount } := by
  induction rows generalizing running with
  | nil => cases h
  | cons row rows ih =>
      unfold accumulate at h
      rcases List.mem_cons.mp h with rfl | h
      · refine ⟨[], row, rows, rfl, ?_⟩
        simp
      · obtain ⟨before, other, after, hrows, hpoint⟩ := ih h
        refine ⟨row :: before, other, after, by rw [hrows, List.cons_append], ?_⟩
        rw [hpoint, List.cons_append, List.map_cons, List.sum_cons, Int.add_assoc]

theorem getLast_accumulate {running : Int} {rows : List BalanceBucketRow}
    {point : TimeseriesPoint} (h : (accumulate running rows).getLast? = some point) :
    point.amountMinor = running + (rows.map BalanceBucketRow.deltaMinor).sum := by
  induction rows generalizing running with
  | nil => cases h
  | cons row rows ih =>
      unfold accumulate at h
      rw [List.map_cons, List.sum_cons, ← Int.add_assoc]
      cases hrest : accumulate (running + row.deltaMinor) rows with
      | nil =>
          have hrows : rows = [] := by
            cases rows with
            | nil => rfl
            | cons _ _ => cases hrest
          rw [hrest] at h
          cases h
          rw [hrows]
          simp
      | cons first rest =>
          rw [hrest, List.getLast?_cons_cons, ← hrest] at h
          exact ih h

end BalanceService

/-- What an entry moves. -/
def signedMinor (entry : LedgerEntry) : Int :=
  match entry.direction with
  | .credit => entry.amountMinor
  | .debit => -entry.amountMinor

theorem netMinor_eq_sum (entries : List LedgerEntry) :
    netMinor entries = (entries.map signedMinor).sum := by
  induction entries with
  | nil => rfl
  | cons entry entries ih =>
      rw [List.map_cons, List.sum_cons, ← ih]
      unfold netMinor directionTotal signedMinor
      rw [List.map_cons, List.map_cons, List.sum_cons, List.sum_cons]
      cases entry.direction
      · simp only [reduceCtorEq, if_false, if_true]
        omega
      · simp only [reduceCtorEq, if_false, if_true]
        omega

section

variable (zone : SessionZone) (unit : TruncUnit) (entries : List LedgerEntry)

/-- The rows of the query, in their order. -/
def bucketRows : List BalanceBucketRow :=
  (Buckets.starts (bucketOf zone unit) entries).map fun start =>
    bucketRow start (Buckets.group (bucketOf zone unit) entries start)

theorem bucketRows_starts : (bucketRows zone unit entries).map BalanceBucketRow.bucketStart =
    Buckets.starts (bucketOf zone unit) entries := by
  unfold bucketRows
  rw [List.map_map]
  exact List.map_id _

/-- A row of the query, the starts before it and what the rows up to it add up to. -/
theorem bucketRows_split {before after : List BalanceBucketRow} {row : BalanceBucketRow}
    (h : bucketRows zone unit entries = before ++ row :: after) :
    row = bucketRow row.bucketStart
        (Buckets.group (bucketOf zone unit) entries row.bucketStart) ∧
      ((before ++ [row]).map BalanceBucketRow.deltaMinor).sum =
        netMinor (entries.filter fun entry => bucketOf zone unit entry ≤ row.bucketStart) := by
  unfold bucketRows at h
  obtain ⟨first, second, hstarts, hbefore, hsecond⟩ := List.map_eq_append_iff.mp h
  obtain ⟨start, rest, rfl, hrow, -⟩ := List.map_eq_cons_iff.mp hsecond
  subst hrow hbefore
  refine ⟨rfl, ?_⟩
  have hsum := Buckets.sum_upTo signedMinor hstarts
  rw [netMinor_eq_sum]
  refine Eq.trans ?_ hsum
  rw [List.map_append, List.map_append, List.map_map]
  simp only [List.map_cons, List.map_nil, Function.comp_def, bucketRow, netMinor_eq_sum]

theorem bucketRows_sum :
    ((bucketRows zone unit entries).map BalanceBucketRow.deltaMinor).sum = netMinor entries := by
  have hdistinct : (Buckets.starts (bucketOf zone unit) entries).Nodup :=
    (Buckets.starts_increase entries).imp fun hlt => ne_of_lt hlt
  have hsum := Buckets.sum_groups (bucketOf zone unit) signedMinor entries hdistinct
  have hall : (entries.filter fun entry =>
      (Buckets.starts (bucketOf zone unit) entries).contains (bucketOf zone unit entry)) =
        entries :=
    List.filter_eq_self.mpr fun entry hentry =>
      List.contains_iff_mem.mpr (Buckets.mem_starts.mpr ⟨entry, hentry, rfl⟩)
  rw [hall, ← netMinor_eq_sum] at hsum
  rw [← hsum]
  unfold bucketRows
  rw [List.map_map]
  simp only [Function.comp_def, bucketRow, netMinor_eq_sum]

/-- With the starts of buckets in view, "up to the end of the bucket" is "in a bucket that does
not begin later". -/
theorem upToEnd_iff {start : Int} (h : start ∈ Buckets.starts (bucketOf zone unit) entries)
    (instant : Int) :
    UpToEnd zone unit start instant ↔ zone.dateTrunc unit instant ≤ start := by
  constructor
  · rintro ⟨last, rfl, hlast⟩
    exact zone.monotone unit hlast
  · intro hle
    obtain ⟨entry, -, rfl⟩ := Buckets.mem_starts.mp h
    by_cases hlater : instant ≤ entry.createdAt
    · exact ⟨entry.createdAt, rfl, hlater⟩
    · have hge := zone.monotone unit (le_of_lt (not_le.mp hlater))
      exact ⟨instant, le_antisymm hle hge, le_refl _⟩

theorem tiles_bucketRows :
    Tiles zone unit entries (BalanceService.accumulate 0 (bucketRows zone unit entries)) := by
  have hstarts : (BalanceService.accumulate 0 (bucketRows zone unit entries)).map
      TimeseriesPoint.bucketStart = Buckets.starts (bucketOf zone unit) entries := by
    rw [BalanceService.accumulate_starts, bucketRows_starts]
  have hincrease : (BalanceService.accumulate 0 (bucketRows zone unit entries)).Pairwise
      fun first second => first.bucketStart < second.bucketStart := by
    refine List.pairwise_map.mp ?_
    rw [hstarts]
    exact Buckets.starts_increase entries
  have hmem {point : TimeseriesPoint}
      (hpoint : point ∈ BalanceService.accumulate 0 (bucketRows zone unit entries)) :
      point.bucketStart ∈ Buckets.starts (bucketOf zone unit) entries := by
    rw [← hstarts]
    exact List.mem_map_of_mem hpoint
  constructor
  case increase => exact hincrease
  case placed =>
    intro entry hentry
    have hstart : bucketOf zone unit entry ∈ Buckets.starts (bucketOf zone unit) entries :=
      Buckets.mem_starts.mpr ⟨entry, hentry, rfl⟩
    rw [← hstarts] at hstart
    obtain ⟨point, hpoint, hbucket⟩ := List.mem_map.mp hstart
    refine ⟨point, ⟨hpoint, hbucket⟩, fun other hother => ?_⟩
    have hdistinct : ((BalanceService.accumulate 0 (bucketRows zone unit entries)).map
        TimeseriesPoint.bucketStart).Nodup :=
      List.pairwise_map.mpr (hincrease.imp fun hlt => ne_of_lt hlt)
    exact List.inj_on_of_nodup_map hdistinct hother.1 hpoint (hother.2.trans hbucket.symm)
  case count =>
    intro point hpoint
    have hstart := hmem hpoint
    obtain ⟨before, row, after, hrows, rfl⟩ := BalanceService.mem_accumulate hpoint
    obtain ⟨hrow, -⟩ := bucketRows_split zone unit entries hrows
    have hcount : row.entryCount =
        (Buckets.group (bucketOf zone unit) entries row.bucketStart).length :=
      congrArg BalanceBucketRow.entryCount hrow
    obtain ⟨entry, hentry, hbucket⟩ := Buckets.mem_starts.mp hstart
    refine ⟨?_, hcount⟩
    rw [hcount]
    exact List.length_pos_of_mem (List.mem_filter.mpr ⟨hentry, decide_eq_true hbucket⟩)
  case amount =>
    intro point hpoint
    have hstart := hmem hpoint
    obtain ⟨before, row, after, hrows, rfl⟩ := BalanceService.mem_accumulate hpoint
    obtain ⟨-, hsum⟩ := bucketRows_split zone unit entries hrows
    rw [hsum, Int.zero_add]
    refine congrArg netMinor (List.filter_congr fun entry _ => ?_)
    rw [decide_eq_decide]
    exact (upToEnd_iff zone unit entries hstart entry.createdAt).symm
  case last =>
    cases hlast : (BalanceService.accumulate 0 (bucketRows zone unit entries)).getLast? with
    | some point =>
        have hsum := BalanceService.getLast_accumulate hlast
        rw [bucketRows_sum, Int.zero_add] at hsum
        exact hsum
    | none =>
        rw [List.getLast?_eq_none_iff.mp hlast] at hstarts
        refine List.eq_nil_iff_forall_not_mem.mpr fun entry hentry => ?_
        have hstart : bucketOf zone unit entry ∈ Buckets.starts (bucketOf zone unit) entries :=
          Buckets.mem_starts.mpr ⟨entry, hentry, rfl⟩
        rw [← hstarts] at hstart
        cases hstart

end

/-! ## Which requests are tiled -/

section

variable {merchantId currency : String} {livemode : Bool} {from_ to_ : Datetime}
  {opened db : Database}

theorem isPayable_iff (account : Account) :
    account.IsPayable merchantId currency livemode ↔
      .accountNatural (some merchantId) .merchantPayable currency livemode ∈
        Table.account.keys account := by
  unfold Account.IsPayable
  simp only [Table.keys, List.mem_cons, List.not_mem_nil, or_false, reduceCtorEq, false_or,
    Key.accountNatural.injEq]
  constructor
  · rintro ⟨hmerchant, htype, hcurrency, hlivemode⟩
    exact ⟨hmerchant.symm, htype.symm, hcurrency.symm, hlivemode.symm⟩
  · rintro ⟨hmerchant, htype, hcurrency, hlivemode⟩
    exact ⟨hmerchant.symm, htype.symm, hcurrency.symm, hlivemode.symm⟩

/-- A merchant without a payable account has no payable entries. -/
theorem payableEntries_none
    (h : ∀ account ∈ opened.accounts, ¬ account.IsPayable merchantId currency livemode) :
    payableEntries merchantId currency livemode from_ to_ opened db = [] := by
  refine List.filter_eq_nil_iff.mpr fun entry _ hentry => ?_
  obtain ⟨hany, -⟩ := of_decide_eq_true hentry
  obtain ⟨account, haccount, hmatch⟩ := List.any_eq_true.mp hany
  exact h account haccount (of_decide_eq_true hmatch).1

/-- The payable entries are those of the one payable account. -/
theorem payableEntries_some (unique : Schema.Unique (S := schema) opened) {account : Account}
    (haccount : account ∈ opened.accounts)
    (hpayable : account.IsPayable merchantId currency livemode) :
    payableEntries merchantId currency livemode from_ to_ opened db =
      db.entries.filter (inWindow account.id from_ to_) := by
  refine List.filter_congr fun entry _ => ?_
  have hany : (opened.accounts.any fun account =>
      account.IsPayable merchantId currency livemode ∧ account.id = entry.accountId) = true ↔
        entry.accountId = account.id := by
    constructor
    · intro hany
      obtain ⟨other, hother, hmatch⟩ := List.any_eq_true.mp hany
      obtain ⟨hother', hid⟩ := of_decide_eq_true hmatch
      have hsame : other = account :=
        unique.eq_of_key Table.account _ hother haccount ((isPayable_iff other).mp hother')
          ((isPayable_iff account).mp hpayable)
      rw [← hid, hsame]
    · intro hid
      exact List.any_eq_true.mpr ⟨account, haccount, decide_eq_true ⟨hpayable, hid.symm⟩⟩
  unfold inWindow
  rw [decide_eq_decide, hany]

theorem named_eq_none_iff :
    AccountRepository.named (some merchantId) .merchantPayable currency livemode opened = none ↔
      ∀ account ∈ opened.accounts, ¬ account.IsPayable merchantId currency livemode := by
  unfold AccountRepository.named
  rw [List.head?_eq_none_iff, Schema.holders_eq_nil_iff]
  exact forall₂_congr fun account _ => not_congr (isPayable_iff account).symm

theorem named_eq_some {account : Account}
    (h : AccountRepository.named (some merchantId) .merchantPayable currency livemode opened =
      some account) :
    account ∈ opened.accounts ∧ account.IsPayable merchantId currency livemode := by
  obtain ⟨haccount, hkey⟩ := Schema.mem_holders.mp (List.mem_of_mem_head? h)
  exact ⟨haccount, (isPayable_iff account).mpr hkey⟩

/-! What a request answers that passes the checks. -/

variable {zone : SessionZone} {repr : String → String} {interval : String}

theorem checkWindow_eq_ok {width : Int}
    (hwidth : balanceIntervals.lookup interval = some width)
    (hwindow : from_.instant < to_.instant) (hcount : bucketCount from_ to_ width ≤ maxBuckets) :
    BalanceService.checkWindow repr from_ to_ interval = .ok () := by
  unfold BalanceService.checkWindow
  rw [hwidth]
  dsimp only
  rw [if_neg (not_le.mpr hwindow), if_neg (not_lt.mpr hcount)]

theorem getBalanceHistory_none
    (hcheck : BalanceService.checkWindow repr from_ to_ interval = .ok ())
    (hnamed : AccountRepository.named (some merchantId) .merchantPayable currency livemode
      opened = none) :
    BalanceService.getBalanceHistory zone repr merchantId currency livemode from_ to_ interval
      opened db = .ok { merchantId, currency, interval, points := [] } := by
  unfold BalanceService.getBalanceHistory
  rw [hcheck, hnamed]
  rfl

theorem getBalanceHistory_some
    (hcheck : BalanceService.checkWindow repr from_ to_ interval = .ok ()) {account : Account}
    (hnamed : AccountRepository.named (some merchantId) .merchantPayable currency livemode
      opened = some account) {unit : TruncUnit} (hunit : truncUnit.lookup interval = some unit) :
    BalanceService.getBalanceHistory zone repr merchantId currency livemode from_ to_ interval
      opened db =
      .ok { merchantId, currency, interval
            points := BalanceService.accumulate 0
              (bucketRows zone unit (db.entries.filter (inWindow account.id from_ to_))) } := by
  unfold BalanceService.getBalanceHistory sumByBucket
  rw [hcheck, hnamed, hunit]
  rfl

theorem getBalanceHistory_refused
    (hcheck : BalanceService.checkWindow repr from_ to_ interval = .ok ()) {account : Account}
    (hnamed : AccountRepository.named (some merchantId) .merchantPayable currency livemode
      opened = some account) (hunit : truncUnit.lookup interval = none) :
    BalanceService.getBalanceHistory zone repr merchantId currency livemode from_ to_ interval
      opened db = .error (.valueError ("unsupported interval " ++ repr interval)) := by
  unfold BalanceService.getBalanceHistory sumByBucket
  rw [hcheck, hnamed, hunit]
  rfl

/-- The three intervals, and the unit that the query knows each of them by. -/
theorem interval_cases {width : Int} (hwidth : balanceIntervals.lookup interval = some width) :
    (interval ≠ "week" ∧ ∃ unit, truncUnit.lookup interval = some unit ∧
      intervalUnit.lookup interval = some unit) ∨
    (interval = "week" ∧ truncUnit.lookup interval = none ∧
      intervalUnit.lookup interval = some .week) := by
  by_cases hhour : interval = "hour"
  · subst hhour
    exact .inl ⟨by decide, .hour, rfl, rfl⟩
  · by_cases hday : interval = "day"
    · subst hday
      exact .inl ⟨by decide, .day, rfl, rfl⟩
    · by_cases hweek : interval = "week"
      · subst hweek
        exact .inr ⟨rfl, rfl, rfl⟩
      · unfold balanceIntervals at hwidth
        simp only [List.lookup_cons, List.lookup_nil, beq_eq_false_iff_ne.mpr hhour,
          beq_eq_false_iff_ne.mpr hday, beq_eq_false_iff_ne.mpr hweek, reduceCtorEq] at hwidth

end

/-- The request succeeds and its points tile the payable entries of the window. -/
def HistoryTiles (zone : SessionZone) (repr : String → String) (merchantId currency : String)
    (livemode : Bool) (from_ to_ : Datetime) (interval : String) (opened db : Database) : Prop :=
  ∃ points, BalanceService.getBalanceHistory zone repr merchantId currency livemode from_ to_
      interval opened db = .ok { merchantId, currency, interval, points } ∧
    ∃ unit, intervalUnit.lookup interval = some unit ∧
      Tiles zone unit (payableEntries merchantId currency livemode from_ to_ opened db) points

/-- A history tiles its window unless it is weekly and there is a payable account. -/
theorem balance_history_tiles_iff (zone : SessionZone) (repr : String → String)
    (merchantId currency : String) (livemode : Bool) {from_ to_ : Datetime} {interval : String}
    {width : Int} (hwidth : balanceIntervals.lookup interval = some width)
    (hwindow : from_.instant < to_.instant) (hcount : bucketCount from_ to_ width ≤ maxBuckets)
    {opened : Database} (unique : Schema.Unique (S := schema) opened) (db : Database) :
    HistoryTiles zone repr merchantId currency livemode from_ to_ interval opened db ↔
      interval ≠ "week" ∨
        ∀ account ∈ opened.accounts, ¬ account.IsPayable merchantId currency livemode := by
  have hcheck : BalanceService.checkWindow repr from_ to_ interval = .ok () :=
    checkWindow_eq_ok hwidth hwindow hcount
  cases hnamed : AccountRepository.named (some merchantId) .merchantPayable currency livemode
      opened with
  | none =>
      have hno := named_eq_none_iff.mp hnamed
      refine iff_of_true ⟨[], getBalanceHistory_none hcheck hnamed, ?_⟩ (.inr hno)
      rw [payableEntries_none hno]
      have hunit : ∃ unit, intervalUnit.lookup interval = some unit := by
        rcases interval_cases hwidth with ⟨-, unit, -, hunit⟩ | ⟨-, -, hunit⟩
        · exact ⟨unit, hunit⟩
        · exact ⟨_, hunit⟩
      obtain ⟨unit, hunit⟩ := hunit
      exact ⟨unit, hunit, tiles_bucketRows zone unit []⟩
  | some account =>
      obtain ⟨haccount, hpayable⟩ := named_eq_some hnamed
      rcases interval_cases hwidth with ⟨hweek, unit, htrunc, hunit⟩ | ⟨rfl, htrunc, hunit⟩
      · refine iff_of_true ⟨_, getBalanceHistory_some hcheck hnamed htrunc, unit, hunit, ?_⟩
          (.inl hweek)
        rw [payableEntries_some unique haccount hpayable]
        exact tiles_bucketRows zone unit _
      · refine iff_of_false ?_ ?_
        · rintro ⟨points, hpoints, -⟩
          rw [getBalanceHistory_refused hcheck hnamed htrunc] at hpoints
          cases hpoints
        · rintro (hweek | hno)
          · exact hweek rfl
          · exact hno account haccount hpayable

namespace HistorySample

def account : Account where
  id := "acct_1"
  merchantId := some "mer_1"
  type := .merchantPayable
  currency := "USD"
  normalBalance := .credit
  status := .active
  livemode := true

def entry : LedgerEntry where
  id := "len_1"
  transactionId := "ltx_1"
  accountId := "acct_1"
  direction := .credit
  amountMinor := 2500
  currency := "USD"
  livemode := true
  sequence := 0
  createdAt := 90000000000

def db : Database := { accounts := [account], entries := [entry] }

def start : Datetime := ⟨0, "1970-01-01T00:00:00+00:00"⟩

def end_ : Datetime := ⟨14 * 24 * hourMicros, "1970-01-15T00:00:00+00:00"⟩

/-- The text between quotes, which is how a plain word prints. -/
def quoted (text : String) : String := "'" ++ text ++ "'"

theorem unique_db : Schema.Unique (S := schema) db :=
  Schema.unique_of_pairwise fun table => by
    cases table <;> simp [Table.rows, Table.keys, db]

end HistorySample

open HistorySample

/-- A fortnight in days is tiled. -/
theorem daily_history_tiles :
    HistoryTiles .utc quoted "mer_1" "USD" true start end_ "day" db db :=
  (balance_history_tiles_iff .utc quoted "mer_1" "USD" true rfl (by decide)
    (by decide +kernel) unique_db db).mpr (.inl (by decide))

/-- The same fortnight in weeks passes the checks and is refused by the query. -/
theorem weekly_history_refused :
    BalanceService.checkWindow quoted start end_ "week" = .ok () ∧
      BalanceService.getBalanceHistory .utc quoted "mer_1" "USD" true start end_ "week" db db =
        .error (.valueError "unsupported interval 'week'") ∧
      ¬ HistoryTiles .utc quoted "mer_1" "USD" true start end_ "week" db db := by
  have hcheck : BalanceService.checkWindow quoted start end_ "week" = .ok () :=
    checkWindow_eq_ok rfl (by decide) (by decide +kernel)
  have hrefused : BalanceService.getBalanceHistory .utc quoted "mer_1" "USD" true start end_
      "week" db db = .error (.valueError "unsupported interval 'week'") :=
    getBalanceHistory_refused hcheck
      (show AccountRepository.named _ _ _ _ _ = some account from rfl) rfl
  refine ⟨hcheck, hrefused, ?_⟩
  rintro ⟨points, hpoints, -⟩
  rw [hrefused] at hpoints
  cases hpoints

end PayzenoLedger
