import PayzenoLedger.Library.Sampling
import PayzenoLedger.Ledger.Posts
import PayzenoLedger.Services.Audit
import Mathlib.Algebra.Order.BigOperators.Group.List
import Mathlib.Algebra.Order.Group.Nat

/-!
# What the nightly audit finds

The audit, run alone on a night's database, reports an imbalance of an audited currency
whose two livemodes do not cancel, and the drift of an available balance that is among the
rows recomputed least recently.
-/

set_option autoImplicit false

namespace PayzenoLedger

open Library

/-! ## The ledger's state -/

/-- Debits less credits of a currency in one livemode. -/
def imbalance (currency : String) (livemode : Bool) (db : Database) : Int :=
  let entries := db.entries.filter fun entry =>
    entry.currency = currency ∧ entry.livemode = livemode
  LedgerEntryRepository.directionTotal .debit entries -
    LedgerEntryRepository.directionTotal .credit entries

/-- What the entries make of a bucket of a cached row. -/
def MerchantBalanceCache.recomputed (row : MerchantBalanceCache) (db : Database)
    (bucket : Bucket) : Int :=
  LedgerEntryRepository.sumBuckets row.merchantId row.currency row.livemode none db bucket

/-- Some bucket of the row differs from the entries. -/
def MerchantBalanceCache.Drifted (row : MerchantBalanceCache) (db : Database) : Prop :=
  ∃ bucket, row.amount bucket ≠ row.recomputed db bucket

/-- The available balance differs from the entries. -/
def Contradicted (db : Database) (row : MerchantBalanceCache) : Bool :=
  row.recomputed db .merchantPayable ≠ row.availableMinor

/-- No entry is dated after this time. -/
def Dated (stamp : Instant) (db : Database) : Prop :=
  ∀ entry ∈ db.entries, entry.createdAt ≤ stamp

/-- New identifiers are fresh and the clock is not behind the entries. -/
def auditing : Assumption system :=
  fun past world db choice => freshIds past world db choice ∧ Dated world.clock db

theorem exists_dated (db : Database) : ∃ stamp, Dated stamp db := by
  refine ⟨(db.entries.map LedgerEntry.createdAt).sum, fun entry hentry => ?_⟩
  exact List.single_le_sum (fun _ _ => Nat.zero_le _) _ (List.mem_map_of_mem hentry)

/-- The clock passes the dates. -/
theorem exists_drift_dated (world : World) (db : Database) :
    ∃ world' : World, Drifts (Y := system) world world' ∧ Dated world'.clock db := by
  obtain ⟨stamp, hdated⟩ := exists_dated db
  let later : World := { world with clock := max world.clock stamp }
  have hdrift : World.drift (.instant (max world.clock stamp)) world = some later :=
    if_pos (Nat.le_max_left _ _)
  refine ⟨later, Relation.ReflTransGen.single ⟨.instant (max world.clock stamp), hdrift⟩, ?_⟩
  exact fun entry hentry => (hdated entry hentry).trans (Nat.le_max_right _ _)

theorem orderly_auditing : Orderly auditing where
  plain _ world db :=
    have ⟨world', hdrifts, hdated⟩ := exists_drift_dated world db
    ⟨world', hdrifts, trivial, hdated⟩
  instant _ world db :=
    have ⟨world', hdrifts, hdated⟩ := exists_drift_dated world db
    ⟨world', world'.clock, hdrifts, Nat.le_refl _, trivial, hdated⟩
  id _ world db _ hnew hunused :=
    have ⟨world', hdrifts, hdated⟩ := exists_drift_dated world db
    ⟨world', hdrifts, ⟨hnew, hunused⟩, hdated⟩
  fresh _ _ _ _ hfair := hfair.1

theorem orderly_auditing_row (past : List Choice) (world : World) (db : Database)
    (index : Nat) :
    ∃ world' : World, Drifts (Y := system) world world' ∧
      auditing past world' db (.row index) :=
  have ⟨world', hdrifts, hdated⟩ := exists_drift_dated world db
  ⟨world', hdrifts, trivial, hdated⟩

theorem sum_filterMap {α β : Type} (f : α → Option β) (g : β → Int) (rows : List α) :
    ((rows.filterMap f).map g).sum = (rows.map fun row => ((f row).map g).getD 0).sum := by
  induction rows with
  | nil => rfl
  | cons row rows ih =>
      rw [List.map_cons, List.sum_cons, ← ih, List.filterMap_cons]
      cases f row with
      | none => simp
      | some kept => simp

/-- A livemode without entries counts as zero. -/
theorem trialBalanceRow_totals (currency : String) (entries : List LedgerEntry)
    (livemode : Bool) :
    let group := entries.filter fun entry => entry.livemode = livemode
    let row := LedgerEntryRepository.trialBalanceRow currency entries livemode
    (row.map TrialBalanceRow.debitMinor).getD 0 =
        LedgerEntryRepository.directionTotal .debit group ∧
      (row.map TrialBalanceRow.creditMinor).getD 0 =
        LedgerEntryRepository.directionTotal .credit group := by
  dsimp only
  unfold LedgerEntryRepository.trialBalanceRow
  cases entries.filter fun entry => entry.livemode = livemode with
  | nil => exact ⟨rfl, rfl⟩
  | cons entry group => exact ⟨rfl, rfl⟩

/-- The totals add the livemodes up. -/
theorem trialBalance_delta (currency : String) {stamp : Instant} {db : Database}
    (hdated : Dated stamp db) :
    let totals := LedgerEntryRepository.trialBalanceByCurrency currency none (some stamp) db
    totals.debitMinor - totals.creditMinor =
      imbalance currency false db + imbalance currency true db := by
  let entries := db.entries.filter fun entry => entry.currency = currency
  have htried : (LedgerEntryRepository.tried currency (some stamp) db).filter (fun entry =>
      ∀ mode ∈ (none : Option Bool), entry.livemode = mode) = entries := by
    unfold LedgerEntryRepository.tried
    rw [List.filter_filter]
    refine List.filter_congr fun entry hentry => ?_
    simp [hdated entry hentry]
  have hgroup (mode : Bool) : entries.filter (fun entry => entry.livemode = mode) =
      db.entries.filter fun entry => entry.currency = currency ∧ entry.livemode = mode := by
    simp only [entries, List.filter_filter, Bool.decide_and, Bool.and_comm]
  dsimp only
  unfold LedgerEntryRepository.trialBalanceByCurrency imbalance
  dsimp only
  rw [htried, sum_filterMap, sum_filterMap, ← hgroup, ← hgroup]
  have htest := trialBalanceRow_totals currency entries false
  have hlive := trialBalanceRow_totals currency entries true
  dsimp only at htest hlive
  simp only [List.map_cons, List.map_nil, List.sum_cons, List.sum_nil, add_zero, htest, hlive]
  omega

/-- A row's entries up to the clock are all there are. -/
theorem sumBuckets_dated {row : MerchantBalanceCache} {stamp : Instant} {db : Database}
    (hdated : Dated stamp db) (bucket : Bucket) :
    LedgerEntryRepository.sumBuckets row.merchantId row.currency row.livemode (some stamp) db
      bucket = row.recomputed db bucket := by
  have hrows : LedgerEntryRepository.bucketRows row.merchantId row.currency row.livemode
      (some stamp) db =
        LedgerEntryRepository.bucketRows row.merchantId row.currency row.livemode none db := by
    unfold LedgerEntryRepository.bucketRows
    refine List.filter_congr fun joined hjoined => ?_
    obtain ⟨entry, hentry, hmem⟩ := List.mem_flatMap.mp hjoined
    obtain ⟨account, -, rfl⟩ := List.mem_map.mp hmem
    simp [hdated entry hentry]
  unfold MerchantBalanceCache.recomputed LedgerEntryRepository.sumBuckets
  rw [hrows]

/-! ## What the audit stages -/

/-- Events were staged and nothing else changed. -/
def Staged (db db' : Database) : Prop :=
  ∃ events, db' = { db with outbox := db.outbox ++ events }

theorem Staged.refl (db : Database) : Staged db db :=
  ⟨[], by simp⟩

theorem Staged.trans {first second third : Database} (left : Staged first second)
    (right : Staged second third) : Staged first third := by
  obtain ⟨events, rfl⟩ := left
  obtain ⟨more, rfl⟩ := right
  exact ⟨events ++ more, by simp⟩

section Staged

variable {db db' : Database} (staged : Staged db db')
include staged

theorem Staged.entries : db'.entries = db.entries := by
  obtain ⟨events, rfl⟩ := staged
  rfl

theorem Staged.balances : db'.balances = db.balances := by
  obtain ⟨events, rfl⟩ := staged
  rfl

theorem Staged.outbox {event : EventOutbox} (hevent : event ∈ db.outbox) : event ∈ db'.outbox := by
  obtain ⟨events, rfl⟩ := staged
  exact List.mem_append_left _ hevent

theorem Staged.imbalance (currency : String) (livemode : Bool) :
    imbalance currency livemode db' = PayzenoLedger.imbalance currency livemode db := by
  obtain ⟨events, rfl⟩ := staged
  rfl

theorem Staged.recomputed (row : MerchantBalanceCache) (bucket : Bucket) :
    row.recomputed db' bucket = row.recomputed db bucket := by
  obtain ⟨events, rfl⟩ := staged
  rfl

end Staged

/-- A new event announces the finding. -/
def FindingAnnounced (db db' : Database) (check currency : String) (merchantId : Option String)
    (deltaMinor : Int) : Prop :=
  ∃ event ∈ db'.outbox, event ∉ db.outbox ∧ event.type = "ledger.imbalance_detected" ∧
    ("check", Json.text check) ∈ event.payload ∧
    ("merchant_id", Json.optional merchantId) ∈ event.payload ∧
    ("currency", Json.text currency) ∈ event.payload ∧
    ("delta_minor", Json.int deltaMinor) ∈ event.payload

theorem FindingAnnounced.staged {first second third fourth : Database} {check currency : String}
    {merchantId : Option String} {deltaMinor : Int} (before : Staged first second)
    (announces : FindingAnnounced second third check currency merchantId deltaMinor)
    (after : Staged third fourth) :
    FindingAnnounced first fourth check currency merchantId deltaMinor := by
  obtain ⟨event, hevent, hnew, hfields⟩ := announces
  exact ⟨event, after.outbox hevent, fun hold => hnew (before.outbox hold), hfields⟩

section Checks

variable {past : List Choice} {view : Database}

/-- The rows come in some order that the query allows. -/
theorem Async.attains_ordered {α : Type} {notAfter : α → α → Bool} {query : Database → List α}
    {ok : List α → List Choice → Database → Prop}
    {error : Exception → List Choice → Database → Prop}
    (htrans : ∀ a b c, notAfter a b = true → notAfter b c = true → notAfter a c = true)
    (htotal : ∀ a b, (notAfter a b || notAfter b a) = true)
    (h : ∀ choice rows, rows.Perm (query view) →
      rows.Pairwise (fun first second => notAfter first second = true) →
      ok rows (past ++ [choice]) view) :
    attains (Y := system) auditing (ordered notAfter query) ok error past view := by
  refine attains_query (fun world => ?_) fun world choice rows _ hrows => ?_
  · have hmem : (query view).mergeSort notAfter ∈ (query view).permutations.filter fun rows =>
        decide (rows.Pairwise fun first second => notAfter first second = true) := by
      rw [List.mem_filter, decide_eq_true_eq]
      exact ⟨List.mem_permutations.mpr (List.mergeSort_perm _ _),
        List.pairwise_mergeSort htrans htotal _⟩
    obtain ⟨index, hindex⟩ := List.mem_iff_getElem?.mp hmem
    obtain ⟨world', hdrifts, hfair⟩ := orderly_auditing_row past world view index
    exact ⟨world', .row index, _, hdrifts, hfair, hindex⟩
  · cases choice with
    | row index =>
        have hmem := List.mem_of_getElem? hrows
        rw [List.mem_filter, decide_eq_true_eq] at hmem
        exact h _ rows (List.mem_permutations.mp hmem.1) hmem.2
    | _ => cases hrows

namespace LedgerAuditService

theorem attains_publishImbalance {check currency : String} {expected actual : Int}
    {samples : List String} {merchantId : Option String}
    {ok : Unit → List Choice → Database → Prop}
    {error : Exception → List Choice → Database → Prop}
    (h : ∀ past' view', Staged view view' →
      FindingAnnounced view view' check currency merchantId (actual - expected) →
        ok () past' view') :
    attains (Y := system) auditing
      (publishImbalance check currency expected actual samples merchantId) ok error past view := by
  refine attains_bind (Async.attains_now orderly_auditing fun choice world _ => ?_)
  refine attains_bind (Async.attains_newId orderly_auditing fun body _ hunused => ?_)
  refine Async.attains_add orderly_auditing (fun key hkey => ?_) fun choice' => ?_
  · cases List.mem_singleton.mp hkey
    exact hunused.holders rfl Table.eventOutbox
  · refine h _ _ ⟨[_], rfl⟩ ⟨_, List.mem_append_right _ (List.mem_singleton.mpr rfl), ?_, rfl,
      by simp, by simp, by simp, by simp⟩
    intro hold
    exact hunused Table.eventOutbox _ hold _ (List.mem_singleton.mpr rfl) _ rfl "evt" rfl

/-- The trial balance announces a currency whose livemodes do not cancel. -/
theorem attains_tryBalance {currency : String}
    {ok : TrialBalanceResult → List Choice → Database → Prop}
    {error : Exception → List Choice → Database → Prop}
    (h : ∀ (result : TrialBalanceResult) past' view', Staged view view' →
      (result.balanced = true ↔ imbalance currency false view + imbalance currency true view = 0) →
      (result.balanced = false → FindingAnnounced view view' "trial_balance" currency none
        (imbalance currency false view + imbalance currency true view)) →
      ok result past' view') :
    attains (Y := system) auditing (tryBalance currency) ok error past view := by
  refine attains_bind (Async.attains_now orderly_auditing fun choice world hfair => ?_)
  refine attains_bind (attains_select orderly_auditing.live fun choice' => ?_)
  have hdelta := trialBalance_delta currency hfair.2
  dsimp only at hdelta
  split
  · next hbalanced =>
      refine attains_pure (h _ _ _ (.refl view) ⟨fun _ => ?_, fun _ => rfl⟩ nofun)
      rw [← hdelta, hbalanced, sub_self]
  · next hunbalanced =>
      refine attains_bind (attains_bind (Async.attains_ordered (fun _ _ _ _ _ => rfl)
        (fun _ _ => rfl) fun choice'' ids _ _ => attains_pure ?_))
      refine attains_bind (attains_publishImbalance fun past' view' staged announces => ?_)
      rw [hdelta] at announces
      refine attains_pure (h _ _ _ staged ⟨nofun, fun hzero => ?_⟩ fun _ => announces)
      rw [← hdelta, sub_eq_zero] at hzero
      exact absurd hzero hunbalanced

/-- Duplicate settlements raise nothing. -/
theorem attains_countDuplicates {ok : Nat → List Choice → Database → Prop}
    {error : Exception → List Choice → Database → Prop}
    (h : ∀ duplicates past' view', Staged view view' → ok duplicates past' view') :
    attains (Y := system) auditing countDuplicates ok error past view := by
  refine attains_bind (Async.attains_now orderly_auditing fun choice world _ => ?_)
  refine attains_bind (Async.attains_ordered ?_ ?_ fun choice' duplicates _ _ => ?_)
  · intro a b c hab hbc
    simp only [decide_eq_true_eq] at hab hbc ⊢
    exact hbc.trans hab
  · intro a b
    simpa using Nat.le_total b.count a.count
  · cases duplicates with
    | nil => exact attains_pure (h _ _ _ (.refl view))
    | cons first rest =>
        refine attains_bind (attains_publishImbalance fun past' view' staged _ => ?_)
        exact attains_pure (h _ _ _ staged)

/-- Only the available balances are compared. -/
theorem attains_compareRows {db : Database} {rows : List MerchantBalanceCache}
    (before : Staged db view) {ok : List MerchantBalanceCache → List Choice → Database → Prop}
    {error : Exception → List Choice → Database → Prop}
    (h : ∀ past' view', Staged view view' →
      (∀ row ∈ rows.filter (Contradicted db),
        FindingAnnounced db view' "merchant_balance" row.currency
        (some row.merchantId) (row.availableMinor - row.recomputed db .merchantPayable)) →
      ok (rows.filter (Contradicted db)) past' view') :
    attains (Y := system) auditing (compareRows rows) ok error past view := by
  induction rows generalizing past view ok with
  | nil => exact attains_pure (h _ _ (.refl view) nofun)
  | cons row rows ih =>
      refine attains_bind (Async.attains_now orderly_auditing fun choice world hfair => ?_)
      refine attains_bind (attains_select orderly_auditing.live fun choice' => ?_)
      rw [sumBuckets_dated hfair.2, before.recomputed]
      dsimp only
      split
      · next hsame =>
          have hkept : Contradicted db row = false := by simpa [Contradicted] using hsame
          rw [List.filter_cons_of_neg (by simp [hkept])] at h
          exact ih before h
      · next hdiffers =>
          have hkept : Contradicted db row = true := by simpa [Contradicted] using hdiffers
          rw [List.filter_cons_of_pos hkept] at h
          refine attains_bind (attains_publishImbalance fun past₁ view₁ staged₁ announces => ?_)
          refine attains_bind (ih (before.trans staged₁) fun past₂ view₂ staged₂ others => ?_)
          refine attains_pure (h _ _ (staged₁.trans staged₂) fun found hfound => ?_)
          rcases List.mem_cons.mp hfound with rfl | hother
          · exact announces.staged before staged₂
          · exact others found hother

end LedgerAuditService

end Checks

/-! ## One night -/

/-- The livemodes of the currency do not cancel. -/
def outOfBalance (db : Database) (currency : String) : Bool :=
  imbalance currency false db + imbalance currency true db ≠ 0

/-- What one night reports and announces. -/
structure Audited (db : Database) (report : AuditReport) (db' : Database) : Prop where
  imbalances : report.imbalances = LedgerAuditJob.auditedCurrencies.filter (outOfBalance db)
  announcedImbalances : ∀ currency ∈ report.imbalances, ∃ deltaMinor,
    FindingAnnounced db db' "trial_balance" currency none deltaMinor
  drifted : ∃ rows : List MerchantBalanceCache, rows.Perm db.balances ∧
    (rows.Pairwise fun first second => first.computedAt ≤ second.computedAt) ∧
    report.drifted = (rows.take 500).filter (Contradicted db)
  announcedDrifts : ∀ row ∈ report.drifted, ∃ deltaMinor,
    FindingAnnounced db db' "merchant_balance" row.currency (some row.merchantId) deltaMinor

section Night

variable {past : List Choice} {world : World} {db start : Database}

/-- The audited currencies are all tried. -/
theorem LedgerAuditJob.sure_trialBalances {currencies : List String} (before : Staged start db)
    {ok : List String → Situation system → Prop} {error : Exception → Situation system → Prop}
    (h : ∀ past' world' db', Staged db db' →
      (∀ currency ∈ currencies.filter (outOfBalance start), ∃ deltaMinor,
        FindingAnnounced start db' "trial_balance" currency none deltaMinor) →
      ok (currencies.filter (outOfBalance start)) ⟨past', [], world', db'⟩) :
    sure (Y := system) auditing (trialBalances currencies) ok error ⟨past, [], world, db⟩ := by
  induction currencies generalizing past world db ok with
  | nil => exact h _ _ _ (.refl db) nofun
  | cons currency currencies ih =>
      have hrest (found : List String) (past' : List Choice) (world' : World) (db' : Database)
          (staged : Staged db db')
          (hfound : (currency :: currencies).filter (outOfBalance start) =
            found ++ currencies.filter (outOfBalance start))
          (announced : ∀ currency ∈ found, ∃ deltaMinor,
            FindingAnnounced start db' "trial_balance" currency none deltaMinor) :
          sure (Y := system) auditing (do
            let others ← trialBalances currencies
            pure (found ++ others)) ok error ⟨past', [], world', db'⟩ := by
        rw [sure_bind]
        refine ih (before.trans staged) fun past₂ world₂ db₂ staged₂ others => ?_
        rw [sure_pure, ← hfound]
        refine h past₂ world₂ db₂ (staged.trans staged₂) fun found hmem => ?_
        rw [hfound, List.mem_append] at hmem
        rcases hmem with hfirst | hother
        · obtain ⟨deltaMinor, announces⟩ := announced found hfirst
          exact ⟨deltaMinor, announces.staged (.refl start) staged₂⟩
        · exact others found hother
      unfold trialBalances LedgerAuditService.runTrialBalance Async.recover
      rw [sure_bind, sure_recover, sure_bind, sure_bind]
      refine sure_session fun choice => ?_
      refine LedgerAuditService.attains_tryBalance fun result past' db' staged hbalanced
        announces world' choice' => ?_
      have hsame : imbalance currency false db + imbalance currency true db =
          imbalance currency false start + imbalance currency true start := by
        rw [before.imbalance, before.imbalance]
      rw [hsame] at hbalanced announces
      cases hresult : result.balanced with
      | true =>
          have hkept : outOfBalance start currency = false := by
            simpa [outOfBalance] using hbalanced.mp hresult
          rw [if_pos rfl, sure_pure, sure_pure, if_pos hresult]
          refine hrest [] _ _ _ staged ?_ nofun
          rw [List.filter_cons_of_neg (by simp [hkept])]
          rfl
      | false =>
          have hkept : outOfBalance start currency = true := by
            have hne := mt hbalanced.mpr (by simp [hresult])
            simpa [outOfBalance] using hne
          have hcaught (message : String) (details : List (String × Json)) :
              (ledgerError .ledgerIntegrityError message details).isInstance
                .ledgerIntegrityError = true := rfl
          rw [if_neg Bool.false_ne_true, sure_throw, if_pos (hcaught _ _), sure_pure]
          refine hrest [currency] _ _ _ staged ?_ fun other hother => ?_
          · rw [List.filter_cons_of_pos hkept]
            rfl
          · rw [List.mem_singleton.mp hother]
            exact ⟨_, (announces hresult).staged before (.refl db')⟩

/-- The rows that the drift check takes come in some order by age. -/
theorem LedgerAuditService.attains_compareStale (before : Staged start db)
    {ok : List MerchantBalanceCache → List Choice → Database → Prop}
    {error : Exception → List Choice → Database → Prop}
    (h : ∀ (rows : List MerchantBalanceCache) past' db', Staged db db' →
      rows.Perm start.balances →
      (rows.Pairwise fun first second => first.computedAt ≤ second.computedAt) →
      (∀ row ∈ (rows.take 500).filter (Contradicted start), ∃ deltaMinor,
        FindingAnnounced start db' "merchant_balance" row.currency
          (some row.merchantId) deltaMinor) →
      ok ((rows.take 500).filter (Contradicted start)) past' db') :
    attains (Y := system) auditing (compareStale 500) ok error past db := by
  refine attains_bind (attains_bind (Async.attains_ordered ?_ ?_ fun choice rows hperm hsorted =>
    attains_pure ?_))
  · intro a b c hab hbc
    simp only [decide_eq_true_eq] at hab hbc ⊢
    exact hab.trans hbc
  · intro a b
    simpa using Nat.le_total a.computedAt b.computedAt
  · refine attains_compareRows before fun past' db' staged announced => ?_
    rw [before.balances] at hperm
    refine h rows past' db' staged hperm (hsorted.imp fun hle => by simpa using hle)
        fun row hrow => ?_
    exact ⟨_, announced row hrow⟩

/-- Any order by age may be the one. -/
theorem LedgerAuditService.mayAttain_compareStale (before : Staged start db)
    {rows : List MerchantBalanceCache} (hperm : rows.Perm start.balances)
    (hsorted : rows.Pairwise fun first second => first.computedAt ≤ second.computedAt)
    {ok : List MerchantBalanceCache → List Choice → Database → Prop}
    {error : Exception → List Choice → Database → Prop}
    (h : ∀ past' db', Staged db db' →
      (∀ row ∈ (rows.take 500).filter (Contradicted start), ∃ deltaMinor,
        FindingAnnounced start db' "merchant_balance" row.currency
          (some row.merchantId) deltaMinor) →
      ok ((rows.take 500).filter (Contradicted start)) past' db') :
    mayAttain (Y := system) auditing (compareStale 500) ok error past db := by
  refine mayAttain_bind (mayAttain_bind (mayAttain_query fun world => ?_))
  have hmem : rows ∈ db.balances.permutations.filter fun rows => decide
      (rows.Pairwise fun first second =>
        decide (first.computedAt ≤ second.computedAt) = true) := by
    rw [List.mem_filter, decide_eq_true_eq, before.balances]
    exact ⟨List.mem_permutations.mpr hperm, hsorted.imp fun hle => by simpa using hle⟩
  obtain ⟨index, hindex⟩ := List.mem_iff_getElem?.mp hmem
  obtain ⟨world', hdrifts, hfair⟩ := orderly_auditing_row past world db index
  refine ⟨world', .row index, rows, hdrifts, hfair, hindex, ?_⟩
  refine (attains_pure ?_).mayAttain orderly_auditing.live
  refine (attains_compareRows before fun past' db' staged announced => ?_).mayAttain
    orderly_auditing.live
  exact h past' db' staged fun row hrow => ⟨_, announced row hrow⟩

/-- Every night ends with a report of what was found. -/
theorem LedgerAuditJob.sure_runOnce (start : Database) :
    sure (Y := system) auditing runOnce
      (fun report situation => situation.stack = [] ∧ Audited start report situation.db)
      (fun _ _ => False) ⟨[], [], world, start⟩ := by
  unfold runOnce
  rw [sure_bind]
  refine sure_trialBalances (.refl start) fun past₁ world₁ db₁ staged₁ announced => ?_
  rw [sure_bind]
  refine sure_session fun choice => ?_
  refine LedgerAuditService.attains_countDuplicates fun duplicates past₂ db₂ staged₂ world₂
    choice₂ => ?_
  rw [sure_bind]
  refine sure_session fun choice' => ?_
  refine LedgerAuditService.attains_compareStale (staged₁.trans staged₂)
    fun rows past₃ db₃ staged₃ hperm hsorted drifts world₃ choice₃ => ?_
  refine ⟨rfl, rfl, fun currency hcurrency => ?_, ⟨rows, hperm, hsorted, rfl⟩, drifts⟩
  obtain ⟨deltaMinor, announces⟩ := announced currency hcurrency
  exact ⟨deltaMinor, announces.staged (.refl start) (staged₂.trans staged₃)⟩

/-- The rows may come in any order by age. -/
theorem LedgerAuditJob.maybe_runOnce (start : Database) {rows : List MerchantBalanceCache}
    (hperm : rows.Perm start.balances)
    (hsorted : rows.Pairwise fun first second => first.computedAt ≤ second.computedAt) :
    maybe (Y := system) auditing runOnce
      (fun report situation => situation.stack = [] ∧
        report.drifted = (rows.take 500).filter (Contradicted start))
      (fun _ _ => False) ⟨[], [], world, start⟩ := by
  have live := orderly_auditing.live
  unfold runOnce
  rw [maybe_bind]
  refine (sure_trialBalances (.refl start) fun past₁ world₁ db₁ staged₁ _ => ?_).maybe live
  rw [maybe_bind]
  refine (sure_session fun choice => ?_).maybe live
  refine LedgerAuditService.attains_countDuplicates fun duplicates past₂ db₂ staged₂ world₂
    choice₂ => ?_
  rw [maybe_bind]
  refine maybe_session live fun choice' => ?_
  exact LedgerAuditService.mayAttain_compareStale (staged₁.trans staged₂) hperm hsorted
    fun past₃ db₃ _ _ world₃ choice₃ => ⟨rfl, rfl⟩

end Night

/-- The job, run alone on the database, ends, and only with a report that is so. -/
def EveryAudit (db : Database) (holds : AuditReport → Database → Prop) : Prop :=
  (∃ report db', FairlyFinishes (Y := system) auditing db LedgerAuditJob.runOnce.run
    (.ok report) db') ∧
  ∀ result db', FairlyFinishes (Y := system) auditing db LedgerAuditJob.runOnce.run result db' →
    ∃ report, result = .ok report ∧ holds report db'

theorem audited (db : Database) : EveryAudit db (Audited db) := by
  obtain ⟨⟨result, db', hfinishes, report, rfl, -⟩, hevery⟩ :=
    sure.finishes (Y := system) orderly_auditing.live
      (fun result db' => ∃ report, result = .ok report ∧ Audited db report db') fun world =>
        sure_mono (LedgerAuditJob.sure_runOnce db)
          (fun report situation hreport => ⟨hreport.1, report, rfl, hreport.2⟩)
          fun _ _ => False.elim
  exact ⟨⟨report, db', hfinishes⟩, hevery⟩

/-- The night reports and announces the currency. -/
def ReportsImbalance (db : Database) (currency : String) : Prop :=
  EveryAudit db fun report db' => currency ∈ report.imbalances ∧
    ∃ deltaMinor, FindingAnnounced db db' "trial_balance" currency none deltaMinor

/-- The night reports and announces the row. -/
def ReportsDrift (db : Database) (row : MerchantBalanceCache) : Prop :=
  EveryAudit db fun report db' => row ∈ report.drifted ∧
    ∃ deltaMinor, FindingAnnounced db db' "merchant_balance" row.currency (some row.merchantId)
      deltaMinor

theorem reportsImbalance_iff (db : Database) (currency : String) :
    ReportsImbalance db currency ↔
      currency ∈ LedgerAuditJob.auditedCurrencies ∧
        imbalance currency false db + imbalance currency true db ≠ 0 := by
  obtain ⟨⟨report, db', hfinishes⟩, hevery⟩ := audited db
  constructor
  · rintro ⟨-, hreports⟩
    obtain ⟨_, hresult, hmem, -⟩ := hreports _ _ hfinishes
    obtain ⟨_, hresult', audited⟩ := hevery _ _ hfinishes
    cases hresult
    cases hresult'
    rw [audited.imbalances, List.mem_filter] at hmem
    exact ⟨hmem.1, by simpa [outOfBalance] using hmem.2⟩
  · rintro ⟨haudited, hunbalanced⟩
    refine ⟨⟨report, db', hfinishes⟩, fun result db' hends => ?_⟩
    obtain ⟨report, rfl, audited⟩ := hevery result db' hends
    have hmem : currency ∈ report.imbalances := by
      rw [audited.imbalances, List.mem_filter]
      exact ⟨haudited, by simpa [outOfBalance] using hunbalanced⟩
    exact ⟨report, rfl, hmem, audited.announcedImbalances currency hmem⟩

/-- Only the available balance counts, and fewer than 500 other rows may be as old. -/
theorem reportsDrift_iff (db : Database) {row : MerchantBalanceCache} (hrow : row ∈ db.balances) :
    ReportsDrift db row ↔
      row.availableMinor ≠ row.recomputed db .merchantPayable ∧
        rivals MerchantBalanceCache.computedAt row db.balances < 500 := by
  obtain ⟨⟨report, db', hfinishes⟩, hevery⟩ := audited db
  constructor
  · rintro ⟨-, hreports⟩
    obtain ⟨late, hperm, hsorted, hlate⟩ :=
      exists_late MerchantBalanceCache.computedAt row db.balances 500
    obtain ⟨result, db', hends, report, rfl, hdrifted⟩ := maybe.finishes (Y := system)
      (fun result _ => ∃ report, result = .ok report ∧
        report.drifted = (late.take 500).filter (Contradicted db)) fun world =>
          maybe_mono (LedgerAuditJob.maybe_runOnce db hperm hsorted)
            (fun report situation hreport => ⟨hreport.1, report, rfl, hreport.2⟩)
            fun _ _ => False.elim
    obtain ⟨_, hresult, hmem, -⟩ := hreports _ _ hends
    cases hresult
    rw [hdrifted, List.mem_filter] at hmem
    refine ⟨fun hsame => ?_, hlate hmem.1⟩
    simp [Contradicted, hsame] at hmem
  · rintro ⟨hdrifted, hfew⟩
    refine ⟨⟨report, db', hfinishes⟩, fun result db' hends => ?_⟩
    obtain ⟨report, rfl, audited⟩ := hevery result db' hends
    obtain ⟨rows, hperm, hsorted, hreport⟩ := audited.drifted
    have hmem : row ∈ report.drifted := by
      rw [hreport, List.mem_filter]
      refine ⟨mem_take_of_rivals hsorted (hperm.mem_iff.mpr hrow) ?_, ?_⟩
      · rw [rivals_perm hperm]
        exact hfew
      · simpa [Contradicted] using hdrifted.symm
    exact ⟨report, rfl, hmem, audited.announcedDrifts row hmem⟩

/-! ## Night after night -/

/-- The row has drifted and stays as it is, and so do its entries. -/
def StaysDrifted (nights : Nat → Database) (row : MerchantBalanceCache) : Prop :=
  ∀ night, row ∈ (nights night).balances ∧ row.Drifted (nights night) ∧
    ∀ bucket, row.recomputed (nights night) bucket = row.recomputed (nights 0) bucket

/-- Each night reports the imbalances of its database, and a drift that stays is reported
within the bound. -/
def MissesNothing (currencies : List String) (bound : Nat) (nights : Nat → Database) : Prop :=
  (∀ night, ∀ currency ∈ currencies, ∀ livemode, imbalance currency livemode (nights night) ≠ 0 →
    ReportsImbalance (nights night) currency) ∧
  ∀ row, StaysDrifted nights row → ∃ night < bound, ReportsDrift (nights night) row

/-- The audit misses nothing just when every imbalance is of an audited currency and is not
cancelled by the other livemode, and every drift is of the available balance of a row that
fewer than 500 others are as old as on one of the nights. -/
theorem missesNothing_iff (currencies : List String) (bound : Nat) (nights : Nat → Database) :
    MissesNothing currencies bound nights ↔
      (∀ night, ∀ currency ∈ currencies, ∀ livemode,
        imbalance currency livemode (nights night) ≠ 0 →
        currency ∈ LedgerAuditJob.auditedCurrencies ∧
          imbalance currency false (nights night) + imbalance currency true (nights night) ≠ 0) ∧
      ∀ row, StaysDrifted nights row → ∃ night < bound,
        row.availableMinor ≠ row.recomputed (nights night) .merchantPayable ∧
          rivals MerchantBalanceCache.computedAt row (nights night).balances < 500 := by
  unfold MissesNothing
  simp only [reportsImbalance_iff]
  refine and_congr_right fun _ => forall_congr' fun row => forall_congr' fun stays => ?_
  refine exists_congr fun night => and_congr_right fun _ => ?_
  exact reportsDrift_iff _ (stays night).1

/-- A leg of one euro. -/
def strayEntry (id : String) (direction : Direction) (livemode : Bool) : LedgerEntry where
  id := id
  transactionId := "txn_1"
  accountId := "acct_1"
  direction := direction
  amountMinor := 100
  currency := "EUR"
  livemode := livemode
  sequence := 1
  createdAt := 1

def cachedRow (merchantId : String) (availableMinor pendingMinor : Int)
    (computedAt : Instant) : MerchantBalanceCache where
  merchantId := merchantId
  currency := "EUR"
  livemode := true
  availableMinor := availableMinor
  pendingMinor := pendingMinor
  reservedMinor := 0
  disputedMinor := 0
  negativeBalanceMinor := 0
  lastTransactionId := none
  computedAt := computedAt
  updatedAt := computedAt

/-- A live debit against a test credit, a pending balance that no entry backs, and an available
one behind 500 rows that nobody trades on. -/
def unnoticedLedger : Database where
  entries := [strayEntry "le_1" .debit true, strayEntry "le_2" .credit false]
  balances := (List.range 499).map (fun index => cachedRow ("mer_" ++ toString index) 0 0 1) ++
    [cachedRow "mer_pending" 0 500 1, cachedRow "mer_late" 700 0 2]

/-- Nothing of it is ever reported. -/
theorem unnoticed :
    (imbalance "EUR" true unnoticedLedger ≠ 0 ∧ ¬ ReportsImbalance unnoticedLedger "EUR") ∧
    (∀ row ∈ [cachedRow "mer_pending" 0 500 1, cachedRow "mer_late" 700 0 2],
      StaysDrifted (fun _ => unnoticedLedger) row ∧ ¬ ReportsDrift unnoticedLedger row) ∧
    ∀ bound, ¬ MissesNothing ["EUR"] bound fun _ => unnoticedLedger := by
  have hunbalanced : imbalance "EUR" true unnoticedLedger ≠ 0 := by decide
  have hcancel : ¬ ReportsImbalance unnoticedLedger "EUR" := by
    have hzero : imbalance "EUR" false unnoticedLedger +
        imbalance "EUR" true unnoticedLedger = 0 := by decide
    rw [reportsImbalance_iff]
    exact fun hreported => hreported.2 hzero
  refine ⟨⟨hunbalanced, hcancel⟩, ?_, fun bound hnothing => ?_⟩
  · have hpending : cachedRow "mer_pending" 0 500 1 ∈ unnoticedLedger.balances :=
      List.mem_append_right _ (by simp)
    have hlate : cachedRow "mer_late" 700 0 2 ∈ unnoticedLedger.balances :=
      List.mem_append_right _ (by simp)
    have hpendingDrift : (cachedRow "mer_pending" 0 500 1).Drifted unnoticedLedger :=
      ⟨.merchantPending, by decide⟩
    have hlateDrift : (cachedRow "mer_late" 700 0 2).Drifted unnoticedLedger :=
      ⟨.merchantPayable, by decide⟩
    intro row hrow
    simp only [List.mem_cons, List.not_mem_nil, or_false] at hrow
    rcases hrow with rfl | rfl
    · refine ⟨fun _ => ⟨hpending, hpendingDrift, fun _ => rfl⟩, ?_⟩
      rw [reportsDrift_iff _ hpending]
      exact fun hreported => hreported.1 (by decide)
    · refine ⟨fun _ => ⟨hlate, hlateDrift, fun _ => rfl⟩, ?_⟩
      rw [reportsDrift_iff _ hlate]
      exact fun hreported => absurd hreported.2 (by decide +kernel)
  · exact hcancel (hnothing.1 0 "EUR" (List.mem_singleton.mpr rfl) true hunbalanced)

end PayzenoLedger
