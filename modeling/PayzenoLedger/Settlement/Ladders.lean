import PayzenoLedger.Ledger.Written
import PayzenoLedger.Settlement.Jobs

/-!
# The two exception ladders

The sweep and the retry each have a ladder of `except` clauses around the poster.
Both are stated here over the poster that they call, so that the runs in which it
ends in a given way can be told from the others.
-/

set_option autoImplicit false

namespace PayzenoLedger

open Library Library.Raising

/-! ## The ladders over a poster -/

abbrev Poster : Type 1 := ReconciliationItem → Caller → Async SettlementResult

namespace ReconciliationService

def processItemWith (post : Poster) (itemId : String) : Async Unit := do
  let item ← ReconciliationItemRepository.getOrRaise itemId
  if item.status.isRetryable then
    let result ← post item .batchPass
    let stamp ← Async.now
    item.flush
      { item with
        status := .settled
        settledTransactionId := some result.transactionId
        lastAttemptAt := some stamp }
  else pure ()

def sweepItemWith (post : Poster) (item : ReconciliationItem) (stats : ReconcilePassStats) :
    Async ReconcilePassStats :=
  Async.recover
    (do Async.withSession (.sweepItem item.id) (processItemWith post item.id)
        pure (stats.countSettled item))
    fun raised => do
      if raised.isInstance .retryableSettlementError then
        markRetryable item.id raised.errorCode
        pure { stats with failed := stats.failed + 1 }
      else if raised.isInstance .payzenoLedgerError then
        markFailed item.id raised.errorCode
        pure (stats.countFailed raised.errorCode)
      else throw raised

/-- The sweep calls the settlement poster. -/
theorem sweepItemWith_postSettlement (settings : Settings) :
    sweepItemWith (SettlementPoster.postSettlement settings) = sweepItem settings :=
  rfl

end ReconciliationService

namespace RetryScheduler

variable (settings : Settings)

def markRetryableWith (backoff : Nat → Async Instant) (itemId code : String) : Async Unit := do
  Async.withSession (.retryMarkRetryable itemId) do
    let item ← ReconciliationItemRepository.getOrRaise itemId
    Async.mark (.unlocked item .retryable item.chargeId)
    let stamp ← Async.now
    let nextAttemptAt ← backoff (item.attemptCount + 1)
    item.flush
      { item with
        attemptCount := item.attemptCount + 1
        lastAttemptAt := some stamp
        lastErrorCode := some code
        status := .retryable
        nextAttemptAt := nextAttemptAt }
  countRetried ["error_code", "outcome"]

def attemptWith (post : Poster) (itemId : String) : Async (Option ReconciliationItem) := do
  match ← claimItem settings itemId with
  | none => pure none
  | some item =>
      if settings.reconcileMaxAttempts ≤ item.attemptCount then
        throw (ledgerError .retryExhaustedError
          ("item " ++ itemId ++ " exhausted " ++ toString item.attemptCount ++ " attempts")
          [("item_id", .text itemId), ("attempt_count", .int item.attemptCount)])
      else
        let stamp ← Async.now
        let attempted : ReconciliationItem :=
          { item with
            attemptCount := item.attemptCount + 1
            lastAttemptAt := some stamp
            status := .settling }
        item.flush attempted
        let result ← post attempted .retryScheduler
        let settled : ReconciliationItem :=
          { attempted with
            status := .settled
            settledTransactionId := some result.transactionId }
        attempted.flush settled
        countRetried ["outcome", "requested_by"]
        pure (some settled)

def retryItemWith (post : Poster) (backoff : Nat → Async Instant) (itemId : String) :
    Async (Option ReconciliationItem) :=
  Async.recover (Async.withSession (.retryItem itemId) (attemptWith settings post itemId))
    fun raised => do
      if raised.isInstance .retryableSettlementError then
        markRetryableWith backoff itemId raised.errorCode
        pure none
      else if raised.isInstance .retryExhaustedError then
        markFailed itemId "retry_exhausted"
        pure none
      else if raised.isInstance .payzenoLedgerError then
        markFailed itemId raised.errorCode
        pure none
      else throw raised

/-- The retry calls the settlement poster and its own backoff. -/
theorem retryItemWith_postSettlement :
    retryItemWith settings (SettlementPoster.postSettlement settings) (backoff settings) =
      retryItem settings :=
  rfl

end RetryScheduler

/-- What the ladders can tell of how a posting ended: it went through, or it was already
posted, or an error of the tree was raised. -/
inductive PostingOutcome where
  | posted (created : Bool)
  | refused (cls : ErrorClass) (code : String)
deriving DecidableEq, Repr

def PostingOutcome.of : Except Exception SettlementResult → Option PostingOutcome
  | .ok result => some (.posted result.created)
  | .error (.ledger error) => some (.refused error.cls error.code)
  | .error _ => none

/-- The settlement poster in the runs in which it ends in this way. -/
def posterEnding (settings : Settings) (outcome : PostingOutcome) : Poster :=
  fun item caller =>
    (SettlementPoster.postSettlement settings item caller).endingAs fun result =>
      PostingOutcome.of result = some outcome

/-- The backoff in the runs in which the jitter draws this instant. -/
def backoffDrawing (settings : Settings) (drawn : Instant) : Nat → Async Instant :=
  fun attemptCount =>
    (RetryScheduler.backoff settings attemptCount).endingAs fun result => match result with
      | .ok next => next = drawn
      | .error _ => true

/-! ## One item, alone -/

/-- The row under the id is this one. -/
def Only (item : ReconciliationItem) (db : Database) : Prop :=
  item ∈ db.items ∧ ∀ row ∈ db.items, row.id = item.id → row = item

theorem find?_of_forall_eq {α : Type} {elements : List α} {element : α} (test : α → Bool)
    (hmem : element ∈ elements) (hall : ∀ other ∈ elements, other = element) :
    elements.find? test = if test element then some element else none := by
  split
  · rename_i htest
    cases hfound : elements.find? test with
    | none => exact absurd htest (by simpa using List.find?_eq_none.mp hfound element hmem)
    | some other => rw [hall other (List.mem_of_find?_eq_some hfound)]
  · rename_i htest
    refine List.find?_eq_none.mpr fun other hother => ?_
    rwa [hall other hother]

theorem head?_of_forall_eq {α : Type} {elements : List α} {element : α}
    (hmem : element ∈ elements) (hall : ∀ other ∈ elements, other = element) :
    elements.head? = some element := by
  cases elements with
  | nil => cases hmem
  | cons first rest => rw [List.head?_cons, hall first List.mem_cons_self]

theorem Only.mem_holders {item : ReconciliationItem} {db : Database} (only : Only item db) :
    item ∈ Schema.holders (S := schema) Table.reconciliationItem (.item item.id) db ∧
      ∀ row ∈ Schema.holders (S := schema) Table.reconciliationItem (.item item.id) db,
        row = item := by
  refine ⟨Schema.mem_holders.mpr ⟨only.1, by simp [Table.keys]⟩, fun row hrow => ?_⟩
  obtain ⟨hrow, hkey⟩ := Schema.mem_holders.mp hrow
  exact only.2 row hrow (by simpa [Table.keys, eq_comm] using hkey)

theorem Only.holders {item : ReconciliationItem} {db : Database} (only : Only item db) :
    (Schema.holders (S := schema) Table.reconciliationItem (.item item.id) db).head? =
      some item :=
  head?_of_forall_eq only.mem_holders.1 only.mem_holders.2

theorem Only.spared {item : ReconciliationItem} {top top' : Session system} {db : Database}
    (only : Only item (top.view db)) (spared : Spared Table.reconciliationItem top top') :
    Only item (top'.view db) := by
  have hrows : (top'.view db : Database).items = (top.view db : Database).items :=
    spared.rows db
  unfold Only
  rw [hrows]
  exact only

section Rules

variable {item : ReconciliationItem} {top : Session system} {rest : List (Session system)}
  {world : World} {db : Database}
  {error : Exception → List (Session system) → World → Database → Prop}

theorem must_now {ok : Instant → List (Session system) → World → Database → Prop}
    (h : ∀ stamp world', ok stamp (top :: rest) world' db) :
    must Async.now ok error (top :: rest) world db :=
  must_query fun world' _ _ _ _ => h _ world'

theorem must_getItem
    {ok : ReconciliationItem → List (Session system) → World → Database → Prop}
    (only : Only item (top.view db)) (h : ∀ world', ok item (top :: rest) world' db) :
    must (ReconciliationItemRepository.getOrRaise item.id) ok error (top :: rest) world db := by
  unfold ReconciliationItemRepository.getOrRaise Async.getOrRaise
  rw [must_bind]
  refine must_query fun world' choice found _ hfound => ?_
  have hsome : found = some item := by
    have hhead : some ((Schema.holders (S := schema) Table.reconciliationItem (.item item.id)
      (top.view db)).head?) = some found := hfound
    rw [only.holders] at hhead
    exact (Option.some.inj hhead).symm
  subst hsome
  exact h world'

/-- A flush of what was loaded leaves what the session has. -/
theorem must_flush {changed : ReconciliationItem}
    {ok : Unit → List (Session system) → World → Database → Prop}
    (only : Only item (top.view db)) (hline : changed.line = item.line)
    (h : ∀ top' world', Only changed (top'.view db) → ok () (top' :: rest) world' db) :
    must (item.flush changed) ok error (top :: rest) world db := by
  unfold ReconciliationItem.flush
  split
  · rename_i hsame
    exact h top world (hsame ▸ only)
  · unfold Async.update
    rw [must_bind]
    refine must_update only.holders rfl fun top' world' hview => ?_
    refine h top' world' ?_
    have hid : changed.id = item.id := congrArg (·.id) hline
    have hrows : (top'.view db : Database).items = (top.view db : Database).items.map fun row =>
        if Key.item item.id ∈ Table.reconciliationItem.keys row then
          ReconciliationItem.merge item changed row
        else row := by
      rw [hview]
      exact Write.rows_update (S := schema) Table.reconciliationItem (.item item.id)
        (ReconciliationItem.merge item changed) (fun _ => rfl) _
    have hmerge : ReconciliationItem.merge item changed item = changed :=
      ReconciliationItem.merge_loaded hline
    unfold Only
    rw [hrows]
    constructor
    · refine List.mem_map.mpr ⟨item, only.1, ?_⟩
      rw [if_pos (by simp [Table.keys]), hmerge]
    · intro row hrow hrowId
      obtain ⟨before, hbefore, rfl⟩ := List.mem_map.mp hrow
      split at hrowId
      · rename_i hkey
        rw [if_pos hkey, only.2 before hbefore (by simpa [Table.keys, eq_comm] using hkey), hmerge]
      · rename_i hkey
        exact absurd (by simp [Table.keys, hrowId, hid]) hkey

theorem must_poster {settings : Settings} {outcome : PostingOutcome} {caller : Caller}
    {ok : SettlementResult → List (Session system) → World → Database → Prop}
    (hposted : ∀ result top' world', Spared Table.reconciliationItem top top' →
      outcome = .posted result.created → ok result (top' :: rest) world' db)
    (hrefused : ∀ raised top' world', Spared Table.reconciliationItem top top' →
      outcome = .refused raised.cls raised.code →
      error (.ledger raised) (top' :: rest) world' db) :
    must (posterEnding settings outcome item caller) ok error (top :: rest) world db := by
  have confined : Confined (Sparing Table.reconciliationItem)
      (SettlementPoster.postSettlement settings item caller) :=
    (SettlementPoster.confined_postSettlement settings item caller).mono fun _ => Books.sparing
  refine must_endingAs (confined.must
    (fun result top' world' spared hends => ?_) fun raised top' world' spared hends => ?_)
  · exact hposted result top' world' spared (Option.some.inj (of_decide_eq_true hends)).symm
  · cases raised with
    | ledger raised =>
        exact hrefused raised top' world' spared (Option.some.inj (of_decide_eq_true hends)).symm
    | _ => exact absurd (of_decide_eq_true hends) nofun

end Rules

/-! ## What an attempt makes of an item -/

/-- The columns that say how the attempts of an item stand. -/
structure ItemProgress where
  status : ItemStatus
  lastErrorCode : Option String
  attemptCount : Nat
  nextAttemptAt : Instant
deriving DecidableEq, Repr

def ReconciliationItem.progress (item : ReconciliationItem) : ItemProgress where
  status := item.status
  lastErrorCode := item.lastErrorCode
  attemptCount := item.attemptCount
  nextAttemptAt := item.nextAttemptAt

namespace ItemProgress

/-- One more failed attempt. -/
def failedAs (progress : ItemProgress) (code : String) (status : ItemStatus) : ItemProgress :=
  { progress with
    status := status
    lastErrorCode := some code
    attemptCount := progress.attemptCount + 1 }

/-- What an attempt of the sweep leaves of an item that it finds eligible. -/
def swept (progress : ItemProgress) : PostingOutcome → ItemProgress
  | .posted _ => { progress with status := .settled }
  | .refused cls code =>
      if cls.isInstance .retryableSettlementError then progress.failedAs code .retryable
      else progress.failedAs code (if code = "orphaned_item" then .orphaned else .failed)

/-- What an attempt of the retry leaves of an item with attempts left, the counter of the
retries taking its labels or not. -/
def attempted (settings : Settings) (drawn : Instant) (counted : Bool)
    (progress : ItemProgress) : PostingOutcome → ItemProgress
  | .posted _ =>
      -- The count is inside the transaction, and the ladder does not catch its `ValueError`.
      if counted then
        { progress with status := .settled, attemptCount := progress.attemptCount + 1 }
      else progress
  | .refused cls code =>
      if cls.isInstance .retryableSettlementError then
        -- Without a positive base the mark raises, and nothing is left.
        if settings.reconcileRetryBackoffBaseSeconds = 0 then progress
        else { progress.failedAs code .retryable with nextAttemptAt := drawn }
      else if cls.isInstance .retryExhaustedError then
        progress.failedAs "retry_exhausted" .failed
      else progress.failedAs code .failed

/-- What an attempt of the retry leaves of an item that it can claim. -/
def retried (settings : Settings) (drawn : Instant) (counted : Bool) (progress : ItemProgress)
    (outcome : PostingOutcome) : ItemProgress :=
  if settings.reconcileMaxAttempts ≤ progress.attemptCount then
    progress.failedAs "retry_exhausted" .failed
  else progress.attempted settings drawn counted outcome

end ItemProgress

/-- The item stands so, and is the only row under its id. -/
def Stands (itemId : String) (progress : ItemProgress) (db : Database) : Prop :=
  ∃ item : ReconciliationItem, item.id = itemId ∧ item.progress = progress ∧ Only item db

theorem Only.stands {item : ReconciliationItem} {db : Database} (only : Only item db) :
    Stands item.id item.progress db :=
  ⟨item, rfl, rfl, only⟩

theorem Stands.progress_eq {itemId : String} {progress : ItemProgress} {db : Database}
    (stands : Stands itemId progress db) {row : ReconciliationItem} (hrow : row ∈ db.items)
    (hid : row.id = itemId) : row.progress = progress := by
  obtain ⟨item, hitem, hprogress, only⟩ := stands
  rw [only.2 row hrow (hid.trans hitem.symm), hprogress]

section Attempts

variable {settings : Settings} {item : ReconciliationItem} {stack : List (Session system)}
  {world : World} {db : Database}
  {error : Exception → List (Session system) → World → Database → Prop}

namespace ReconciliationService

theorem must_markRetryable {code : String}
    {ok : Unit → List (Session system) → World → Database → Prop} (only : Only item db)
    (h : ∀ world' db', Stands item.id (item.progress.failedAs code .retryable) db' →
      ok () stack world' db') :
    must (markRetryable item.id code) ok error stack world db := by
  refine must_withSession.mpr ?_
  rw [must_bind]
  refine must_getItem only fun world₁ => ?_
  rw [must_bind]
  refine must_now fun stamp world₂ => ?_
  refine must_flush only rfl fun top world₃ only' => ?_
  rintro top rest ⟨⟩
  exact h world₃ _ only'.stands

theorem must_markFailed {code : String}
    {ok : Unit → List (Session system) → World → Database → Prop} (only : Only item db)
    (h : ∀ world' db', Stands item.id (item.progress.failedAs code
        (if code = "orphaned_item" then .orphaned else .failed)) db' → ok () stack world' db') :
    must (markFailed item.id code) ok error stack world db := by
  refine must_withSession.mpr ?_
  rw [must_bind]
  refine must_getItem only fun world₁ => ?_
  rw [must_bind]
  refine must_now fun stamp world₂ => ?_
  refine must_flush only rfl fun top world₃ only' => ?_
  rintro top rest ⟨⟩
  exact h world₃ _ only'.stands

theorem must_sweepItemWith {outcome : PostingOutcome} (stats : ReconcilePassStats)
    (only : Only item db) :
    must (sweepItemWith (posterEnding settings outcome) item stats)
      (fun _ _ _ db' => Stands item.id
        (if item.status.isRetryable then item.progress.swept outcome else item.progress) db')
      (fun _ _ _ db' => Stands item.id
        (if item.status.isRetryable then item.progress.swept outcome else item.progress) db')
      stack world db := by
  unfold sweepItemWith Async.recover
  rw [must_recover, must_bind]
  refine must_withSession.mpr ?_
  unfold processItemWith
  rw [must_bind]
  refine must_getItem only fun world₁ => ?_
  cases hretryable : item.status.isRetryable with
  | false =>
      rintro top rest ⟨⟩
      exact only.stands
  | true =>
      simp only [if_true]
      rw [must_bind]
      refine must_poster (fun result top world₂ spared houtcome => ?_)
        fun raised top world₂ spared houtcome => ?_
      · rw [must_bind]
        refine must_now fun stamp world₃ => ?_
        refine must_flush (only.spared spared) rfl fun top' world₄ only' => ?_
        rintro top'' rest ⟨⟩
        subst houtcome
        exact only'.stands
      · rintro top' rest ⟨⟩
        subst houtcome
        have hroot : raised.cls.isInstance .payzenoLedgerError = true := by
          cases raised.cls <;> rfl
        simp only [Exception.isInstance, hroot, if_true, ItemProgress.swept]
        cases hcls : raised.cls.isInstance .retryableSettlementError with
        | true =>
            simp only [if_true]
            rw [must_bind]
            exact must_markRetryable only fun world₃ db' stands => stands
        | false =>
            simp only [Bool.false_eq_true, if_false]
            rw [must_bind]
            exact must_markFailed only fun world₃ db' stands => stands

end ReconciliationService

namespace RetryScheduler

/-- Alone, the claim fails for an item that is not eligible, and for no other. -/
theorem must_claimItem {top : Session system}
    {ok : Option ReconciliationItem → List (Session system) → World → Database → Prop}
    (only : Only item (top.view db))
    (hok : ∀ top' world', Spared Table.reconciliationItem top top' →
      ok (if item.status.isRetryable then some item else none) [top'] world' db) :
    must (claimItem settings item.id) ok error [top] world db := by
  unfold claimItem ReconciliationItemRepository.getBatchId
  rw [must_bind]
  refine must_query fun world₁ choice found _ hfound => ?_
  have hsome : found = some item.batchId := by
    have hhead : some ((((top.view db : Database).items.filter fun row =>
        row.id = item.id).head?).map (·.batchId)) = some found := hfound
    rw [head?_of_forall_eq (List.mem_filter.mpr ⟨only.1, by simp⟩) fun row hrow => ?_] at hhead
    · exact (Option.some.inj hhead).symm
    · obtain ⟨hrow, hid⟩ := List.mem_filter.mp hrow
      exact only.2 row hrow (of_decide_eq_true hid)
  subst hsome
  dsimp only
  rw [must_bind]
  refine must_execute.mpr fun world₂ choice₂ outcome _ hexec => ?_
  simp only [Statement.exec, unheld_nil, if_true] at hexec
  cases hexec
  simp only [if_true]
  refine must_execute.mpr fun world₃ choice₃ outcome₃ _ hexec₃ => ?_
  have hview : (top.extend (⟨true, [], [.advisory (AdvisoryLockManager.key settings
      item.batchId)]⟩ : Outcome system Bool)).view db = top.view db := by
    simp [Session.view, Session.extend]
  rw [hview] at hexec₃
  simp only [Statement.exec] at hexec₃
  have hfind := find?_of_forall_eq (fun row : ReconciliationItem => row.status.isRetryable)
    only.mem_holders.1 only.mem_holders.2
  erw [hfind] at hexec₃
  cases hretryable : item.status.isRetryable with
  | false =>
      simp only [hretryable, Bool.false_eq_true, if_false] at hexec₃ hok
      cases hexec₃
      exact hok _ world₃ ⟨fun base => by simp [Session.view, Session.extend]⟩
  | true =>
      simp only [hretryable, if_true, unheld_nil, List.all_eq_true, implies_true] at hexec₃ hok
      cases hexec₃
      exact hok _ world₃ ⟨fun base => by simp [Session.view, Session.extend]⟩

theorem must_backoff {drawn : Instant} {attemptCount : Nat} {top : Session system}
    {rest : List (Session system)}
    {ok : Instant → List (Session system) → World → Database → Prop}
    (hdrawn : settings.reconcileRetryBackoffBaseSeconds ≠ 0 →
      ∀ world', ok drawn (top :: rest) world' db)
    (hraised : settings.reconcileRetryBackoffBaseSeconds = 0 →
      ∀ raised world', error raised (top :: rest) world' db) :
    must (backoffDrawing settings drawn attemptCount) ok error (top :: rest) world db := by
  refine must_endingAs ?_
  unfold backoff
  rw [must_bind]
  refine must_now fun stamp world₁ => ?_
  split
  · rename_i hbase
    exact fun _ => hraised hbase _ world₁
  · rename_i hbase
    refine must_query fun world₂ choice next _ _ hends => ?_
    rw [of_decide_eq_true hends]
    exact hdrawn hbase world₂

theorem must_countRetried {names : List String}
    {ok : Unit → List (Session system) → World → Database → Prop}
    (hok : ∀ world', ok () stack world' db)
    (herror : ∀ world', error duplicatedTimeseries stack world' db) :
    must (countRetried names) ok error stack world db := by
  unfold countRetried Async.increment
  rw [must_bind]
  refine must_call fun world₁ choice counted world₂ _ hreply => ?_
  cases counted with
  | ok value => exact hok world₂
  | error raised =>
      cases choice <;> simp only [World.respond, reduceCtorEq, Option.some.injEq] at hreply
      rw [Metrics.increment_error (congrArg Prod.fst hreply)]
      exact herror world₂

/-- The count after a mark comes too late to undo it. -/
theorem must_markRetryableWith {drawn : Instant} {code : String}
    {ok : Unit → List (Session system) → World → Database → Prop} (only : Only item db)
    (hmarked : settings.reconcileRetryBackoffBaseSeconds ≠ 0 → ∀ world' db',
      Stands item.id { item.progress.failedAs code .retryable with nextAttemptAt := drawn } db' →
      ok () stack world' db' ∧ error duplicatedTimeseries stack world' db')
    (hraised : settings.reconcileRetryBackoffBaseSeconds = 0 → ∀ raised world',
      error raised stack world' db) :
    must (markRetryableWith (backoffDrawing settings drawn) item.id code) ok error stack
      world db := by
  unfold markRetryableWith
  rw [must_bind]
  refine must_withSession.mpr ?_
  rw [must_bind]
  refine must_getItem only fun world₁ => ?_
  rw [must_bind]
  refine must_mark ?_
  rw [must_bind]
  refine must_now fun stamp world₂ => ?_
  rw [must_bind]
  refine must_backoff (fun hbase world₃ => ?_) fun hbase raised world₃ => ?_
  · refine must_flush only rfl fun top world₄ only' => ?_
    rintro top' rest ⟨⟩
    have stands := only'.stands
    exact must_countRetried (fun world₅ => (hmarked hbase world₅ _ stands).1)
      fun world₅ => (hmarked hbase world₅ _ stands).2
  · rintro top' rest ⟨⟩
    exact hraised hbase raised world₃

theorem must_markFailed {code : String}
    {ok : Unit → List (Session system) → World → Database → Prop} (only : Only item db)
    (h : ∀ world' db', Stands item.id (item.progress.failedAs code .failed) db' →
      ok () stack world' db' ∧ error duplicatedTimeseries stack world' db') :
    must (markFailed item.id code) ok error stack world db := by
  unfold markFailed
  rw [must_bind]
  refine must_withSession.mpr ?_
  rw [must_bind]
  refine must_getItem only fun world₁ => ?_
  rw [must_bind]
  refine must_mark ?_
  rw [must_bind]
  refine must_now fun stamp world₂ => ?_
  refine must_flush only rfl fun top world₃ only' => ?_
  rintro top rest ⟨⟩
  have stands := only'.stands
  exact must_countRetried (fun world₄ => (h world₄ _ stands).1)
    fun world₄ => (h world₄ _ stands).2

theorem must_retryItemWith {outcome : PostingOutcome} {drawn : Instant} (only : Only item db) :
    must (retryItemWith settings (posterEnding settings outcome)
        (backoffDrawing settings drawn) item.id)
      (fun _ _ _ db' => ∃ counted, Stands item.id
        (if item.status.isRetryable then item.progress.retried settings drawn counted outcome
          else item.progress) db')
      (fun _ _ _ db' => ∃ counted, Stands item.id
        (if item.status.isRetryable then item.progress.retried settings drawn counted outcome
          else item.progress) db')
      [] world db := by
  unfold retryItemWith Async.recover
  rw [must_recover]
  refine must_withSession.mpr ?_
  unfold attemptWith
  rw [must_bind]
  refine must_claimItem only fun top world₁ spared => ?_
  cases hretryable : item.status.isRetryable with
  | false =>
      simp only [Bool.false_eq_true, if_false]
      rintro top' rest ⟨⟩
      exact ⟨true, (only.spared spared).stands⟩
  | true =>
      simp only [if_true]
      split
      · rename_i hexhausted
        rintro top' rest ⟨⟩
        have hretried (counted : Bool) : item.progress.retried settings drawn counted outcome =
            item.progress.failedAs "retry_exhausted" .failed := if_pos hexhausted
        simp only [hretried]
        change must (markFailed item.id "retry_exhausted" >>= fun _ => pure none) _ _ _ _ _
        rw [must_bind]
        exact must_markFailed only fun world₂ db' stands =>
          ⟨⟨true, stands⟩, ⟨true, stands⟩⟩
      · rename_i hattempts
        have hretried (counted : Bool) : item.progress.retried settings drawn counted outcome =
            item.progress.attempted settings drawn counted outcome := if_neg hattempts
        simp only [hretried]
        rw [must_bind]
        refine must_now fun stamp world₂ => ?_
        rw [must_bind]
        refine must_flush (only.spared spared) rfl fun top₁ world₃ only₁ => ?_
        rw [must_bind]
        refine must_poster (fun result top₂ world₄ spared₂ houtcome => ?_)
          fun raised top₂ world₄ spared₂ houtcome => ?_
        · rw [must_bind]
          refine must_flush (only₁.spared spared₂) rfl fun top₃ world₅ only₃ => ?_
          subst houtcome
          rw [must_bind]
          refine must_countRetried (fun world₆ => ?_) fun world₆ => ?_
          · rintro top' rest ⟨⟩
            exact ⟨true, only₃.stands⟩
          · rintro top' rest ⟨⟩
            exact ⟨false, only.stands⟩
        · rintro top' rest ⟨⟩
          subst houtcome
          have hroot : raised.cls.isInstance .payzenoLedgerError = true := by
            cases raised.cls <;> rfl
          simp only [Exception.isInstance, hroot, if_true, ItemProgress.attempted]
          cases hcls : raised.cls.isInstance .retryableSettlementError with
          | true =>
              simp only [if_true]
              rw [must_bind]
              refine must_markRetryableWith only (fun hbase world₅ db' stands => ?_)
                fun hbase raised' world₅ => ?_
              · rw [if_neg hbase]
                exact ⟨⟨true, stands⟩, ⟨true, stands⟩⟩
              · rw [if_pos hbase]
                exact ⟨true, only.stands⟩
          | false =>
              simp only [Bool.false_eq_true, if_false]
              cases hexhausted : raised.cls.isInstance .retryExhaustedError with
              | true =>
                  simp only [if_true]
                  rw [must_bind]
                  exact must_markFailed only fun world₅ db' stands =>
                    ⟨⟨true, stands⟩, ⟨true, stands⟩⟩
              | false =>
                  simp only [Bool.false_eq_true, if_false]
                  rw [must_bind]
                  exact must_markFailed only fun world₅ db' stands =>
                    ⟨⟨true, stands⟩, ⟨true, stands⟩⟩

end RetryScheduler

end Attempts

/-! ## Treated alike -/

/-- The status that the lifecycle of an item gives for the outcome of an attempt. -/
def lifecycleStatus (settings : Settings) (progress : ItemProgress) :
    PostingOutcome → ItemStatus
  | .posted _ => .settled
  | .refused cls _ =>
      if cls = .orphanedItemError then .orphaned
      else if cls = .settlementVarianceExceededError then .varianceExceeded
      else if cls.isInstance .retryableSettlementError ∧
          progress.attemptCount + 1 < settings.reconcileMaxAttempts then .retryable
      else .failed

/-- The row that an attempt of the sweep leaves, the poster ending so. -/
def SweepLeaves (settings : Settings) (db : Database) (item : ReconciliationItem)
    (outcome : PostingOutcome) (swept : ReconciliationItem) : Prop :=
  ∃ stats result db', Finishes (Y := system) db
      (ReconciliationService.sweepItemWith (posterEnding settings outcome) item stats).run
      result db' ∧ swept ∈ db'.items ∧ swept.id = item.id

/-- The row that an attempt of the retry leaves, the poster ending so and the jitter drawing
this instant. -/
def RetryLeaves (settings : Settings) (db : Database) (item : ReconciliationItem)
    (outcome : PostingOutcome) (drawn : Instant) (retried : ReconciliationItem) : Prop :=
  ∃ result db', Finishes (Y := system) db
      (RetryScheduler.retryItemWith settings (posterEnding settings outcome)
        (backoffDrawing settings drawn) item.id).run
      result db' ∧ retried ∈ db'.items ∧ retried.id = item.id

/-- Both attempts leave the item alike, and as its lifecycle says. -/
structure TreatedAlike (settings : Settings) (item : ReconciliationItem)
    (outcome : PostingOutcome) (swept retried : ReconciliationItem) : Prop where
  progress : swept.progress = retried.progress
  lifecycle : item.status.isRetryable = true →
    swept.status = lifecycleStatus settings item.progress outcome

/-- The outcomes at which the ladders agree with each other and with the lifecycle. -/
def Agreed (settings : Settings) (drawn : Instant) (progress : ItemProgress) :
    PostingOutcome → Prop
  | .posted _ => False
  | .refused cls code =>
      if cls.isInstance .retryableSettlementError then
        progress.attemptCount + 1 < settings.reconcileMaxAttempts ∧
          settings.reconcileRetryBackoffBaseSeconds ≠ 0 ∧ progress.nextAttemptAt = drawn
      else
        cls ≠ .orphanedItemError ∧ cls ≠ .settlementVarianceExceededError ∧
          code ≠ "orphaned_item" ∧
          (cls = .retryExhaustedError ∨ settings.reconcileMaxAttempts ≤ progress.attemptCount →
            code = "retry_exhausted")

theorem ErrorClass.isInstance_retryExhausted (cls : ErrorClass) :
    cls.isInstance .retryExhaustedError = true ↔ cls = .retryExhaustedError := by
  cases cls <;> decide

theorem ErrorClass.isInstance_retryableSettlement (cls : ErrorClass) :
    cls.isInstance .retryableSettlementError = true ↔ cls = .retryableSettlementError := by
  cases cls <;> decide

namespace ItemProgress

@[simp]
theorem failedAs_status (progress : ItemProgress) (code : String) (status : ItemStatus) :
    (progress.failedAs code status).status = status :=
  rfl

theorem failedAs_inj {progress : ItemProgress} {code code' : String}
    {status status' : ItemStatus} :
    progress.failedAs code status = progress.failedAs code' status' ↔
      code = code' ∧ status = status' := by
  simp only [failedAs, mk.injEq, Option.some.injEq]
  tauto

theorem agreed_iff {settings : Settings} {drawn : Instant} {counted : Bool}
    {progress : ItemProgress} (heligible : progress.status.isRetryable = true)
    (outcome : PostingOutcome) :
    progress.swept outcome = progress.retried settings drawn counted outcome ∧
      (progress.swept outcome).status = lifecycleStatus settings progress outcome ↔
    Agreed settings drawn progress outcome := by
  cases outcome with
  | posted created =>
      refine iff_of_false (fun h => ?_) id
      have hcount := congrArg attemptCount h.1
      have hstatus := congrArg status h.1
      unfold retried attempted at hcount hstatus
      split at hcount
      · simp [swept, failedAs] at hcount
      · cases counted with
        | true => simp [swept] at hcount
        | false =>
            rw [if_neg (by assumption), if_neg Bool.false_ne_true] at hstatus
            rw [← hstatus] at heligible
            cases heligible
  | refused cls code =>
      unfold retried swept attempted lifecycleStatus Agreed
      simp only [ErrorClass.isInstance_retryableSettlement, ErrorClass.isInstance_retryExhausted]
      by_cases hretryable : cls = .retryableSettlementError
      · subst hretryable
        by_cases hexhausted : settings.reconcileMaxAttempts ≤ progress.attemptCount
        · simp [hexhausted, failedAs]
          omega
        · by_cases hbase : settings.reconcileRetryBackoffBaseSeconds = 0
          · refine iff_of_false (fun h => ?_) fun h => h.2.1 hbase
            have hcount := congrArg attemptCount h.1
            simp [hexhausted, hbase, failedAs] at hcount
          · simp [hexhausted, hbase, failedAs, and_comm]
      · by_cases horphaned : code = "orphaned_item"
        · by_cases hexhausted : settings.reconcileMaxAttempts ≤ progress.attemptCount
          · simp [hretryable, hexhausted, horphaned, failedAs_inj]
          · by_cases hcls : cls = .retryExhaustedError <;>
              simp [hretryable, hexhausted, horphaned, hcls, failedAs_inj]
        · by_cases hexhausted : settings.reconcileMaxAttempts ≤ progress.attemptCount <;>
            by_cases hcls : cls = .retryExhaustedError <;>
              by_cases horphan : cls = .orphanedItemError <;>
                by_cases hvariance : cls = .settlementVarianceExceededError <;>
                  simp_all [failedAs_inj]

end ItemProgress

theorem Only.of_unique {db : Database} (unique : Schema.Unique (S := schema) db)
    {item : ReconciliationItem} (hitem : item ∈ db.items) : Only item db := by
  refine ⟨hitem, fun row hrow hid => ?_⟩
  exact unique.eq_of_key Table.reconciliationItem (.item item.id) hrow hitem
    (by simp [Table.keys, hid]) (by simp [Table.keys])

/-- For every item and every outcome of the poster: an attempt of the sweep and one of the
retry leave the item alike, and as its lifecycle says, exactly when the item was not
eligible or the ladders agree at the outcome. -/
theorem sweep_retry_alike {settings : Settings} {db : Database}
    (unique : Schema.Unique (S := schema) db) {item : ReconciliationItem}
    (hitem : item ∈ db.items) {outcome : PostingOutcome} {drawn : Instant}
    {swept retried : ReconciliationItem} (hsweep : SweepLeaves settings db item outcome swept)
    (hretry : RetryLeaves settings db item outcome drawn retried) :
    TreatedAlike settings item outcome swept retried ↔
      (item.status.isRetryable = true → Agreed settings drawn item.progress outcome) := by
  have only : Only item db := .of_unique unique hitem
  obtain ⟨stats, result, db₁, finishes₁, hswept, hsweptId⟩ := hsweep
  obtain ⟨result₂, db₂, finishes₂, hretried, hretriedId⟩ := hretry
  have hends₁ := finishes₁.of_mustEnd (fun _ (db' : Database) => Stands item.id
    (if item.status.isRetryable then item.progress.swept outcome else item.progress) db')
    fun world => mustEnd_mono (ReconciliationService.must_sweepItemWith stats only)
      fun result _ _ _ hresult => by cases result <;> exact hresult
  have hends₂ := finishes₂.of_mustEnd (fun _ (db' : Database) => ∃ counted, Stands item.id
    (if item.status.isRetryable then item.progress.retried settings drawn counted outcome
      else item.progress) db')
    fun world => mustEnd_mono (RetryScheduler.must_retryItemWith only)
      fun result _ _ _ hresult => by cases result <;> exact hresult
  obtain ⟨counted, hends₂⟩ := hends₂
  have hsweptProgress := hends₁.progress_eq hswept hsweptId
  have hretriedProgress := hends₂.progress_eq hretried hretriedId
  have hagreed (hretryable : item.status.isRetryable = true) :=
    @ItemProgress.agreed_iff settings drawn counted item.progress hretryable outcome
  constructor
  · intro alike hretryable
    refine (hagreed hretryable).mp ?_
    rw [if_pos hretryable] at hsweptProgress hretriedProgress
    rw [← hsweptProgress, ← hretriedProgress]
    exact ⟨alike.progress, alike.lifecycle hretryable⟩
  · intro agreed
    cases hretryable : item.status.isRetryable with
    | false =>
        rw [hretryable, if_neg Bool.false_ne_true] at hsweptProgress hretriedProgress
        exact ⟨hsweptProgress.trans hretriedProgress.symm, fun h => absurd h (by simp [hretryable])⟩
    | true =>
        obtain ⟨hsame, hstatus⟩ := (hagreed hretryable).mpr (agreed hretryable)
        rw [if_pos hretryable] at hsweptProgress hretriedProgress
        refine ⟨hsweptProgress.trans (hsame.trans hretriedProgress.symm), fun _ => ?_⟩
        rw [← hstatus, ← hsweptProgress]
        rfl

namespace LadderSample

/-- What the two attempts leave under plain answers: the ids and the progress of the items. -/
def swept (item : ReconciliationItem) (outcome : PostingOutcome) (steps : Nat) :
    Option (List (String × ItemProgress)) :=
  (runAlone (Y := system) (sampleSettlement [item] false) ({ clock := 10 } : World)
    (ReconciliationService.sweepItemWith (posterEnding sampleSettings outcome) item {}).run
    (advances 0 (List.replicate steps .plain))).map fun ended =>
      (ended.2 : Database).items.map fun row => (row.id, row.progress)

def retried (item : ReconciliationItem) (outcome : PostingOutcome) (steps : Nat) :
    Option (List (String × ItemProgress)) :=
  (runAlone (Y := system) (sampleSettlement [item] false) ({ clock := 10 } : World)
    (RetryScheduler.retryItemWith sampleSettings (posterEnding sampleSettings outcome)
      (backoffDrawing sampleSettings 0) item.id).run
    (advances 0 (List.replicate steps .plain))).map fun ended =>
      (ended.2 : Database).items.map fun row => (row.id, row.progress)

/-- The item whose rows these are. -/
theorem mem_of_map {items : List ReconciliationItem} {itemId : String}
    {progress : ItemProgress}
    (h : items.map (fun row => (row.id, row.progress)) = [(itemId, progress)]) :
    ∃ row ∈ items, row.id = itemId ∧ row.progress = progress := by
  have hmem : (itemId, progress) ∈ items.map fun row => (row.id, row.progress) := by simp [h]
  obtain ⟨row, hrow, hpair⟩ := List.mem_map.mp hmem
  exact ⟨row, hrow, Prod.mk.inj hpair⟩

theorem leaves_of_swept (item : ReconciliationItem) (outcome : PostingOutcome) (steps : Nat)
    (progress : ItemProgress) (h : swept item outcome steps = some [(item.id, progress)]) :
    ∃ row, SweepLeaves sampleSettings (sampleSettlement [item] false) item outcome row ∧
      row.progress = progress := by
  obtain ⟨⟨result, db'⟩, hended, hitems⟩ := Option.map_eq_some_iff.mp h
  obtain ⟨row, hrow, hid, hprogress⟩ := mem_of_map hitems
  exact ⟨row, ⟨_, result, db', .of_runAlone hended, hrow, hid⟩, hprogress⟩

theorem leaves_of_retried (item : ReconciliationItem) (outcome : PostingOutcome) (steps : Nat)
    (progress : ItemProgress) (h : retried item outcome steps = some [(item.id, progress)]) :
    ∃ row, RetryLeaves sampleSettings (sampleSettlement [item] false) item outcome 0 row ∧
      row.progress = progress := by
  obtain ⟨⟨result, db'⟩, hended, hitems⟩ := Option.map_eq_some_iff.mp h
  obtain ⟨row, hrow, hid, hprogress⟩ := mem_of_map hitems
  exact ⟨row, ⟨result, db', .of_runAlone hended, hrow, hid⟩, hprogress⟩

theorem unique_single (item : ReconciliationItem) :
    Schema.Unique (S := schema) (sampleSettlement [item] false) :=
  unique_sampleSettlement (List.pairwise_singleton _ _)

/-- A line whose charge is not projected. -/
def lost : ReconciliationItem := { sampleItem "ri_1" "sb_1" with chargeId := some "ch_9" }

/-- A line without a charge. -/
def orphan : ReconciliationItem := { sampleItem "ri_1" "sb_1" with chargeId := none }

end LadderSample

open LadderSample in
theorem sweep_retry_alike_lost : ∃ swept retried,
    TreatedAlike sampleSettings lost (.refused .chargeProjectionNotFoundError "not_found")
      swept retried ∧ swept.progress = ⟨.failed, some "not_found", 1, 0⟩ := by
  obtain ⟨row, hsweep, hprogress⟩ := leaves_of_swept lost
    (.refused .chargeProjectionNotFoundError "not_found") 11
    ⟨.failed, some "not_found", 1, 0⟩ (by decide +kernel)
  obtain ⟨row', hretry, -⟩ := leaves_of_retried lost
    (.refused .chargeProjectionNotFoundError "not_found") 17
    ⟨.failed, some "not_found", 1, 0⟩ (by decide +kernel)
  refine ⟨row, row', ?_, hprogress⟩
  refine (sweep_retry_alike (unique_single lost) List.mem_cons_self hsweep hretry).mpr ?_
  intro _
  exact ⟨nofun, nofun, by decide, fun h => absurd h (by decide)⟩

open LadderSample in
/-- The sweep leaves a line without a charge orphaned, the retry leaves it failed. -/
theorem orphan_treated_differently : ∃ swept retried,
    SweepLeaves sampleSettings (sampleSettlement [orphan] false) orphan
        (.refused .orphanedItemError "orphaned_item") swept ∧
      RetryLeaves sampleSettings (sampleSettlement [orphan] false) orphan
        (.refused .orphanedItemError "orphaned_item") 0 retried ∧
      ¬ TreatedAlike sampleSettings orphan (.refused .orphanedItemError "orphaned_item")
        swept retried := by
  obtain ⟨row, hsweep, hprogress⟩ := leaves_of_swept orphan
    (.refused .orphanedItemError "orphaned_item") 10
    ⟨.orphaned, some "orphaned_item", 1, 0⟩ (by decide +kernel)
  obtain ⟨row', hretry, hprogress'⟩ := leaves_of_retried orphan
    (.refused .orphanedItemError "orphaned_item") 16
    ⟨.failed, some "orphaned_item", 1, 0⟩ (by decide +kernel)
  refine ⟨row, row', hsweep, hretry, fun alike => ?_⟩
  have hsame := hprogress.symm.trans (alike.progress.trans hprogress')
  exact absurd hsame (by decide)

end PayzenoLedger
