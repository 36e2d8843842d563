import PayzenoLedger.Library.Asked
import PayzenoLedger.Services.Captures
import PayzenoLedger.Settlement.Variances

/-!
# The acquirer that is asked

The facade over the clients of the acquirers picks a client and a circuit for each call.
A capture names no acquirer and goes to the default one; the other calls go to the
acquirer that they name.  In every run of sweeps, retries and deferred-capture passes the
named acquirer is that of the item or attempt which the call is made for.
-/

set_option autoImplicit false

namespace PayzenoLedger

open Library Library.Raising

/-! ## The facade -/

namespace BreakerProcessorClient

/-- The client that a call goes to, and the circuit that it counts on. -/
structure Route where
  client : String
  circuit : String
deriving DecidableEq, Repr

/-- `acquirer or self._default_acquirer`. -/
def clientFor (defaultAcquirer : String) : Option String → String
  | some acquirer => if acquirer = "" then defaultAcquirer else acquirer
  | none => defaultAcquirer

def operation : Request → Option String
  | .confirmSettlement .. => some "confirm_settlement"
  | .captureDeferred .. => some "capture_deferred"
  | .captureStatus .. => some "get_capture_status"
  | .fetchSettlementFile .. => some "fetch_settlement_file"
  | .fxRates _ | .increment .. | .countDuplicate .. => none

/-- Neither caller of `capture_deferred` passes the acquirer on. -/
def route (defaultAcquirer : String) : Request → Option Route
  | .confirmSettlement acquirer _ _ =>
      some ⟨clientFor defaultAcquirer (some acquirer), acquirer ++ ":confirm_settlement"⟩
  | .captureDeferred .. =>
      some ⟨clientFor defaultAcquirer none,
        clientFor defaultAcquirer none ++ ":capture_deferred"⟩
  | .captureStatus acquirer _ =>
      some ⟨clientFor defaultAcquirer (some acquirer), acquirer ++ ":get_capture_status"⟩
  | .fetchSettlementFile acquirer _ _ =>
      some ⟨clientFor defaultAcquirer (some acquirer), acquirer ++ ":fetch_settlement_file"⟩
  | .fxRates _ | .increment .. | .countDuplicate .. => none

/-- The client and the circuit of this acquirer. -/
def ownRoute (acquirer : String) (request : Request) : Option Route :=
  (operation request).map fun operation => ⟨acquirer, acquirer ++ ":" ++ operation⟩

theorem clientFor_some {defaultAcquirer acquirer : String} :
    clientFor defaultAcquirer (some acquirer) = acquirer ↔
      acquirer ≠ "" ∨ defaultAcquirer = "" := by
  simp only [clientFor]
  by_cases hempty : acquirer = ""
  · simp [hempty]
  · simp [hempty]

theorem route_captureDeferred {defaultAcquirer acquirer chargeId currency reference : String}
    {idempotencyKey : String} {amountMinor : Int} {item : Option String} :
    route defaultAcquirer (.captureDeferred chargeId amountMinor currency reference
        idempotencyKey item) =
      ownRoute acquirer (.captureDeferred chargeId amountMinor currency reference
        idempotencyKey item) ↔ acquirer = defaultAcquirer := by
  constructor
  · intro hroute
    exact (congrArg Route.client (Option.some.inj hroute)).symm
  · rintro rfl
    simp [route, ownRoute, operation, clientFor, String.append_assoc]

theorem route_confirmSettlement {defaultAcquirer acquirer acquirerReference batchId : String} :
    route defaultAcquirer (.confirmSettlement acquirer acquirerReference batchId) =
      ownRoute acquirer (.confirmSettlement acquirer acquirerReference batchId) ↔
        acquirer ≠ "" ∨ defaultAcquirer = "" := by
  rw [← clientFor_some]
  simp [route, ownRoute, operation, String.append_assoc]

theorem route_captureStatus {defaultAcquirer acquirer idempotencyKey : String} :
    route defaultAcquirer (.captureStatus acquirer idempotencyKey) =
      ownRoute acquirer (.captureStatus acquirer idempotencyKey) ↔
        acquirer ≠ "" ∨ defaultAcquirer = "" := by
  rw [← clientFor_some]
  simp [route, ownRoute, operation, String.append_assoc]

end BreakerProcessorClient

/-! ## Passes -/

/-- What asks the acquirers about items and attempts. -/
inductive AcquirerTask where
  | settlement (pass : SettlementTask)
  | captures (limit : Nat)

def AcquirerTask.run (settings : Settings) : AcquirerTask → Async Unit
  | .settlement pass => pass.run settings
  | .captures limit => do
      let _ ← DeferredCaptureService.processPending limit

/-- One worker for each pass, on a database. -/
def acquirerTasksOn (settings : Settings) (passes : List AcquirerTask) (db : Database)
    (world : World) : Config system (Except Exception Unit) :=
  Config.start (Y := system) db world (passes.map fun pass => (pass.run settings).run)

/-! ## What a call is made for -/

def ItemOf (db : Database) (itemId acquirer : String) : Prop :=
  ∃ item ∈ db.items, item.id = itemId ∧ item.acquirer = acquirer

def AttemptOf (db : Database) (attemptId acquirer : String) : Prop :=
  ∃ attempt ∈ db.attempts, attempt.id = attemptId ∧ attempt.acquirer = acquirer

/-- A call after this session was begun is made for an item or attempt of the acquirer. -/
def MadeFor (db : Database) (current : Option SessionName) (acquirer : String) : Prop :=
  match current with
  | some (.sweepItem itemId) => ItemOf db itemId acquirer
  | some (.retryItem itemId) => ItemOf db itemId acquirer
  | some (.attemptRead attemptId) => AttemptOf db attemptId acquirer
  | _ => False

/-- A use of a counter of the process asks nobody. -/
def Request.counts : Request → Bool
  | .increment .. | .countDuplicate .. => true
  | _ => false

/-- Every call but those to the counters is made for an item or attempt, and goes to the client
and counts on the circuit of its own acquirer. -/
def AsksOwnAcquirers (defaultAcquirer : String) (db : Database)
    (config : Config system (Except Exception Unit)) : Prop :=
  ∀ worker, AllAsked (Y := system) (fun current request => request.counts = false →
    ∃ acquirer, MadeFor db current acquirer ∧
      BreakerProcessorClient.route defaultAcquirer request =
        BreakerProcessorClient.ownRoute acquirer request) (config.shared.eventsOf worker)

/-- Whoever is captured from is of the default acquirer, and the acquirers that are asked for
a confirmation or a status have a name. -/
def CapturesFromDefault (defaultAcquirer : String) (db : Database)
    (config : Config system (Except Exception Unit)) : Prop :=
  ∀ worker, AllAsked (Y := system) (fun current request =>
    ∀ acquirer, MadeFor db current acquirer →
      match request with
      | .captureDeferred .. => acquirer = defaultAcquirer
      | .increment .. | .countDuplicate .. => True
      | _ => acquirer ≠ "" ∨ defaultAcquirer = "") (config.shared.eventsOf worker)

theorem MadeFor.unique {db : Database} (unique : Schema.Unique (S := schema) db)
    {current : Option SessionName} {first second : String} (hfirst : MadeFor db current first)
    (hsecond : MadeFor db current second) : first = second := by
  have hitem {itemId : String} (hfirst : ItemOf db itemId first)
      (hsecond : ItemOf db itemId second) : first = second := by
    obtain ⟨item, hmem, hid, rfl⟩ := hfirst
    obtain ⟨item', hmem', hid', rfl⟩ := hsecond
    have hsame := unique.eq_of_key Table.reconciliationItem (.item itemId) hmem hmem'
      (by simp [Table.keys, hid]) (by simp [Table.keys, hid'])
    rw [hsame]
  have hattempt {attemptId : String} (hfirst : AttemptOf db attemptId first)
      (hsecond : AttemptOf db attemptId second) : first = second := by
    obtain ⟨attempt, hmem, hid, rfl⟩ := hfirst
    obtain ⟨attempt', hmem', hid', rfl⟩ := hsecond
    have hsame := unique.eq_of_key Table.captureAttempt (.attempt attemptId) hmem hmem'
      (by simp [Table.keys, hid]) (by simp [Table.keys, hid'])
    rw [hsame]
  unfold MadeFor at hfirst hsecond
  split at hfirst
  · exact hitem hfirst hsecond
  · exact hitem hfirst hsecond
  · exact hattempt hfirst hsecond
  · exact hfirst.elim

/-! ## Acquirers do not change -/

/-- The items and attempts are those that the database started from, by their acquirers. -/
structure SameAcquirers (db db' : Database) : Prop where
  items : ∀ item ∈ db'.items, ItemOf db item.id item.acquirer
  attempts : ∀ attempt ∈ db'.attempts, AttemptOf db attempt.id attempt.acquirer

/-- A write of no new item or attempt, nor of the acquirer of an attempt. -/
def KeepsAcquirers : Write schema → Prop
  | .insert .reconciliationItem _ | .insert .captureAttempt _ => False
  | .update .captureAttempt _ change _ => ∀ attempt, (change attempt).acquirer = attempt.acquirer
  | _ => True

theorem SameAcquirers.refl (db : Database) : SameAcquirers db db where
  items item hitem := ⟨item, hitem, rfl, rfl⟩
  attempts attempt hattempt := ⟨attempt, hattempt, rfl, rfl⟩

theorem SameAcquirers.apply {db db' : Database} {write : Write schema}
    (same : SameAcquirers db db') (hwrite : KeepsAcquirers write) :
    SameAcquirers db (write.apply db') := by
  cases write with
  | insert table row =>
      cases table
      case reconciliationItem => exact hwrite.elim
      case captureAttempt => exact hwrite.elim
      all_goals exact ⟨same.items, same.attempts⟩
  | update table key change immutable =>
      cases table
      case reconciliationItem =>
        refine ⟨fun item hitem => ?_, same.attempts⟩
        obtain ⟨old, hold, rfl⟩ := List.mem_map.mp hitem
        split
        · have hline : (change old).line = old.line := immutable old
          simp only [ReconciliationItem.line, ReconciliationItem.mk.injEq] at hline
          have hid : (change old).id = old.id := by simp [hline]
          have hacquirer : (change old).acquirer = old.acquirer := by simp [hline]
          rw [hid, hacquirer]
          exact same.items old hold
        · exact same.items old hold
      case captureAttempt =>
        refine ⟨same.items, fun attempt hattempt => ?_⟩
        obtain ⟨old, hold, rfl⟩ := List.mem_map.mp hattempt
        split
        · have hid : (change old).id = old.id := congrArg Prod.fst (immutable old)
          rw [hid, hwrite old]
          exact same.attempts old hold
        · exact same.attempts old hold
      all_goals exact ⟨same.items, same.attempts⟩

theorem Books.keepsAcquirers {types : List String} {write : Write schema}
    (books : Books types write) : KeepsAcquirers write := by
  cases write with
  | insert table row => cases table <;> first | exact books.elim | trivial
  | update table key change immutable => cases table <;> first | exact books.elim | trivial

theorem SweepRoutine.keepsAcquirers {write : Write schema} (routine : SweepRoutine write) :
    KeepsAcquirers write := by
  cases write with
  | insert table row => cases table <;> first | exact routine.elim | trivial
  | update table key change immutable =>
      cases table <;> first | exact routine.elim | trivial

theorem RetryScheduler.inward_claimItem {allowed : Write schema → Prop} (settings : Settings)
    (itemId : String) : Inward (Y := system) allowed (claimItem settings itemId) := by
  refine .bind (.execute trivial) fun batchId => ?_
  cases batchId with
  | none => trivial
  | some batchId =>
      refine .bind (.execute trivial) fun locked => ?_
      split
      · exact .execute trivial
      · trivial

section Keeps

variable (settings : Settings) (db : Database)

theorem SettlementTask.keepsAcquirers_run (pass : SettlementTask) :
    Attests (Y := system) KeepsAcquirers (SameAcquirers db) (pass.run settings)
      fun _ => True := by
  have composes : Composes SweepRoutine fun program =>
      Attests (Y := system) (ε := Exception) KeepsAcquirers (SameAcquirers db) program
        fun _ => True :=
    Attests.composes fun _ => SweepRoutine.keepsAcquirers
  have hpost (item : ReconciliationItem) (caller : Caller) :
      Confined KeepsAcquirers (SettlementPoster.postSettlement settings item caller) :=
    (SettlementPoster.confined_postSettlement settings item caller).mono
      fun _ => Books.keepsAcquirers
  have hflush {loaded changed : ReconciliationItem} (h : changed.terms = loaded.terms) :
      Confined KeepsAcquirers (loaded.flush changed) :=
    (inward_itemFlush (fun _ => SweepRoutine.keepsAcquirers) h).confined
  have hcount (names : List String) :
      Confined KeepsAcquirers (RetryScheduler.countRetried names) :=
    RetryScheduler.confined_countRetried names
  refine composes_run composes (fun names => .of_confined (hcount names))
    (fun itemId => .withSession (.of_confined ?_))
    (fun itemId => .withSession (.of_confined ?_)) pass
  · refine .bind (Async.inward_getOrRaise _ _ _).confined fun item => ?_
    split
    · refine .bind (hpost item _) fun result => .bind (.execute trivial) fun stamp => ?_
      exact hflush rfl
    · trivial
  · refine .bind (RetryScheduler.inward_claimItem settings itemId).confined fun claimed => ?_
    cases claimed with
    | none => trivial
    | some item =>
        dsimp only
        split
        · trivial
        · refine .bind (.execute trivial) fun stamp => .bind (hflush rfl) fun _ => ?_
          refine .bind (hpost _ _) fun result => .bind (hflush rfl) fun _ => ?_
          exact .bind (hcount _) fun _ => trivial

/-- A property of the outcomes, the reads and the calls of a pass is one of the pass. -/
theorem DeferredCaptureService.composes_processPending
    {holds : {α : Type} → Async α → Prop} (composes : Composes (Y := system) KeepsAcquirers holds)
    (hissue : ∀ attemptId, holds (issue attemptId))
    (hresolve : ∀ attemptId, holds (resolveIndeterminate attemptId)) (limit : Nat) :
    holds (processPending limit) := by
  have hall (attempts : List (String × AttemptStatus)) (processed : Nat) :
      holds (processAll attempts processed) := by
    induction attempts generalizing processed with
    | nil => exact composes.inward trivial
    | cons attempt attempts ih =>
        refine composes.bind ?_ fun _ => ih _
        unfold process
        split
        · exact hresolve _
        · exact hissue _
  exact composes.bind (composes.session (composes.inward (.execute trivial)))
    fun attempts => hall attempts 0

theorem DeferredCaptureService.composes_applyOutcome
    {holds : {α : Type} → Async α → Prop} (composes : Composes (Y := system) KeepsAcquirers holds)
    (attemptId : String) (outcome : AttemptOutcome) : holds (applyOutcome attemptId outcome) :=
  composes.session (composes.inward (.bind (Async.inward_getOrRaise _ _ _) fun _ =>
    .bind (.execute trivial) fun _ => Async.inward_update fun _ => rfl))

/-- No pass writes an acquirer. -/
theorem AcquirerTask.keepsAcquirers_run (pass : AcquirerTask) :
    Attests (Y := system) KeepsAcquirers (SameAcquirers db) (pass.run settings)
      fun _ => True := by
  have composes : Composes KeepsAcquirers fun program =>
      Attests (Y := system) (ε := Exception) KeepsAcquirers (SameAcquirers db) program
        fun _ => True :=
    Attests.composes fun _ h => h
  have hread (attemptId : String) : Attests (Y := system) KeepsAcquirers (SameAcquirers db)
      (Async.withSession (.attemptRead attemptId)
        (CaptureAttemptRepository.getOrRaise attemptId)) fun _ => True :=
    composes.session (composes.inward (Async.inward_getOrRaise _ _ _))
  have hcall (request : Request) : Attests (Y := system) KeepsAcquirers (SameAcquirers db)
      (Async.call request) fun _ => True :=
    .of_confined (Confined.call (Y := system) request)
  have houtcome (attemptId : String) (outcome : DeferredCaptureService.AttemptOutcome) :=
    DeferredCaptureService.composes_applyOutcome composes attemptId outcome
  cases pass with
  | settlement pass => exact pass.keepsAcquirers_run settings db
  | captures limit =>
      refine composes.bind (DeferredCaptureService.composes_processPending composes
        (fun attemptId => ?_) (fun attemptId => ?_) limit) fun _ => composes.inward trivial
      · refine composes.bind (hread attemptId) fun attempt => composes.bind (hcall _) fun reply =>
          ?_
        exact composes.bind (composes.inward (Async.inward_check _)) fun outcome => houtcome _ _
      · refine composes.bind (hread attemptId) fun attempt => composes.bind (hcall _) fun reply =>
          ?_
        cases reply with
        | error raised => exact composes.inward trivial
        | ok answer =>
            dsimp only
            split
            · exact houtcome _ _
            · exact houtcome _ _
            · exact composes.inward trivial

end Keeps

/-! ## What a pass asks -/

/-- The call is made for an item or attempt, and where it names an acquirer it is its own. -/
def NamesOwn (db : Database) (current : Option SessionName) : Request → Prop
  | .confirmSettlement acquirer _ _ => MadeFor db current acquirer
  | .captureStatus acquirer _ => MadeFor db current acquirer
  | .captureDeferred .. => ∃ acquirer, MadeFor db current acquirer
  | .increment .. | .countDuplicate .. => True
  | _ => False

section Asks

variable (settings : Settings) {db : Database} {current : Option SessionName}

theorem Async.asks_getOrRaise {holds : Database → Prop}
    {asked : Option SessionName → Request → Prop} {table : Table} {key : Key}
    {missing : Exception} {post : Option SessionName → table.Row → Prop}
    (h : ∀ view row, holds view → row ∈ Schema.holders (S := schema) table key view →
      post current row) :
    AsksFrom (Y := system) holds asked (Async.getOrRaise table key missing) current post := by
  have hget : AsksFrom (Y := system) holds asked (Async.get table key) current
      fun current' found => current' = current ∧ ∀ row, found = some row → post current row :=
    .select fun view hview => ⟨rfl, fun row hrow => h view row hview (List.mem_of_head? hrow)⟩
  refine .bind (hget.mono fun current' found hfound => ?_)
  obtain ⟨rfl, hpost⟩ := hfound
  cases found with
  | none => exact .throw
  | some row => exact .pure (hpost row rfl)

/-- The posting of an item asks its acquirer. -/
theorem SettlementPoster.asks_postSettlement {item : ReconciliationItem}
    (hmade : MadeFor db current item.acquirer) (caller : Caller) :
    AsksFrom (Y := system) (SameAcquirers db) (NamesOwn db)
      (postSettlement settings item caller) current fun _ _ => True := by
  have hnext {α β : Type} {body : Async α} {next : α → Async β}
      {post : Option SessionName → β → Prop}
      (inward : Inward (Books ("settlement.variance_detected" :: eventTypes)) body)
      (h : ∀ value, AsksFrom (Y := system) (SameAcquirers db) (NamesOwn db) (next value)
        current post) :
      AsksFrom (Y := system) (SameAcquirers db) (NamesOwn db) (body >>= next) current post :=
    .inward_bind inward h
  have hconfirm : AsksFrom (Y := system) (SameAcquirers db) (NamesOwn db) (confirm item) current
      fun current' _ => current' = current :=
    .bind (.call hmade fun reply =>
      .of_inward (inward_answered item reply : Inward (Books eventTypes) _) fun _ => rfl)
  have hcapture (charge : SettlementCharge) (chargeId : String) :
      AsksFrom (Y := system) (SameAcquirers db) (NamesOwn db) (capture item charge chargeId)
        current fun current' _ => current' = current := by
    refine hnext (Async.inward_check _) fun idempotencyKey => ?_
    exact .bind (.call ⟨item.acquirer, hmade⟩ fun reply =>
      hnext (inward_answered item reply) fun _ => .pure rfl)
  refine hnext (.mark _) fun _ => .bind (hconfirm.mono fun current' _ hsame => ?_)
  subst hsame
  cases item.chargeId with
  | none => exact .throw
  | some chargeId =>
      refine hnext (Async.inward_check _) fun key => ?_
      refine hnext (Async.inward_getOrRaise _ _ _) fun charge => ?_
      refine hnext (inward_merchant _) fun merchant => ?_
      split
      · exact hnext (inward_publishItemEvent (by simp) _ _ _) fun _ => .throw
      · refine hnext (Async.inward_check _) fun lines => ?_
        refine hnext (LedgerPoster.inward_post (by simp [eventTypes]) _) fun posted => ?_
        unfold afterClaim
        split
        · have hpublish : AsksFrom (Y := system) (SameAcquirers db) (NamesOwn db) (do
              publishSettled item posted.transaction.id
              pure ({ transactionId := posted.transaction.id, created := true } :
                SettlementResult) : Async SettlementResult) current' fun _ _ => True :=
            hnext (inward_publishItemEvent (by simp [eventTypes]) _ _ _) fun _ => .pure trivial
          split
          · refine .bind ((hcapture charge chargeId).mono fun current'' _ hsame => ?_)
            exact hsame ▸ hpublish
          · exact hpublish
        · have hduplicate : AsksFrom (Y := system) (SameAcquirers db) (NamesOwn db)
              (publishDuplicate settings item key posted.transaction caller) current'
              fun _ _ => True := by
            refine hnext (inward_publishItemEvent (by simp [eventTypes]) _ _ _) fun _ => ?_
            split
            · exact .bind (.call trivial fun counted => .of_inward
                (Async.inward_check counted : Inward (Books eventTypes) _) fun _ => trivial)
            · exact .pure trivial
          exact .bind (hduplicate.mono fun _ _ _ => .pure trivial)

theorem RetryScheduler.asks_countRetried (names : List String) :
    AsksFrom (Y := system) (SameAcquirers db) (NamesOwn db) (countRetried names) current
      fun _ _ => True :=
  .bind (.call trivial fun counted => .of_inward
    (Async.inward_check counted : Inward (fun _ : Write schema => True) _) fun _ => trivial)

theorem SameAcquirers.itemOf {db' : Database} (same : SameAcquirers db db') {itemId : String}
    {item : ReconciliationItem}
    (hitem : item ∈ Schema.holders (S := schema) Table.reconciliationItem (.item itemId) db') :
    ItemOf db itemId item.acquirer := by
  obtain ⟨hmem, hkey⟩ := Schema.mem_holders.mp hitem
  have hid : item.id = itemId := by simpa [Table.keys, eq_comm] using hkey
  exact hid ▸ same.items item hmem

theorem SameAcquirers.attemptOf {db' : Database} (same : SameAcquirers db db')
    {attemptId : String} {attempt : CaptureAttempt}
    (hattempt : attempt ∈
      Schema.holders (S := schema) Table.captureAttempt (.attempt attemptId) db') :
    AttemptOf db attemptId attempt.acquirer := by
  obtain ⟨hmem, hkey⟩ := Schema.mem_holders.mp hattempt
  have hid : attempt.id = attemptId := by simpa [Table.keys, eq_comm] using hkey
  exact hid ▸ same.attempts attempt hmem

theorem RetryScheduler.asks_claimItem (itemId : String) :
    AsksFrom (Y := system) (SameAcquirers db) (NamesOwn db) (claimItem settings itemId) current
      fun current' claimed => current' = current ∧ ∀ item, claimed = some item →
        ItemOf db itemId item.acquirer := by
  have hnone : ∀ item : ReconciliationItem, none = some item → ItemOf db itemId item.acquirer :=
    fun item hitem => nomatch hitem
  refine .bind (.execute fun batchId _ => ?_)
  cases batchId with
  | none => exact .pure ⟨rfl, hnone⟩
  | some batchId =>
      refine .bind (.execute fun locked _ => ?_)
      split
      · refine .selectForUpdate ⟨rfl, hnone⟩ fun view row same hrow => ⟨rfl, fun item hitem => ?_⟩
        cases hitem
        exact same.itemOf hrow
      · exact .pure ⟨rfl, hnone⟩

theorem SettlementTask.asks_run (pass : SettlementTask) :
    Raising.Asks (Y := system) (SameAcquirers db) (NamesOwn db) (pass.run settings) := by
  have composes : Composes SweepRoutine fun program =>
      Raising.Asks (Y := system) (ε := Exception) (SameAcquirers db) (NamesOwn db) program :=
    Asks.composes _
  have hflush {loaded changed : ReconciliationItem} (h : changed.terms = loaded.terms) :
      Inward SweepRoutine (loaded.flush changed) :=
    inward_itemFlush (fun _ h => h) h
  refine composes_run composes (fun names _ => RetryScheduler.asks_countRetried names)
    (fun itemId current => .withSession ?_) (fun itemId current => .withSession ?_) pass
  · refine .bind (Async.asks_getOrRaise fun view item same hitem => ?_)
    have hmade : MadeFor db (some (.sweepItem itemId)) item.acquirer := same.itemOf hitem
    split
    · refine .bind ((SettlementPoster.asks_postSettlement settings hmade _).mono ?_)
      intro current' result _
      exact .of_inward (.bind (.execute trivial) fun _ => hflush rfl) fun _ => trivial
    · exact .pure trivial
  · refine .bind ((RetryScheduler.asks_claimItem settings itemId).mono ?_)
    rintro current' claimed ⟨rfl, hclaimed⟩
    cases claimed with
    | none => exact .pure trivial
    | some item =>
        have hmade : MadeFor db (some (.retryItem itemId)) item.acquirer := hclaimed item rfl
        dsimp only
        split
        · exact .throw
        · refine .bind (.execute fun stamp _ => ?_)
          refine .inward_bind (hflush rfl) fun _ => .bind (AsksFrom.mono
            (SettlementPoster.asks_postSettlement settings ?_ _) fun current' result _ => ?_)
          · exact hmade
          · refine .inward_bind (hflush rfl) fun _ => ?_
            exact .bind ((RetryScheduler.asks_countRetried _).mono fun _ _ _ => .pure trivial)

/-- Whatever a pass calls names its own acquirer, if any. -/
theorem AcquirerTask.asks_run (pass : AcquirerTask) :
    Raising.Asks (Y := system) (SameAcquirers db) (NamesOwn db) (pass.run settings) := by
  have composes : Composes KeepsAcquirers fun program =>
      Raising.Asks (Y := system) (ε := Exception) (SameAcquirers db) (NamesOwn db) program :=
    Asks.composes _
  have houtcome (attemptId : String) (outcome : DeferredCaptureService.AttemptOutcome) :=
    DeferredCaptureService.composes_applyOutcome composes attemptId outcome
  have hread (attemptId : String) (current : Option SessionName) :
      AsksFrom (Y := system) (SameAcquirers db) (NamesOwn db)
        (Async.withSession (.attemptRead attemptId)
          (CaptureAttemptRepository.getOrRaise attemptId)) current
        fun current' attempt => MadeFor db current' attempt.acquirer :=
    .withSession (Async.asks_getOrRaise fun view attempt same hattempt =>
      same.attemptOf hattempt)
  cases pass with
  | settlement pass => exact pass.asks_run settings
  | captures limit =>
      refine composes.bind (DeferredCaptureService.composes_processPending composes
        (fun attemptId current => ?_) (fun attemptId current => ?_) limit)
        fun _ => composes.inward trivial
      · refine .bind ((hread attemptId current).mono fun current' attempt hmade => ?_)
        refine .bind (.call ⟨attempt.acquirer, hmade⟩ fun reply => ?_)
        exact composes.bind (composes.inward (Async.inward_check _))
          (fun outcome => houtcome _ _) current'
      · refine .bind ((hread attemptId current).mono fun current' attempt hmade => ?_)
        refine .bind (.call hmade fun reply => ?_)
        cases reply with
        | error raised => exact .throw
        | ok answer =>
            dsimp only
            split
            · exact houtcome _ _ current'
            · exact houtcome _ _ current'
            · exact .pure trivial

end Asks

section Runs

variable {settings : Settings} {passes : List AcquirerTask} {db : Database} {world : World}
  {config : Config system (Except Exception Unit)} {permits : Condition system}

theorem namesOwn_run (hrun : Config.Run permits (acquirerTasksOn settings passes db world) config)
    (worker : Nat) : AllAsked (Y := system) (NamesOwn db) (config.shared.eventsOf worker) := by
  refine (Config.Run.asks (Y := system) (fun write db' hwrite same =>
    SameAcquirers.apply same hwrite)
    (fun program hprogram => ?_) (fun program hprogram => ?_) (SameAcquirers.refl db)
    hrun).asked worker
  · obtain ⟨pass, -, rfl⟩ := List.mem_map.mp hprogram
    exact ⟨_, pass.keepsAcquirers_run settings db⟩
  · obtain ⟨pass, -, rfl⟩ := List.mem_map.mp hprogram
    exact ⟨_, pass.asks_run settings none⟩

/-- The acquirers are asked about their own charges just when all that is captured belongs
to the default one. -/
theorem asksOwnAcquirers_iff (defaultAcquirer : String)
    (hunique : Schema.Unique (S := schema) db)
    (hrun : Config.Run permits (acquirerTasksOn settings passes db world) config) :
    AsksOwnAcquirers defaultAcquirer db config ↔ CapturesFromDefault defaultAcquirer db config := by
  unfold AsksOwnAcquirers CapturesFromDefault
  refine forall_congr' fun worker => AllAsked.congr (namesOwn_run hrun worker) ?_
  intro current request hnames
  constructor
  · intro hown acquirer' hmade'
    by_cases hcounts : request.counts = true
    · cases request with
      | increment | countDuplicate => trivial
      | _ => cases hcounts
    obtain ⟨acquirer, hmade, hroute⟩ := hown (Bool.not_eq_true _ ▸ hcounts)
    cases hmade.unique hunique hmade'
    cases request with
    | confirmSettlement named _ _ =>
        cases MadeFor.unique hunique hnames hmade
        exact BreakerProcessorClient.route_confirmSettlement.mp hroute
    | captureDeferred => exact BreakerProcessorClient.route_captureDeferred.mp hroute
    | captureStatus named _ =>
        cases MadeFor.unique hunique hnames hmade
        exact BreakerProcessorClient.route_captureStatus.mp hroute
    | fxRates => exact hnames.elim
    | fetchSettlementFile => exact hnames.elim
    | increment => trivial
    | countDuplicate => trivial
  · intro hdefault hcounts
    cases request with
    | confirmSettlement named _ _ =>
        exact ⟨named, hnames,
          BreakerProcessorClient.route_confirmSettlement.mpr (hdefault named hnames)⟩
    | captureDeferred =>
        obtain ⟨acquirer, hmade⟩ := hnames
        exact ⟨acquirer, hmade,
          BreakerProcessorClient.route_captureDeferred.mpr (hdefault acquirer hmade)⟩
    | captureStatus named _ =>
        exact ⟨named, hnames,
          BreakerProcessorClient.route_captureStatus.mpr (hdefault named hnames)⟩
    | fxRates => exact hnames.elim
    | fetchSettlementFile => exact hnames.elim
    | increment => cases hcounts
    | countDuplicate => cases hcounts

end Runs

namespace RoutingSample

/-- A line of one acquirer, whose charge is captured when it settles. -/
def line : ReconciliationItem :=
  { sampleItem "ri_1" "sb_1" with acquirer := "nordpay" }

def start : Config system (Except Exception Unit) :=
  acquirerTasksOn sampleSettings [.settlement (.sweep "sb_1" "manual" 10)]
    (sampleSettlement [line] true) { clock := 10 }

/-- The posting of the line. -/
def posting : List Choice :=
  [.id "2", .instant 3, .plain, .plain, .plain, .id "3", .plain, .id "4", .instant 3, .plain,
   .id "5", .plain, .id "6", .instant 3, .plain, .plain, .id "7", .plain,
   .capture (.captured "r"), .plain, .id "8"]

/-- The sweep settles the line. -/
def settling : List Choice :=
  ([.plain, .id "1"] : List Choice) ++ (List.replicate 16 .plain : List Choice) ++ posting ++
    (List.replicate 17 .plain : List Choice) ++ ([.id "9", .plain, .plain] : List Choice)

theorem acquirer_of_madeFor {current : Option SessionName} {acquirer : String}
    (hmade : MadeFor (sampleSettlement [line] true) current acquirer) : acquirer = "nordpay" := by
  unfold MadeFor at hmade
  split at hmade
  · obtain ⟨item, hitem, -, rfl⟩ := hmade
    cases List.mem_singleton.mp hitem
    rfl
  · obtain ⟨item, hitem, -, rfl⟩ := hmade
    cases List.mem_singleton.mp hitem
    rfl
  · obtain ⟨attempt, hattempt, -⟩ := hmade
    cases hattempt
  · exact hmade.elim

end RoutingSample

open RoutingSample in
/-- Where the line belongs to the default acquirer, the sweep asks no other. -/
theorem asksOwnAcquirers_default : ∃ config, Config.Run anyMove start config ∧
    (callsFrom none (config.shared.eventsOf 0)).length = 2 ∧
    AsksOwnAcquirers "nordpay" (sampleSettlement [line] true) config := by
  have hschedule : (start.schedule anyMove (advances 0 settling)).map
      (fun config => (callsFrom none (config.shared.eventsOf 0)).length) = some 2 := by
    decide +kernel
  obtain ⟨config, hrun, hcalls⟩ := Option.map_eq_some_iff.mp hschedule
  have hreached := Config.run_of_schedule hrun
  refine ⟨config, hreached, hcalls, ?_⟩
  refine (asksOwnAcquirers_iff "nordpay" (unique_sampleSettlement (by simp)) hreached).mpr ?_
  intro worker before request reply after hevents acquirer hmade
  cases acquirer_of_madeFor hmade
  cases request with
  | captureDeferred => rfl
  | increment | countDuplicate => trivial
  | _ => exact .inl (by decide)

open RoutingSample in
/-- The confirmation goes to the acquirer of the line, and the capture to the default one. -/
theorem captured_elsewhere : ∃ config, Config.Run anyMove start config ∧
    ¬ AsksOwnAcquirers "worldflow" (sampleSettlement [line] true) config := by
  have hschedule : (start.schedule anyMove (advances 0 settling)).map
      (fun config => callsFrom none (config.shared.eventsOf 0)) =
      some [(some (.sweepItem "ri_1"), .confirmSettlement "nordpay" "ri_1" "sb_1"),
        (some (.sweepItem "ri_1"), .captureDeferred "ch_1" 500 "EUR" "ri_1" "capture:sb_1:ch_1"
          (some "ri_1"))] := by
    decide +kernel
  obtain ⟨config, hrun, hcalls⟩ := Option.map_eq_some_iff.mp hschedule
  refine ⟨config, Config.run_of_schedule hrun, fun hasks => ?_⟩
  have hcapture := allAsked_iff.mp (hasks 0) _
    (hcalls ▸ List.mem_cons_of_mem _ List.mem_cons_self)
  obtain ⟨acquirer, hmade, hroute⟩ := hcapture rfl
  cases acquirer_of_madeFor hmade
  exact absurd hroute (by decide)

end PayzenoLedger
