import PayzenoLedger.Ledger.Posts
import PayzenoLedger.Ledger.Written
import PayzenoLedger.Services.Funding

/-!
# Which batch a credit funds

The matching pass takes the batch whose expected total is closest to the credit and only then
asks whether it is within its tolerance.  The tolerance grows with the batch, so a credit may
be refused for the sake of a small batch although a large one would have taken it.
-/

set_option autoImplicit false

namespace PayzenoLedger

open Library

/-! ## The closest batch -/

theorem closestByAmount_eq_none {amountMinor : Int} {batches : List SettlementBatch} :
    closestByAmount amountMinor batches = none ↔ batches = [] := by
  cases batches with
  | nil => simp [closestByAmount]
  | cons batch batches =>
      unfold closestByAmount
      cases closestByAmount amountMinor batches with
      | none => simp
      | some best =>
          dsimp only
          split <;> simp

theorem closestByAmount_spec {amountMinor : Int} {batches : List SettlementBatch}
    {best : SettlementBatch} (h : closestByAmount amountMinor batches = some best) :
    best ∈ batches ∧ ∀ other ∈ batches,
      |best.expectedTotalMinor - amountMinor| ≤ |other.expectedTotalMinor - amountMinor| := by
  induction batches generalizing best with
  | nil => cases h
  | cons batch batches ih =>
      unfold closestByAmount at h
      cases hrest : closestByAmount amountMinor batches with
      | none =>
          rw [hrest] at h
          cases h
          rw [closestByAmount_eq_none.mp hrest]
          simp
      | some closest =>
          rw [hrest] at h
          obtain ⟨hmem, hleast⟩ := ih hrest
          dsimp only at h
          split at h
          · next hcloser =>
              cases h
              refine ⟨List.mem_cons_of_mem _ hmem, fun other hother => ?_⟩
              rcases List.mem_cons.mp hother with rfl | hother
              · exact hcloser.le
              · exact hleast other hother
          · next hfarther =>
              cases h
              refine ⟨List.mem_cons_self, fun other hother => ?_⟩
              rcases List.mem_cons.mp hother with rfl | hother
              · exact le_refl _
              · exact (not_lt.mp hfarther).trans (hleast other hother)

namespace FundingMatchService

section

variable (settings : Settings) (event : FundingEvent) (view : Database)

/-- The batches that the pass chooses from. -/
def candidates : List SettlementBatch :=
  SettlementBatchRepository.listUnfunded event.acquirer event.currency event.valueDate view

/-- The credit is within the tolerance of the batch. -/
def Within (batch : SettlementBatch) : Prop :=
  |event.amountMinor - batch.expectedTotalMinor| ≤
    toleranceMinor settings.fundingMatchToleranceBps batch

instance (batch : SettlementBatch) : Decidable (Within settings event batch) :=
  inferInstanceAs (Decidable (_ ≤ _))

/-- The credit carries what was decided about it. -/
def Carries (status : FundingStatus) (batch : SettlementBatch) (view' : Database) : Prop :=
  ∃ row ∈ view'.fundings, row.id = event.id ∧ row.status = status ∧
    row.matchedBatchId = some batch.id ∧
    row.varianceMinor = event.amountMinor - batch.expectedTotalMinor

/-- What the pass is to do with a credit, by the batches there are. -/
structure Settles (placed : Bool) (view' : Database) : Prop where
  matched : (∃ batch ∈ candidates event view, Within settings event batch) → placed = true ∧
    ∃ batch ∈ candidates event view, Within settings event batch ∧
      Carries event .matched batch view'
  unposted : (∀ batch ∈ candidates event view, ¬ Within settings event batch) →
    placed = false ∧ view'.transactions = view.transactions ∧ view'.entries = view.entries
  refused : (∀ batch ∈ candidates event view, ¬ Within settings event batch) →
    candidates event view ≠ [] → ∃ batch ∈ candidates event view,
      (∀ other ∈ candidates event view, |batch.expectedTotalMinor - event.amountMinor| ≤
        |other.expectedTotalMinor - event.amountMinor|) ∧
      Carries event (if event.amountMinor < batch.expectedTotalMinor then .shortPaid
        else .disputed) batch view'
  left : candidates event view = [] → view'.fundings = view.fundings

/-- The ledger takes the funding of the batch by the credit: the amount is positive, the key
can be built and has not been posted, and the two accounts are not shut. -/
structure Fundable (batch : SettlementBatch) : Prop where
  positive : 0 < event.amountMinor
  unposted : ∃ keys, fundingKeys batch event = .ok keys ∧
    Schema.holders (S := schema) Table.ledgerTransaction (.idempotency keys.1) view = []
  cash : ¬ AccountShut none .cash batch.currency batch.livemode view
  clearing : ¬ AccountShut none .processorClearing batch.currency batch.livemode view

/-- The pass gets over the credit: where it waits and the closest batch takes it, its funding can
be posted. -/
def Passable : Prop :=
  event.status = .unmatched →
    ∀ best, closestByAmount event.amountMinor (candidates event view) = some best →
      Within settings event best → Fundable event view best

/-- When a candidate is within its tolerance then the closest one is, and its funding can be
posted. -/
def ClosestTakes : Prop :=
  ∀ best, closestByAmount event.amountMinor (candidates event view) = some best →
    (∃ batch ∈ candidates event view, Within settings event batch) →
    Within settings event best ∧ Fundable event view best

end

variable {settings : Settings} {event : FundingEvent} {view : Database} {past : List Choice}

/-! ## The posting -/

theorem balanced_fundingRequest (batch : SettlementBatch) (idempotencyKey fingerprint : String) :
    Balanced (fundingRequest batch event idempotencyKey fingerprint).lines ↔
      0 < event.amountMinor :=
  balanced_transfer

theorem normalBalance_fundingRequest (batch : SettlementBatch)
    (idempotencyKey fingerprint : String) :
    ∀ line ∈ (fundingRequest batch event idempotencyKey fingerprint).lines,
      line.accountType.normalBalance ≠ none := by
  intro line hline
  simp only [fundingRequest, List.mem_cons, List.not_mem_nil, or_false] at hline
  rcases hline with rfl | rfl
  · exact Option.some_ne_none _
  · exact Option.some_ne_none _

/-- A funding that the ledger takes is posted. -/
theorem attains_postFunding {batch : SettlementBatch}
    (unique : Schema.Unique (S := schema) view)
    (headed : ∀ entry ∈ view.entries, ∃ transaction ∈ view.transactions,
      transaction.id = entry.transactionId)
    (fundable : Fundable event view batch) {ok : String → List Choice → Database → Prop}
    {error : Exception → List Choice → Database → Prop}
    (h : ∀ id past' view', Headed view' → ok id past' view') :
    attains (Y := system) freshIds (postFunding settings batch event) ok error past view := by
  obtain ⟨keys, hkeys, hunposted⟩ := fundable.unposted
  refine attains_bind (Async.attains_check hkeys ?_)
  refine attains_bind (LedgerPoster.attains_post_of orderly_freshIds (.inr hunposted) ?_
    fun posted past' view' headed' => attains_pure (h _ _ _ headed'))
  constructor
  · exact (balanced_fundingRequest batch _ _).mpr fundable.positive
  · exact normalBalance_fundingRequest batch _ _
  · intro line hline
    simp only [fundingRequest, List.mem_cons, List.not_mem_nil, or_false] at hline
    rcases hline with rfl | rfl
    · exact AccountOpen.of_not_shut unique fundable.cash
    · exact AccountOpen.of_not_shut unique fundable.clearing
  · exact headed

/-- A funding that the ledger does not take raises. -/
theorem attains_postFunding_raises {batch : SettlementBatch}
    (hfundable : ¬ Fundable event view batch) {ok : String → List Choice → Database → Prop}
    {error : Exception → List Choice → Database → Prop}
    (herror : ∀ raised past' view', error raised past' view') :
    attains (Y := system) freshIds (postFunding settings batch event) ok error past view := by
  unfold postFunding
  cases hkeys : fundingKeys batch event with
  | error raised => exact attains_bind (Async.attains_check_error rfl (herror _ _ _))
  | ok keys =>
      refine attains_bind (Async.attains_check rfl ?_)
      refine attains_bind ?_
      by_cases hpositive : 0 < event.amountMinor
      · by_cases hunposted : Schema.holders (S := schema) Table.ledgerTransaction
            (.idempotency keys.1) view = []
        · apply LedgerPoster.attains_post_shut orderly_freshIds hunposted
          · exact normalBalance_fundingRequest batch _ _
          · by_contra hopen
            refine hfundable ⟨hpositive, ⟨keys, hkeys, hunposted⟩, fun hshut => ?_, fun hshut => ?_⟩
            · exact hopen ⟨debit .cash event.amountMinor, by simp [fundingRequest], hshut⟩
            · exact hopen ⟨credit .processorClearing event.amountMinor, by simp [fundingRequest],
                hshut⟩
          · exact herror
        · exact LedgerPoster.attains_post_taken orderly_freshIds rfl hunposted herror
      · exact LedgerPoster.attains_post_unbalanced
          (fun balanced => hpositive ((balanced_fundingRequest batch _ _).mp balanced)) herror

/-! ## The pass over one credit -/

theorem sparing_books {types : List String} {write : Write schema} (books : Books types write) :
    Sparing (Y := system) Table.fundingEvent write ∧
      Sparing (Y := system) Table.settlementBatch write := by
  cases write with
  | insert table row => cases table <;> first | exact books.elim | exact ⟨nofun, nofun⟩
  | update table key change immutable =>
      cases table <;> first | exact books.elim | exact ⟨nofun, nofun⟩

/-- The posting writes neither credits nor batches. -/
theorem inward_postFunding (batch : SettlementBatch) :
    Raising.Inward (Books ["ledger.transaction_posted"]) (postFunding settings batch event) := by
  refine .bind (Async.inward_check _) fun keys => ?_
  exact .bind (LedgerPoster.inward_post List.mem_cons_self _) fun posted => trivial

theorem head_event (unique : Schema.Unique (S := schema) view) (hevent : event ∈ view.fundings)
    {view' : Database} (hrows : view'.fundings = view.fundings) :
    (Schema.holders (S := schema) Table.fundingEvent (.funding event.id) view').head? =
      some event := by
  have hsame : Schema.holders (S := schema) Table.fundingEvent (.funding event.id) view' =
      Schema.holders (S := schema) Table.fundingEvent (.funding event.id) view :=
    congrArg (List.filter _) hrows
  rw [hsame, unique.holders_eq (Schema.mem_holders.mpr ⟨hevent, List.mem_cons_self⟩)]
  rfl

/-- The credit is updated where it was, in a database with the credits of the first. -/
theorem attains_updateEvent (unique : Schema.Unique (S := schema) view)
    (hevent : event ∈ view.fundings) (hunmatched : event.status = .unmatched)
    {status : FundingStatus} (hstatus : status ≠ .unmatched) {batch : SettlementBatch}
    {view' : Database} (hrows : view'.fundings = view.fundings)
    {ok : Unit → List Choice → Database → Prop}
    {error : Exception → List Choice → Database → Prop}
    (h : ∀ past' view'', Carries event status batch view'' →
      view''.transactions = view'.transactions → view''.entries = view'.entries →
      view''.batches = view'.batches → ok () past' view'') :
    attains (Y := system) freshIds
      (updateEvent event status batch.id (event.amountMinor - batch.expectedTotalMinor)) ok error
      past view' := by
  refine Async.attains_update orderly_freshIds (head_event unique hevent hrows) rfl
    fun choice => h _ _ ?_ rfl rfl rfl
  have hkey : Key.funding event.id ∈ Table.fundingEvent.keys event := List.mem_cons_self
  refine ⟨placed event status batch.id (event.amountMinor - batch.expectedTotalMinor) event,
    ?_, rfl, ?_, ?_, ?_⟩
  · have hupdated := Write.rows_update (S := schema) Table.fundingEvent (.funding event.id)
      (placed event status batch.id (event.amountMinor - batch.expectedTotalMinor))
      (fun _ => rfl) view'
    have hheld : event ∈ schema.rows Table.fundingEvent view' := by
      change event ∈ view'.fundings
      rw [hrows]
      exact hevent
    refine (congrArg (_ ∈ ·) hupdated).mpr ?_
    exact List.mem_map.mpr ⟨event, hheld, if_pos hkey⟩
  · have hchanged : status ≠ event.status := hunmatched ▸ hstatus
    exact if_neg hchanged
  · unfold placed dirty
    dsimp only
    split
    · next hsame => exact hsame.symm
    · rfl
  · unfold placed dirty
    dsimp only
    split
    · next hsame => exact hsame.symm
    · rfl

/-- What follows the posting leaves the credits alone and goes through. -/
theorem attains_fundBatch {batch : SettlementBatch} {varianceMinor : Int}
    {transactionId : String} {ok : Bool → List Choice → Database → Prop}
    {error : Exception → List Choice → Database → Prop}
    (hbatch : (Schema.holders (S := schema) Table.settlementBatch (.batch batch.id)
      view).head? = some batch)
    (h : ∀ past' view', view'.fundings = view.fundings → view'.entries = view.entries →
      view'.transactions = view.transactions → ok true past' view') :
    attains (Y := system) freshIds (do
        let stamp ← Async.now
        updateBatch batch event.amountMinor event.id stamp
        publishFunded batch event varianceMinor transactionId stamp
        pure true) ok error past view := by
  refine attains_bind (Async.attains_now orderly_freshIds fun choice world _ => ?_)
  refine attains_bind (Async.attains_update orderly_freshIds hbatch rfl fun choice' => ?_)
  have hpublish : attains (Y := system) freshIds
      (publishFunded batch event varianceMinor transactionId world.clock)
      (fun _ _ view' => view'.entries = view.entries ∧ view'.transactions = view.transactions)
      error (past ++ [choice] ++ [choice'])
      ((Write.update (S := schema) Table.settlementBatch (.batch batch.id)
        (funded batch event.amountMinor event.id world.clock) (fun _ => rfl)).apply view) :=
    OutboxPublisher.attains_publish orderly_freshIds fun _ _ hentries hheaders =>
      ⟨hentries, hheaders⟩
  have hstages : Raising.Inward (Books ["settlement.funded"])
      (publishFunded batch event varianceMinor transactionId world.clock) :=
    OutboxPublisher.inward_publish List.mem_cons_self _ _ _ _
  have hspares := hstages.confined.mono fun _ books => (sparing_books books).1
  refine attains_bind (attains_mono (hpublish.spared hspares) ?_ fun _ _ _ => id)
  rintro - past' view' ⟨⟨hentries, hheaders⟩, hrows⟩
  exact attains_pure (h _ _ hrows hentries hheaders)

/-- The pass once it has read the credit and the candidates. -/
def place (settings : Settings) (event : FundingEvent) (batches : List SettlementBatch) :
    Async Bool :=
  match closestByAmount event.amountMinor batches with
  | none => pure false
  | some batch =>
      let varianceMinor := event.amountMinor - batch.expectedTotalMinor
      if toleranceMinor settings.fundingMatchToleranceBps batch < |varianceMinor| then do
        updateEvent event (if varianceMinor < 0 then .shortPaid else .disputed) batch.id
          varianceMinor
        pure false
      else do
        let transactionId ← postFunding settings batch event
        updateEvent event .matched batch.id varianceMinor
        let stamp ← Async.now
        updateBatch batch event.amountMinor event.id stamp
        publishFunded batch event varianceMinor transactionId stamp
        pure true

/-- The pass reads the credit and the candidates, and then places the credit. -/
theorem attains_matchOne (unique : Schema.Unique (S := schema) view)
    (hevent : event ∈ view.fundings) (hunmatched : event.status = .unmatched)
    {ok : Bool → List Choice → Database → Prop}
    {error : Exception → List Choice → Database → Prop}
    (h : ∀ past', attains (Y := system) freshIds
      (place settings event (candidates event view)) ok error past' view) :
    attains (Y := system) freshIds (matchOne settings event.id) ok error past view := by
  have hkey : Key.funding event.id ∈ Table.fundingEvent.keys event := List.mem_cons_self
  refine attains_bind (Async.attains_getOrRaise orderly_freshIds ⟨event, hevent, hkey⟩
    fun choice row hrow hheld => ?_)
  have hsame : row = event :=
    unique.eq_of_key Table.fundingEvent (.funding event.id) hrow hevent hheld hkey
  subst hsame
  rw [if_neg (not_not.mpr hunmatched)]
  refine attains_bind (attains_select orderly_freshIds.live fun choice' => ?_)
  exact h _

section Placing

variable {batch : SettlementBatch}

theorem mem_candidates_rows (hbatch : batch ∈ candidates event view) : batch ∈ view.batches :=
  Schema.mem_of_page hbatch

/-- The closest batch takes the credit, and the ledger the posting. -/
theorem attains_place_matched (unique : Schema.Unique (S := schema) view)
    (headed : ∀ entry ∈ view.entries, ∃ transaction ∈ view.transactions,
      transaction.id = entry.transactionId)
    (hevent : event ∈ view.fundings) (hunmatched : event.status = .unmatched)
    (hclosest : closestByAmount event.amountMinor (candidates event view) = some batch)
    (hwithin : Within settings event batch) (fundable : Fundable event view batch)
    {ok : Bool → List Choice → Database → Prop}
    {error : Exception → List Choice → Database → Prop}
    (h : ∀ past' view', Carries event .matched batch view' → Headed view' →
      ok true past' view') :
    attains (Y := system) freshIds (place settings event (candidates event view)) ok error
      past view := by
  unfold place
  rw [hclosest]
  dsimp only
  rw [if_neg (not_lt.mpr hwithin)]
  have hspares : Raising.Confined (Books ["ledger.transaction_posted"])
      (postFunding settings batch event) := (inward_postFunding batch).confined
  have hposted : attains (Y := system) freshIds (postFunding settings batch event)
      (fun _ _ view' => Headed view') error past view :=
    attains_postFunding unique headed fundable fun _ _ _ headed' => headed'
  have hspared := (hposted.spared (hspares.mono fun _ books => (sparing_books books).1)).spared
    (hspares.mono fun _ books => (sparing_books books).2)
  refine attains_bind (attains_mono hspared ?_ fun _ _ _ => id)
  rintro transactionId past₁ view₁ ⟨⟨headed₁, hfundings⟩, hbatches⟩
  refine attains_bind (attains_updateEvent unique hevent hunmatched (by decide) hfundings
    fun past₂ view₂ carries hheaders₂ hentries₂ hsame => ?_)
  refine attains_fundBatch ?_ fun past₃ view₃ hrows hentries₃ hheaders₃ =>
    h _ _ ?_ ((headed₁.of_eq hentries₂ hheaders₂).of_eq hentries₃ hheaders₃)
  · have hheld : Schema.holders (S := schema) Table.settlementBatch (.batch batch.id) view₂ =
        Schema.holders (S := schema) Table.settlementBatch (.batch batch.id) view :=
      congrArg (List.filter _) (hsame.trans hbatches)
    have hrow := mem_candidates_rows (closestByAmount_spec hclosest).1
    rw [hheld, unique.holders_eq (Schema.mem_holders.mpr ⟨hrow, List.mem_cons_self⟩)]
    rfl
  · unfold Carries
    rw [hrows]
    exact carries

/-- The closest batch does not take the credit. -/
theorem attains_place_refused (unique : Schema.Unique (S := schema) view)
    (hevent : event ∈ view.fundings) (hunmatched : event.status = .unmatched)
    (hclosest : closestByAmount event.amountMinor (candidates event view) = some batch)
    (hwithin : ¬ Within settings event batch) {ok : Bool → List Choice → Database → Prop}
    {error : Exception → List Choice → Database → Prop}
    (h : ∀ past' view', Carries event
        (if event.amountMinor < batch.expectedTotalMinor then .shortPaid else .disputed) batch
        view' →
      view'.transactions = view.transactions → view'.entries = view.entries →
      ok false past' view') :
    attains (Y := system) freshIds (place settings event (candidates event view)) ok error
      past view := by
  unfold place
  rw [hclosest]
  dsimp only
  rw [if_pos (not_le.mp hwithin)]
  have hsign : event.amountMinor - batch.expectedTotalMinor < 0 ↔
      event.amountMinor < batch.expectedTotalMinor := sub_neg
  simp only [hsign]
  refine attains_bind (attains_updateEvent unique hevent hunmatched ?_ rfl
    fun past' view' carries htransactions hentries _ => ?_)
  · split
    · decide
    · decide
  · exact attains_pure (h _ _ carries htransactions hentries)

/-- The closest batch takes the credit but the ledger does not take the posting. -/
theorem attains_place_raises
    (hclosest : closestByAmount event.amountMinor (candidates event view) = some batch)
    (hwithin : Within settings event batch) (hfundable : ¬ Fundable event view batch)
    {ok : Bool → List Choice → Database → Prop}
    {error : Exception → List Choice → Database → Prop}
    (herror : ∀ raised past' view', error raised past' view') :
    attains (Y := system) freshIds (place settings event (candidates event view)) ok error
      past view := by
  unfold place
  rw [hclosest]
  dsimp only
  rw [if_neg (not_lt.mpr hwithin)]
  exact attains_bind (attains_postFunding_raises hfundable herror)

end Placing

/-- The pass leaves a credit alone that was placed before. -/
theorem attains_matchOne_placed (unique : Schema.Unique (S := schema) view)
    (hevent : event ∈ view.fundings) (hplaced : event.status ≠ .unmatched)
    {ok : Bool → List Choice → Database → Prop}
    {error : Exception → List Choice → Database → Prop} (h : ∀ past', ok false past' view) :
    attains (Y := system) freshIds (matchOne settings event.id) ok error past view := by
  have hkey : Key.funding event.id ∈ Table.fundingEvent.keys event := List.mem_cons_self
  refine attains_bind (Async.attains_getOrRaise orderly_freshIds ⟨event, hevent, hkey⟩
    fun choice row hrow hheld => ?_)
  have hsame : row = event :=
    unique.eq_of_key Table.fundingEvent (.funding event.id) hrow hevent hheld hkey
  subst hsame
  rw [if_pos hplaced]
  exact attains_pure (h _)

/-- The pass gets over a credit that is passable. -/
theorem attains_matchOne_passes (unique : Schema.Unique (S := schema) view)
    (headed : Headed view) (hevent : event ∈ view.fundings)
    (passable : Passable settings event view) :
    attains (Y := system) freshIds (matchOne settings event.id) (fun _ _ view' => Headed view')
      (fun _ _ _ => False) past view := by
  by_cases hunmatched : event.status = .unmatched
  · refine attains_matchOne unique hevent hunmatched fun past' => ?_
    cases hclosest : closestByAmount event.amountMinor (candidates event view) with
    | none =>
        unfold place
        rw [hclosest]
        exact attains_pure headed
    | some best =>
        by_cases hwithin : Within settings event best
        · exact attains_place_matched unique headed hevent hunmatched hclosest hwithin
            (passable hunmatched best hclosest hwithin) fun _ _ _ headed' => headed'
        · exact attains_place_refused unique hevent hunmatched hclosest hwithin
            fun _ _ _ hheaders hentries => headed.of_eq hentries hheaders
  · exact attains_matchOne_placed unique hevent hunmatched fun _ => headed

/-- A credit that is not passable raises. -/
theorem attains_matchOne_raises (unique : Schema.Unique (S := schema) view)
    (hevent : event ∈ view.fundings) (hpassable : ¬ Passable settings event view) :
    attains (Y := system) freshIds (matchOne settings event.id) (fun _ _ _ => False)
      (fun _ _ _ => True) past view := by
  unfold Passable at hpassable
  push Not at hpassable
  obtain ⟨hunmatched, best, hclosest, hwithin, hfundable⟩ := hpassable
  exact attains_matchOne unique hevent hunmatched fun past' =>
    attains_place_raises hclosest hwithin hfundable fun _ _ _ => trivial

/-- A lone pass settles an unmatched credit just when the closest batch takes it whenever one
does. -/
theorem matchOne_settles_iff (settings : Settings) {event : FundingEvent} {view : Database}
    {past : List Choice} (unique : Schema.Unique (S := schema) view)
    (headed : ∀ entry ∈ view.entries, ∃ transaction ∈ view.transactions,
      transaction.id = entry.transactionId)
    (hevent : event ∈ view.fundings) (hunmatched : event.status = .unmatched) :
    attains (Y := system) freshIds (matchOne settings event.id)
        (fun placed _ view' => Settles settings event view placed view')
        (fun _ _ _ => False) past view ↔
      ClosestTakes settings event view := by
  constructor
  · intro settles best hclosest hsome
    by_contra hnot
    by_cases hwithin : Within settings event best
    · have hraises : attains (Y := system) freshIds (matchOne settings event.id)
          (fun _ _ _ => False) (fun _ _ _ => True) past view :=
        attains_matchOne unique hevent hunmatched fun past' => attains_place_raises hclosest
          hwithin (fun fundable => hnot ⟨hwithin, fundable⟩) fun _ _ _ => trivial
      exact settles.exclusive orderly_freshIds.live (.fundingMatch event.id) hraises
        (fun _ _ _ _ => not_false) fun _ _ _ hfalse => hfalse.elim
    · have hrefuses : attains (Y := system) freshIds (matchOne settings event.id)
          (fun placed _ _ => placed = false) (fun _ _ _ => False) past view :=
        attains_matchOne unique hevent hunmatched fun past' => attains_place_refused unique
          hevent hunmatched hclosest hwithin fun _ _ _ _ _ => rfl
      refine settles.exclusive orderly_freshIds.live (.fundingMatch event.id) hrefuses
        (fun placed past' view' settled hrefused => ?_) fun _ _ _ hfalse => hfalse.elim
      rw [(settled.matched hsome).1] at hrefused
      cases hrefused
  · intro takes
    refine attains_matchOne unique hevent hunmatched fun past' => ?_
    cases hclosest : closestByAmount event.amountMinor (candidates event view) with
    | none =>
        have hempty := closestByAmount_eq_none.mp hclosest
        unfold place
        rw [hclosest]
        refine attains_pure ⟨?_, fun _ => ⟨rfl, rfl, rfl⟩, fun _ hsome => absurd hempty hsome,
          fun _ => rfl⟩
        rintro ⟨batch, hbatch, -⟩
        rw [hempty] at hbatch
        cases hbatch
    | some best =>
        obtain ⟨hbest, hleast⟩ := closestByAmount_spec hclosest
        have hsome : candidates event view ≠ [] := List.ne_nil_of_mem hbest
        by_cases hwithin : ∃ batch ∈ candidates event view, Within settings event batch
        · obtain ⟨hbestWithin, fundable⟩ := takes best hclosest hwithin
          refine attains_place_matched unique headed hevent hunmatched hclosest hbestWithin fundable
            fun past'' view' carries _ => ?_
          have hnever (hnone : ∀ batch ∈ candidates event view, ¬ Within settings event batch) :
              False := hnone best hbest hbestWithin
          exact ⟨fun _ => ⟨rfl, best, hbest, hbestWithin, carries⟩,
            fun hnone => (hnever hnone).elim,
            fun hnone => (hnever hnone).elim, fun hempty => absurd hempty hsome⟩
        · have hbestOutside : ¬ Within settings event best := fun h => hwithin ⟨best, hbest, h⟩
          refine attains_place_refused unique hevent hunmatched hclosest hbestOutside
            fun past'' view' carries htransactions hentries => ?_
          exact ⟨fun h => absurd h hwithin, fun _ => ⟨rfl, htransactions, hentries⟩,
            fun _ _ => ⟨best, hbest, hleast, carries⟩, fun hempty => absurd hempty hsome⟩

namespace FundingSample

def batch (id : String) (expectedTotalMinor : Int) : SettlementBatch where
  id := id
  currency := "EUR"
  processingDate := 20512
  acquirer := "worldflow"
  fileReference := id
  expectedTotalMinor := expectedTotalMinor
  postedTotalMinor := expectedTotalMinor
  fundedAmountMinor := 0
  fundingEventId := none
  itemCount := 1
  status := .reconciled
  closedAt := some 1
  reconciledAt := some 2
  fundedAt := none
  livemode := true

/-- A credit of a hundred thousand euros. -/
def bankCredit : FundingEvent where
  id := "fe_1"
  acquirer := "worldflow"
  currency := "EUR"
  amountMinor := 10000000
  valueDate := 20513
  bankReference := "ref_1"
  status := .unmatched
  matchedBatchId := none
  varianceMinor := 0
  receivedAt := 3
  livemode := true

/-- The credit and a batch of exactly its amount. -/
def exact : Database :=
  { fundings := [bankCredit], batches := [batch "sb_1" 10000000] }

/-- The credit between a smaller and a larger batch; the smaller one is closer by two cents
and out of its tolerance by two. -/
def between : Database :=
  { fundings := [bankCredit], batches := [batch "sb_1" 9995001, batch "sb_2" 10005001] }

theorem unique_exact : Schema.Unique (S := schema) exact := by
  refine Schema.unique_of_pairwise fun table => ?_
  cases table <;> simp [Table.rows, exact]

theorem unique_between : Schema.Unique (S := schema) between := by
  refine Schema.unique_of_pairwise fun table => ?_
  cases table <;> simp [Table.rows, between, Table.keys, batch]

theorem fundable_exact : Fundable bankCredit exact (batch "sb_1" 10000000) where
  positive := by decide
  unposted := ⟨("funding:sb_1:fe_1", "fundingfp:sb_1:ref_1"), rfl, rfl⟩
  cash := by
    rintro ⟨account, hhead, -⟩
    cases hhead
  clearing := by
    rintro ⟨account, hhead, -⟩
    cases hhead

end FundingSample

open FundingSample in
/-- A credit of exactly the amount of the one batch is placed. -/
theorem exact_credit_settles :
    attains (Y := system) freshIds (matchOne sampleSettings bankCredit.id)
      (fun placed _ view' => Settles sampleSettings bankCredit exact placed view')
      (fun _ _ _ => False) [] exact := by
  refine (matchOne_settles_iff sampleSettings unique_exact nofun List.mem_cons_self rfl).mpr ?_
  intro best hclosest _
  cases hclosest
  exact ⟨by decide, fundable_exact⟩

open FundingSample in
/-- The credit is disputed over the smaller batch although the larger one would take it. -/
theorem closer_batch_disputed :
    ¬ attains (Y := system) freshIds (matchOne sampleSettings bankCredit.id)
      (fun placed _ view' => Settles sampleSettings bankCredit between placed view')
      (fun _ _ _ => False) [] between := by
  intro settles
  have hclosest : closestByAmount bankCredit.amountMinor (candidates bankCredit between) =
      some (batch "sb_1" 9995001) := by decide +kernel
  have hsome : ∃ other ∈ candidates bankCredit between, Within sampleSettings bankCredit other :=
    ⟨batch "sb_2" 10005001, by decide +kernel, by decide +kernel⟩
  have hwithin : ¬ Within sampleSettings bankCredit (batch "sb_1" 9995001) := by decide +kernel
  have hrefuses : attains (Y := system) freshIds (matchOne sampleSettings bankCredit.id)
      (fun placed _ _ => placed = false) (fun _ _ _ => False) [] between :=
    attains_matchOne unique_between List.mem_cons_self rfl fun past' =>
      attains_place_refused unique_between List.mem_cons_self rfl hclosest hwithin
        fun _ _ _ _ _ => rfl
  refine settles.exclusive orderly_freshIds.live (.fundingMatch bankCredit.id) hrefuses
    (fun placed past' view' settled hrefused => ?_) fun _ _ _ hfalse => hfalse.elim
  rw [(settled.matched hsome).1] at hrefused
  cases hrefused

end FundingMatchService

end PayzenoLedger
