import PayzenoLedger.Payouts.Sessions

/-!
# Postings and reversals of payouts

A reversal posts what gives the amount back and links it to the payout.  The transactions
that cancel a payout, confirm it or record its failure keep the law, whatever else goes on.
-/

set_option autoImplicit false

namespace PayzenoLedger

open Library Write

section Rules

variable {service : PayoutService} {quiet : Prop} {worker : Nat} {created : List Payout}
  {fact : Database → Prop} {top : Session system} {shared : Shared system} {payout : Payout}

/-! ## One posting, one update, one event -/

/-- Nothing of a posting is a payout. -/
theorem Posting.added_payout (posting : Posting) :
    added (S := schema) Table.payout posting.writes = [] := by
  have hinserts (table : Table) (rows : List table.Row) (hne : table ≠ .payout) :
      added (S := schema) Table.payout (inserts table rows) = [] := by
    induction rows with
    | nil => rfl
    | cons row rows ih =>
        change added (S := schema) Table.payout
          (Write.insert (S := schema) table row :: inserts table rows) = []
        rw [added, dif_neg hne, List.nil_append, ih]
  have hmove (move : BalanceMove) : added (S := schema) Table.payout
      (move.writes posting.request posting.header.id) = [] := by
    cases move <;> rfl
  rw [Posting.writes, Posting.bookWrites]
  simp only [added_append]
  rw [hmove, hinserts .ledgerTransaction _ (by decide), hinserts .account _ (by decide),
    hinserts .ledgerEntry _ (by decide), hinserts .eventOutbox _ (by decide)]
  rfl

theorem Posting.added_entries (posting : Posting) :
    added (S := schema) Table.ledgerEntry posting.writes = posting.entries := by
  have h := entries_applyAll posting.writes {}
  rw [posting.applyAll_writes] at h
  simpa using h.symm

/-- The posting of a transaction of a payout, under the payout's own key. -/
theorem PayoutService.wpr_postFor (leg : PayoutLeg) (payout : Payout)
    (fact' : String → Database → Prop) {purpose : Purpose} {currency keyPurpose : String}
    {fingerprint : Except Exception String} {lines : List PostingLine}
    (session : PayoutSession service.settings quiet worker created fact top shared)
    (hpurpose : keyPurpose = leg.keyPurpose) (hcurrency : currency = payout.legCurrency leg)
    (hlines : lines = payout.lines leg)
    (keep : ∀ db (posting : Posting) print, posting.Valid db → payout.Named →
      posting.request = postRequest payout purpose (payout.legCurrency leg) (payout.key leg)
        print (payout.lines leg) →
      fact db → fact' posting.header.id (applyAll posting.writes db)) :
    wpr (payoutDiscipline service.settings quiet) worker
      (service.postFor payout purpose currency keyPurpose fingerprint lines)
      (fun id => Reached service.settings quiet worker created (fact' id) top shared)
      (fun _ stack _ => ∃ top, stack = [top]) [top] shared := by
  subst hpurpose hcurrency hlines
  unfold postFor
  rw [wpr_bind]
  refine Async.wpr_check (fun key hkey => ?_) fun _ _ => ⟨_, rfl⟩
  obtain ⟨named, rfl⟩ := Payout.named_of_key hkey
  rw [wpr_bind]
  refine Async.wpr_check (fun print _ => ?_) fun _ _ => ⟨_, rfl⟩
  rw [wpr_bind]
  refine LedgerPoster.wpr_post
    (fun shared₁ top₁ posting progress₁ hrequest hwrites hvalid hstamped => ?_)
    (fun _ _ _ hconflict _ _ => ?_) (fun _ _ _ _ => ⟨_, rfl⟩) session.here
  · refine ⟨top₁, rfl, progress₁, ?_⟩
    refine session.write progress₁ hwrites hvalid
      (fun db valid hfact => keep db posting _ valid named hrequest hfact)
      (fun entry hentry => ?_) posting.added_payout
    rw [posting.added_entries] at hentry
    obtain ⟨before, rely, hle⟩ := hstamped entry hentry
    exact hle.trans (clock_le_of_rely rely)
  · cases hconflict

/-- An update of the payout's row. -/
theorem PayoutSession.wpr_update {fact' : Database → Prop} {id : String}
    {change : Payout → Payout}
    {immutable : ∀ row, Table.payout.identity (change row) = Table.payout.identity row}
    (session : PayoutSession service.settings quiet worker created fact top shared)
    (onFile : ∀ db, fact db → ∃ row ∈ db.payouts, row.id = id)
    (keep : ∀ db : Database, fact db →
      fact' { db with payouts := rewritten id change db.payouts }) :
    wpr (payoutDiscipline service.settings quiet) worker
      (Async.update .payout (.payout id) change immutable)
      (fun _ => Reached service.settings quiet worker created fact' top shared)
      (fun _ stack _ => ∃ top, stack = [top]) [top] shared := by
  refine Async.wpr_update (fun shared₁ row _ _ progress₁ => ?_)
    (fun shared₁ progress₁ hnone => ?_) fun _ _ _ _ _ => ⟨_, rfl⟩
  · refine ⟨_, rfl, progress₁, ?_⟩
    refine session.write progress₁ rfl PayoutSession.seenAny (fun db _ hfact => ?_)
      (fun _ h => absurd h List.not_mem_nil) rfl
    rw [applyAll_rewritten]
    exact keep db hfact
  · obtain ⟨row, hrow, hid⟩ := onFile _ (session.same progress₁).now
    exact absurd (payoutKey_mem.mpr hid) (Schema.holders_eq_nil_iff.mp hnone row hrow)

/-- An event is no part of the books. -/
theorem PayoutSession.wpr_publish {type : String} {payload : List (String × Json)}
    {merchantId : Option String} {correlationId : String} {livemode : Bool}
    (session : PayoutSession service.settings quiet worker created (PayoutLaw quiet) top shared) :
    wpr (payoutDiscipline service.settings quiet) worker
      (OutboxPublisher.publish type payload merchantId correlationId livemode)
      (fun _ => Reached service.settings quiet worker created (PayoutLaw quiet) top shared)
      (fun _ stack _ => ∃ top, stack = [top]) [top] shared := by
  refine OutboxPublisher.wpr_publish (fun shared₁ event _ _ progress₁ => ?_)
    fun _ _ => ⟨_, rfl⟩
  refine ⟨_, rfl, progress₁, ?_⟩
  refine session.write progress₁ rfl PayoutSession.seenAny (fun db _ law => ?_)
    (fun _ h => absurd h List.not_mem_nil) rfl
  have same : SameLedger db (applyAll [Write.insert (S := schema) .eventOutbox event] db) :=
    ⟨rfl, rfl, rfl⟩
  exact law.same same rfl

/-! ## The reversal -/

/-- A payout on file of which these reversals are posted, its row not linked to them yet. -/
def Reversing (quiet : Prop) (payout : Payout) (reversals : List (PayoutLeg × String))
    (db : Database) : Prop :=
  ∃ posted : PayoutLeg → Option String, (posted .balance).isSome ∧
    (posted .bank).isSome = payout.isConverted ∧
    (payout.isConverted = false → posted .bankReversal = none) ∧
    (∀ reversal ∈ reversals, posted reversal.1 = some reversal.2) ∧
    (∀ row ∈ db.payouts, row.id = payout.id →
      row.terms = payout.terms ∧ row.ledgerTransactionId = posted .balance) ∧
    payout.Named ∧ PayoutDraft quiet payout posted db

/-- Nothing is reversed of a payout on file. -/
theorem PayoutLaw.reversing {db : Database} (law : PayoutLaw quiet db)
    (unique : Schema.Unique (S := schema) db) {row : Payout} (hrow : row ∈ db.payouts)
    (hterms : row.terms = payout.terms) : Reversing quiet payout [] db := by
  obtain ⟨posted, draft, linked⟩ := law.draft hrow hterms
  have hconverted : row.isConverted = payout.isConverted :=
    Payout.of_terms hterms Payout.isConverted fun _ => rfl
  have named : payout.Named := by
    have hnamed (other : Payout) : other.terms.Named ↔ other.Named := Iff.rfl
    exact (hnamed payout).mp (hterms ▸ (hnamed row).mpr (law.payouts row hrow).named)
  refine ⟨posted, linked.booked, hconverted ▸ linked.bank, fun hsame => ?_,
    fun _ h => absurd h List.not_mem_nil, fun other hother hid => ?_, named, draft⟩
  · have h := linked.bankReversal
    rw [hconverted, hsame, Bool.false_and] at h
    exact Option.isSome_eq_false_iff.mp h |> Option.isNone_iff_eq_none.mp
  · have hrowId : row.id = payout.id := Payout.of_terms hterms Payout.id fun _ => rfl
    have hsame : other = row := unique.eq_of_key Table.payout (.payout payout.id) hother hrow
      (payoutKey_mem.mpr hid) (payoutKey_mem.mpr hrowId)
    rw [hsame]
    exact ⟨hterms, linked.balance.symm⟩

theorem Reversing.onFile {reversals : List (PayoutLeg × String)} {db : Database}
    (reversing : Reversing quiet payout reversals db) : ∃ row ∈ db.payouts, row.id = payout.id := by
  obtain ⟨_, _, _, _, _, _, _, draft⟩ := reversing
  obtain ⟨row, hrow, hterms⟩ := draft.onFile
  exact ⟨row, hrow, Payout.of_terms hterms Payout.id fun _ => rfl⟩

/-- The status may change before the reversal is posted. -/
theorem Reversing.rewrite {reversals : List (PayoutLeg × String)} {db : Database}
    (reversing : Reversing quiet payout reversals db) {change : Payout → Payout}
    (hterms : ∀ row, (change row).terms = row.terms)
    (hlink : ∀ row, (change row).ledgerTransactionId = row.ledgerTransactionId) :
    Reversing quiet payout reversals
      { db with payouts := rewritten payout.id change db.payouts } := by
  obtain ⟨posted, booked, bank, bankReversal, hposted, hrows, named, draft⟩ := reversing
  refine ⟨posted, booked, bank, bankReversal, hposted, fun row hrow hid => ?_, named,
    draft.rewrite hterms⟩
  rcases mem_rewritten hrow with ⟨old, hold, holdId, rfl⟩ | ⟨hold, hne⟩
  · rw [hterms, hlink]
    exact hrows old hold holdId
  · exact absurd hid hne

/-- A reversal is posted. -/
theorem Reversing.post {reversals : List (PayoutLeg × String)} {db : Database}
    (reversing : Reversing quiet payout reversals db) {posting : Posting}
    (valid : posting.Valid db) {leg : PayoutLeg} {purpose : Purpose} {fingerprint : String}
    (hrequest : posting.request = PayoutService.postRequest payout purpose
      (payout.legCurrency leg) (payout.key leg) fingerprint (payout.lines leg))
    (hbank : leg ≠ .bank) (hconverted : leg = .bankReversal → payout.isConverted = true) :
    Reversing quiet payout ((leg, posting.header.id) :: reversals)
      (applyAll posting.writes db) := by
  obtain ⟨posted, booked, bank, bankReversal, hposted, hrows, named, draft⟩ := reversing
  obtain ⟨habsent, draft'⟩ := draft.post valid named hrequest
  have hbalance : leg ≠ .balance := by
    rintro rfl
    rw [habsent] at booked
    cases booked
  refine ⟨_, ?_, ?_, fun hsame => ?_, fun reversal hreversal => ?_, ?_, named, draft'⟩
  · rwa [Function.update_of_ne hbalance.symm]
  · rwa [Function.update_of_ne hbank.symm]
  · have hne : leg ≠ .bankReversal := fun h => by
      rw [hconverted h] at hsame
      cases hsame
    rw [Function.update_of_ne hne.symm]
    exact bankReversal hsame
  · rcases List.mem_cons.mp hreversal with rfl | hold
    · rw [Function.update_self]
    · have hne : reversal.1 ≠ leg := fun h => by
        have hsome := hposted reversal hold
        rw [h, habsent] at hsome
        cases hsome
      rw [Function.update_of_ne hne]
      exact hposted reversal hold
  · rw [posting.applyAll_writes, Function.update_of_ne hbalance.symm]
    exact hrows

/-- Both legs of the payout are reversed, as far as it has two. -/
def ReversedBy (quiet : Prop) (payout : Payout) (id : String) (db : Database) : Prop :=
  ∃ reversals, Reversing quiet payout reversals db ∧ (PayoutLeg.balanceReversal, id) ∈ reversals ∧
    (payout.isConverted = true → ∃ other, (PayoutLeg.bankReversal, other) ∈ reversals)

/-- The row is linked to its reversal, and the law holds again. -/
theorem ReversedBy.finish {id : String} {db : Database} (reversed : ReversedBy quiet payout id db)
    (complete : payout.isConverted = false → payout.sourceAmountMinor = none)
    {change : Payout → Payout} (hterms : ∀ row, (change row).terms = row.terms)
    (hlink : ∀ row, (change row).ledgerTransactionId = row.ledgerTransactionId)
    (hreversal : ∀ row, (change row).reversalTransactionId = some id) :
    PayoutLaw quiet { db with payouts := rewritten payout.id change db.payouts } := by
  obtain ⟨reversals, reversing, hid, hother⟩ := reversed
  obtain ⟨posted, booked, bank, bankReversal, hposted, hrows, named, draft⟩ := reversing
  refine (draft.rewrite hterms).law named complete (fun row hrow hrowId => ?_) booked
  rcases mem_rewritten hrow with ⟨old, hold, holdId, rfl⟩ | ⟨-, hne⟩
  · obtain ⟨holdTerms, holdLink⟩ := hrows old hold holdId
    have hsame := (hterms old).trans holdTerms
    have hconverted : (change old).isConverted = payout.isConverted :=
      Payout.of_terms hsame Payout.isConverted fun _ => rfl
    refine ⟨hsame, booked, ?_, ?_, ?_, ?_, fun _ => ?_⟩
    · rw [hlink, holdLink]
    · rw [hconverted]
      exact bank
    · rw [hreversal]
      exact hposted _ hid
    · rw [hconverted, hreversal, Option.isSome_some, Bool.and_true]
      cases hconverts : payout.isConverted with
      | false => rw [bankReversal hconverts]; rfl
      | true =>
          obtain ⟨other, hmem⟩ := hother hconverts
          rw [hposted _ hmem]
          rfl
    · rw [hreversal]
      rfl
  · exact absurd hrowId hne

/-- The lines of the bank side that a rule builds. -/
theorem bankLines_of_rule {targetLines : List PostingLine} {midMinor : Int}
    (h : fxTargetLines payout.merchantId payout.currency midMinor payout.amountMinor
      (payout.fxSpreadMinor.getD 0) = .ok targetLines) : targetLines = payout.bankLines := by
  unfold fxTargetLines fxPayoutTargetPostingRule at h
  dsimp only at h
  split at h
  · cases h
  · split at h
    · cases h
    · next hsum =>
        obtain ⟨rfl, -⟩ := built_ok h
        rw [not_not.mp hsum]
        rfl

/-- The lines of the balance side that a rule builds. -/
theorem balanceLines_of_rule {currency : String} {sourceLines : List PostingLine}
    (hconverted : payout.isConverted = true)
    (h : fxSourceLines payout.merchantId currency payout.balanceAmountMinor =
      .ok sourceLines) : sourceLines = payout.balanceLines := by
  unfold fxSourceLines fxPayoutSourcePostingRule positiveRule at h
  dsimp only at h
  split at h
  · cases h
  · next hpositive =>
      obtain ⟨rfl, -⟩ := built_ok h
      have hne : payout.balanceAmountMinor ≠ 0 := by omega
      simp [Payout.balanceLines, hconverted, debit, credit, hne]

theorem PayoutService.wpr_reversePayoutPosting {reason : String}
    (session : PayoutSession service.settings quiet worker [] (Reversing quiet payout []) top
      shared)
    (complete : payout.isConverted = false → payout.sourceAmountMinor = none) :
    wpr (payoutDiscipline service.settings quiet) worker
      (service.reversePayoutPosting payout reason)
      (fun id => Reached service.settings quiet worker [] (ReversedBy quiet payout id) top
        shared)
      (fun _ stack _ => ∃ top, stack = [top]) [top] shared := by
  unfold reversePayoutPosting
  split
  · next hconverted =>
      unfold reverseConvertedPayout
      dsimp only
      rw [wpr_bind]
      refine Async.wpr_check (fun targetLines htarget => ?_) fun _ _ => ⟨_, rfl⟩
      refine Reached.wpr_bind (PayoutService.wpr_postFor .bankReversal payout
        (fun id => Reversing quiet payout [(.bankReversal, id)]) session rfl rfl
        (congrArg mirrored (bankLines_of_rule htarget))
        fun db posting _ valid _ hrequest reversing =>
          reversing.post valid hrequest (by decide) fun _ => hconverted) ?_
      intro other top₁ shared₁ session₁
      rw [wpr_bind]
      refine Async.wpr_check (fun sourceLines hsource => ?_) fun _ _ => ⟨_, rfl⟩
      have hlines : mirrored sourceLines = payout.lines .balanceReversal := by
        change _ = payout.balanceReversalLines
        rw [balanceLines_of_rule hconverted hsource, Payout.balanceReversalLines,
          if_pos hconverted]
      refine PayoutService.wpr_postFor .balanceReversal payout
        (fun id => ReversedBy quiet payout id) session₁ rfl rfl hlines
        fun db posting _ valid _ hrequest reversing => ?_
      exact ⟨_, reversing.post valid hrequest (by decide) (fun h => by cases h),
        List.mem_cons_self,
        fun _ => ⟨other, List.mem_cons_of_mem _ (List.mem_singleton_self _)⟩⟩
  · next hsame =>
      have hsame : payout.isConverted = false := by simpa using hsame
      have hamount : payout.balanceAmountMinor = payout.amountMinor := by
        rw [Payout.balanceAmountMinor, complete hsame]
        rfl
      have hcurrency : payout.currency = payout.legCurrency .balanceReversal := by
        have hnone : payout.sourceCurrency = none := by
          simpa [Payout.isConverted] using hsame
        rw [Payout.legCurrency, Payout.balanceCurrency, hnone]
        rfl
      have hlines : [debit .cash payout.amountMinor, credit .merchantPayable payout.amountMinor] =
          payout.lines .balanceReversal := by
        change _ = payout.balanceReversalLines
        rw [Payout.balanceReversalLines, hsame, if_neg (by decide), hamount]
      refine PayoutService.wpr_postFor .balanceReversal payout
        (fun id => ReversedBy quiet payout id) session rfl hcurrency hlines
        fun db posting _ valid _ hrequest reversing => ?_
      refine ⟨_, reversing.post valid hrequest (by decide) (fun h => by cases h),
        List.mem_cons_self, fun hconverted => ?_⟩
      rw [hsame] at hconverted
      cases hconverted

/-! ## What becomes of a payout -/

/-- The payout that a transaction reads. -/
theorem PayoutRepository.wpr_getOrRaise {id : String}
    {ok : Payout → List (Session system) → Shared system → Prop}
    {error : Exception → List (Session system) → Shared system → Prop}
    (hwrites : top.writes = [])
    (hok : ∀ shared' payout, payout.id = id →
      (payout.isConverted = false → payout.sourceAmountMinor = none) →
      Progress (payoutDiscipline service.settings quiet) worker [] top shared top shared' →
      PayoutSession service.settings quiet worker []
        (fun db => PayoutLaw quiet db ∧ Reversing quiet payout [] db) top shared' →
      ok payout [top] shared')
    (herror : ∀ shared' raised, error raised [top] shared') :
    wpr (payoutDiscipline service.settings quiet) worker (PayoutRepository.getOrRaise id) ok error
      [top] shared := by
  unfold PayoutRepository.getOrRaise
  refine Async.wpr_getOrRaise (fun shared₁ row progress₁ hrow => ?_)
    fun shared₁ _ _ => herror shared₁ _
  obtain ⟨hmem, hkey⟩ := Schema.mem_holders.mp hrow
  have hview : row ∈ shared₁.committed.payouts := by
    have hnothing : top.view shared₁.committed = shared₁.committed := by
      rw [Session.view, hwrites]
      rfl
    rwa [hnothing] at hmem
  refine hok shared₁ row (payoutKey_mem.mp hkey)
    (progress₁.good.2.law.payouts row hview).complete progress₁
    ⟨progress₁.here, ?_, ?_, ?_⟩
  · intro db later law
    rw [hwrites]
    obtain ⟨row', hrow', hterms⟩ := later.grows.survives Table.payout hview
    exact ⟨law, law.reversing later.unique hrow' hterms⟩
  · rw [hwrites]
    exact fun _ h => absurd h List.not_mem_nil
  · rw [hwrites]
    rfl

/-- The row is marked as reversed. -/
theorem PayoutSession.wpr_finish {id : String} {change : Payout → Payout}
    {immutable : ∀ row, Table.payout.identity (change row) = Table.payout.identity row}
    (session : PayoutSession service.settings quiet worker [] (ReversedBy quiet payout id) top
      shared)
    (complete : payout.isConverted = false → payout.sourceAmountMinor = none)
    (hterms : ∀ row, (change row).terms = row.terms)
    (hlink : ∀ row, (change row).ledgerTransactionId = row.ledgerTransactionId)
    (hreversal : ∀ row, (change row).reversalTransactionId = some id) :
    wpr (payoutDiscipline service.settings quiet) worker
      (Async.update .payout (.payout payout.id) change immutable)
      (fun _ => Reached service.settings quiet worker [] (PayoutLaw quiet) top shared)
      (fun _ stack _ => ∃ top, stack = [top]) [top] shared :=
  session.wpr_update (fun _ ⟨_, reversing, _⟩ => reversing.onFile)
    fun _ reversed => reversed.finish complete hterms hlink hreversal

theorem PayoutService.wpr_cancelPayout {id : String} (hwrites : top.writes = []) :
    wpr (payoutDiscipline service.settings quiet) worker (service.cancelPayout id)
      (fun _ => Reached service.settings quiet worker [] (PayoutLaw quiet) top shared)
      (fun _ stack _ => ∃ top, stack = [top]) [top] shared := by
  unfold cancelPayout
  rw [wpr_bind]
  refine PayoutRepository.wpr_getOrRaise hwrites
    (fun shared₁ payout hid complete progress₁ session₁ => ?_) fun _ _ => ⟨_, rfl⟩
  subst hid
  split
  · exact ⟨_, rfl⟩
  · refine wpr_mono ?_ (fun _ _ _ reached => Reached.trans progress₁ reached) fun _ _ _ h => h
    refine Reached.wpr_bind ((session₁.imp fun _ h => h.2).wpr_update (fun _ h => h.onFile)
      fun _ reversing => reversing.rewrite (fun _ => rfl) fun _ => rfl) ?_
    intro _ top₂ shared₂ session₂
    refine Reached.wpr_bind (service.wpr_reversePayoutPosting session₂ complete) ?_
    intro reversal top₃ shared₃ session₃
    refine Reached.wpr_bind (session₃.wpr_finish complete (fun _ => rfl) (fun _ => rfl)
      fun _ => rfl) ?_
    intro _ top₄ shared₄ session₄
    exact ⟨top₄, rfl, session₄.here, session₄⟩

/-- The payout that a transaction reads under its lock. -/
theorem PayoutRepository.wpr_locked {id : String} {next : Payout → Async Payout}
    (hwrites : top.writes = [])
    (hnext : ∀ top' shared' payout, payout.id = id →
      (payout.isConverted = false → payout.sourceAmountMinor = none) →
      PayoutSession service.settings quiet worker []
        (fun db => PayoutLaw quiet db ∧ Reversing quiet payout [] db) top' shared' →
      wpr (payoutDiscipline service.settings quiet) worker (next payout)
        (fun _ => Reached service.settings quiet worker [] (PayoutLaw quiet) top' shared')
        (fun _ stack _ => ∃ top, stack = [top]) [top'] shared') :
    wpr (payoutDiscipline service.settings quiet) worker
      (AdvisoryLockManager.acquireItemLock service.settings id >>= fun _ =>
        PayoutRepository.getOrRaise id >>= next)
      (fun _ => Reached service.settings quiet worker [] (PayoutLaw quiet) top shared)
      (fun _ stack _ => ∃ top, stack = [top]) [top] shared := by
  rw [wpr_bind]
  refine wpr_acquire fun shared₁ progress₁ => ?_
  rw [wpr_bind]
  refine PayoutRepository.wpr_getOrRaise hwrites
    (fun shared₂ payout hid complete progress₂ session₂ => ?_) fun _ _ => ⟨_, rfl⟩
  exact wpr_mono (hnext _ shared₂ payout hid complete session₂)
    (fun _ _ _ reached => Reached.trans (progress₁.trans progress₂) reached) fun _ _ _ h => h

theorem PayoutService.wpr_markPaid {id bankReference : String} {paidAt : Instant}
    (hwrites : top.writes = []) :
    wpr (payoutDiscipline service.settings quiet) worker
      (service.markPaid id paidAt bankReference)
      (fun _ => Reached service.settings quiet worker [] (PayoutLaw quiet) top shared)
      (fun _ stack _ => ∃ top, stack = [top]) [top] shared := by
  refine PayoutRepository.wpr_locked hwrites fun top₁ shared₁ payout hid _ session₁ => ?_
  subst hid
  split
  · exact ⟨top₁, rfl, session₁.here, session₁.imp fun _ h => h.1⟩
  · refine Reached.wpr_bind (session₁.wpr_update (fun _ h => h.2.onFile) fun _ h =>
      h.1.rewrite (fun _ => rfl) (fun _ => ⟨rfl, rfl⟩) fun _ => rfl) ?_
    intro _ top₂ shared₂ session₂
    refine Reached.wpr_bind session₂.wpr_publish ?_
    intro _ top₃ shared₃ session₃
    exact ⟨top₃, rfl, session₃.here, session₃⟩

theorem PayoutService.wpr_markReturned {failureCode failureMessage : String}
    (session : PayoutSession service.settings quiet worker [] (Reversing quiet payout []) top
      shared)
    (complete : payout.isConverted = false → payout.sourceAmountMinor = none) :
    wpr (payoutDiscipline service.settings quiet) worker
      (service.markReturned payout failureCode failureMessage)
      (fun _ => Reached service.settings quiet worker [] (PayoutLaw quiet) top shared)
      (fun _ stack _ => ∃ top, stack = [top]) [top] shared := by
  refine Reached.wpr_bind (service.wpr_reversePayoutPosting session complete) ?_
  intro reversal top₁ shared₁ session₁
  rw [wpr_bind]
  refine Async.wpr_now fun shared₂ progress₂ => ?_
  have session₂ := session₁.same progress₂
  refine wpr_mono ?_ (fun _ _ _ reached => Reached.trans progress₂ reached) fun _ _ _ h => h
  refine Reached.wpr_bind (session₂.wpr_finish complete (fun _ => rfl) (fun _ => rfl)
    fun _ => rfl) ?_
  intro _ top₃ shared₃ session₃
  refine Reached.wpr_bind session₃.wpr_publish ?_
  intro _ top₄ shared₄ session₄
  exact ⟨top₄, rfl, session₄.here, session₄⟩

theorem PayoutService.wpr_markFailed {id failureCode failureMessage : String}
    (hwrites : top.writes = []) :
    wpr (payoutDiscipline service.settings quiet) worker
      (service.markFailed id failureCode failureMessage)
      (fun _ => Reached service.settings quiet worker [] (PayoutLaw quiet) top shared)
      (fun _ stack _ => ∃ top, stack = [top]) [top] shared := by
  refine PayoutRepository.wpr_locked hwrites fun top₁ shared₁ payout hid complete session₁ => ?_
  subst hid
  split
  · have session₁ := session₁.imp fun _ h => h.1
    exact ⟨top₁, rfl, session₁.here, session₁⟩
  · have session₁ := session₁.imp fun _ h => h.2
    split
    · exact service.wpr_markReturned session₁ complete
    · refine Reached.wpr_bind (service.wpr_reversePayoutPosting session₁ complete) ?_
      intro reversal top₂ shared₂ session₂
      rw [wpr_bind]
      refine Async.wpr_now fun shared₃ progress₃ => ?_
      have session₃ := session₂.same progress₃
      refine wpr_mono ?_ (fun _ _ _ reached => Reached.trans progress₃ reached) fun _ _ _ h => h
      refine Reached.wpr_bind (session₃.wpr_finish complete (fun _ => rfl) (fun _ => rfl)
        fun _ => rfl) ?_
      intro _ top₄ shared₄ session₄
      refine Reached.wpr_bind session₄.wpr_publish ?_
      intro _ top₅ shared₅ session₅
      exact ⟨top₅, rfl, session₅.here, session₅⟩

end Rules

end PayzenoLedger
