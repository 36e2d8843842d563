import PayzenoLedger.Domain.Registry
import PayzenoLedger.Ledger.Posts
import PayzenoLedger.Settlement.Jobs

/-!
# Line types that settle

Which lines of a settlement file post when nothing else stands in their way: the acquirer
confirms, the variance is tolerated and the accounts are open.
-/

set_option autoImplicit false

namespace PayzenoLedger

open Library

/-! ## What a line type asks of its amounts -/

/-- The amounts that the rule of the line's type accepts. -/
def ReconciliationItem.AmountsAccepted (item : ReconciliationItem) : Prop :=
  match item.lineType with
  | .sale => 0 < item.feeMinor
  | .refund => 0 < item.grossMinor ∨ (item.grossMinor = 0 ∧ 0 < item.feeMinor)
  | .schemeFee => 0 < item.schemeFeeMinor ∨ (item.schemeFeeMinor = 0 ∧ 0 < item.grossMinor)
  | .chargeback | .chargebackReversal | .adjustment | .reserveHold | .reserveRelease =>
      item.grossMinor ≠ 0

section

variable {ctx : PostingContext} {purpose : Purpose} {item : ReconciliationItem}

theorem built_of_moves (hcurrency : ctx.NamesCurrency) {lines : List PostingLine}
    (hnonneg : ∀ line ∈ lines, 0 ≤ line.amountMinor)
    (hbalance : sideTotal .debit lines = sideTotal .credit lines)
    (hmoves : 0 < sideTotal .debit lines) :
    ∃ kept, PostingRule.built purpose ctx lines = .ok kept :=
  ⟨_, built_of_balanced hcurrency (balanced_filter hnonneg hbalance hmoves)⟩

theorem acquirerFeeLegs_nonneg : ∀ line ∈ acquirerFeeLegs ctx, 0 ≤ line.amountMinor := by
  unfold acquirerFeeLegs
  split
  · simp [debit, credit]
    omega
  · simp

theorem acquirerFeeLegs_balance :
    sideTotal .debit (acquirerFeeLegs ctx) = sideTotal .credit (acquirerFeeLegs ctx) := by
  unfold acquirerFeeLegs
  split
  · simp [sideTotal, debit, credit]
  · rfl

theorem sideTotal_append (direction : Direction) (lines more : List PostingLine) :
    sideTotal direction (lines ++ more) = sideTotal direction lines + sideTotal direction more := by
  simp [sideTotal]

theorem sideTotal_nonneg {direction : Direction} {lines : List PostingLine}
    (hnonneg : ∀ line ∈ lines, 0 ≤ line.amountMinor) : 0 ≤ sideTotal direction lines := by
  refine List.sum_nonneg fun amount hamount => ?_
  obtain ⟨line, hline, rfl⟩ := List.mem_map.mp hamount
  exact hnonneg line (List.mem_of_mem_filter hline)

/-- Two legs of one amount and further legs that balance. -/
theorem built_of_pair (hcurrency : ctx.NamesCurrency) {debited credited : AccountType}
    {amountMinor : Int} {more : List PostingLine} (hamount : 0 ≤ amountMinor)
    (hnonneg : ∀ line ∈ more, 0 ≤ line.amountMinor)
    (hbalance : sideTotal .debit more = sideTotal .credit more)
    (hmoves : 0 < amountMinor + sideTotal .debit more) :
    ∃ kept, PostingRule.built purpose ctx
      ([debit debited amountMinor, credit credited amountMinor] ++ more) = .ok kept := by
  have hpair (direction : Direction) :
      sideTotal direction [debit debited amountMinor, credit credited amountMinor] =
        amountMinor := by
    cases direction <;> simp [sideTotal, debit, credit]
  refine built_of_moves hcurrency (fun line hline => ?_) ?_ ?_
  · rcases List.mem_append.mp hline with hpair | hmore
    · simp only [List.mem_cons, List.not_mem_nil, or_false] at hpair
      rcases hpair with rfl | rfl <;> exact hamount
    · exact hnonneg line hmore
  · rw [sideTotal_append, sideTotal_append, hpair, hpair, hbalance]
  · rw [sideTotal_append, hpair]
    exact hmoves

theorem settlement_builds_iff (hcurrency : ctx.NamesCurrency) :
    (∃ lines, settlementPostingRule.build ctx = .ok lines) ↔ 0 < ctx.feeMinor := by
  unfold settlementPostingRule
  dsimp only
  split
  · next hfee => simp; omega
  · next hfee =>
      have hinterchange : 0 ≤ min (max ctx.interchangeMinor 0) ctx.feeMinor := by omega
      have hlimit : min (max ctx.interchangeMinor 0) ctx.feeMinor ≤ ctx.feeMinor := by omega
      generalize min (max ctx.interchangeMinor 0) ctx.feeMinor = interchangeMinor at *
      have hscheme : 0 ≤ min (max ctx.schemeFeeMinor 0) (ctx.feeMinor - interchangeMinor) := by
        omega
      have hrest : min (max ctx.schemeFeeMinor 0) (ctx.feeMinor - interchangeMinor) ≤
          ctx.feeMinor - interchangeMinor := by
        omega
      generalize min (max ctx.schemeFeeMinor 0) (ctx.feeMinor - interchangeMinor) =
        schemeMinor at *
      have hmarkup : acquirerMarkupMinor ctx.feeMinor interchangeMinor schemeMinor =
          ctx.feeMinor - interchangeMinor - schemeMinor := by
        unfold acquirerMarkupMinor
        exact if_neg (by omega)
      rw [hmarkup]
      refine iff_of_true (built_of_moves hcurrency ?_ ?_ ?_) (by omega)
      · simp [debit, credit]
        omega
      · simp [sideTotal, debit, credit]
      · simp [sideTotal, debit, credit]
        omega

/-- What is built keeps every leg that moves something, and moves it forwards. -/
theorem built_forward {lines kept : List PostingLine}
    (h : PostingRule.built purpose ctx lines = .ok kept) {line : PostingLine}
    (hline : line ∈ lines) : 0 ≤ line.amountMinor := by
  obtain ⟨rfl, balanced⟩ := built_ok h
  by_cases hzero : line.amountMinor = 0
  · exact hzero.ge
  · exact (balanced.positive line (List.mem_filter.mpr ⟨hline, by simpa using hzero⟩)).le

theorem refund_builds_iff (hcurrency : ctx.NamesCurrency) :
    (∃ lines, settlementRefundPostingRule.build ctx = .ok lines) ↔
      0 < ctx.grossMinor ∨ (ctx.grossMinor = 0 ∧ 0 < ctx.feeMinor) := by
  have hfees : sideTotal .debit (acquirerFeeLegs ctx) =
      if 0 < ctx.feeMinor then ctx.feeMinor else 0 := by
    unfold acquirerFeeLegs
    split
    · simp [sideTotal, debit, credit]
    · rfl
  constructor
  · rintro ⟨kept, hkept⟩
    have hgross : 0 ≤ ctx.grossMinor := built_forward hkept List.mem_cons_self
    by_cases hzero : ctx.grossMinor = 0
    · refine .inr ⟨hzero, not_le.mp fun hfee => ?_⟩
      obtain ⟨rfl, balanced⟩ := built_ok hkept
      have htwo := balanced.two
      simp [hzero, acquirerFeeLegs, not_lt.mpr hfee, debit, credit] at htwo
    · exact .inl (by omega)
  · intro haccepted
    refine built_of_pair hcurrency (by omega) acquirerFeeLegs_nonneg acquirerFeeLegs_balance ?_
    rw [hfees]
    split <;> omega

theorem absolute_builds_iff (hcurrency : ctx.NamesCurrency) {message : String}
    {debited credited : AccountType} {extra : PostingContext → List PostingLine}
    (hnonneg : ∀ line ∈ extra ctx, 0 ≤ line.amountMinor)
    (hbalance : sideTotal .debit (extra ctx) = sideTotal .credit (extra ctx)) :
    (∃ lines, (absoluteRule purpose message debited credited extra).build ctx = .ok lines) ↔
      ctx.grossMinor ≠ 0 := by
  have hextra : 0 ≤ sideTotal .debit (extra ctx) := sideTotal_nonneg hnonneg
  unfold absoluteRule
  dsimp only
  split
  · next hzero => simp; omega
  · next hamount =>
      refine iff_of_true (built_of_pair hcurrency (by omega) hnonneg hbalance ?_) (by omega)
      omega

/-- Two legs of one amount. -/
theorem built_of_two (hcurrency : ctx.NamesCurrency) {debited credited : AccountType}
    {amountMinor : Int} (hamount : 0 < amountMinor) :
    ∃ kept, PostingRule.built purpose ctx
      [debit debited amountMinor, credit credited amountMinor] = .ok kept := by
  refine built_of_moves hcurrency ?_ ?_ ?_
  · simp [debit, credit]
    omega
  · simp [sideTotal, debit, credit]
  · simpa [sideTotal, debit, credit] using hamount

theorem schemeFee_builds_iff (hcurrency : ctx.NamesCurrency) :
    (∃ lines, schemeFeePostingRule.build ctx = .ok lines) ↔
      0 < ctx.schemeFeeMinor ∨ (ctx.schemeFeeMinor = 0 ∧ 0 < ctx.grossMinor) := by
  have hamount : 0 < (if ctx.schemeFeeMinor ≠ 0 then ctx.schemeFeeMinor else ctx.grossMinor) ↔
      0 < ctx.schemeFeeMinor ∨ (ctx.schemeFeeMinor = 0 ∧ 0 < ctx.grossMinor) := by
    split <;> omega
  unfold schemeFeePostingRule
  dsimp only
  rw [← hamount]
  generalize (if ctx.schemeFeeMinor ≠ 0 then ctx.schemeFeeMinor else ctx.grossMinor) =
    amountMinor
  by_cases hposted : 0 < amountMinor
  · rw [if_neg (not_le.mpr hposted)]
    exact iff_of_true (built_of_two hcurrency hposted) hposted
  · rw [if_pos (not_lt.mp hposted)]
    exact iff_of_false nofun hposted

theorem adjustmentLine_builds_iff (hcurrency : ctx.NamesCurrency) :
    (∃ lines, adjustmentLinePostingRule.build ctx = .ok lines) ↔ ctx.grossMinor ≠ 0 := by
  unfold adjustmentLinePostingRule
  dsimp only
  split
  · next hzero => simp; omega
  · next hamount =>
      refine iff_of_true ?_ (by omega)
      split
      · exact built_of_two hcurrency (by omega)
      · exact built_of_two hcurrency (by omega)

end

/-- The rule of a line builds just on the amounts that it accepts. -/
theorem builds_iff {item : ReconciliationItem}
    (hcurrency : (SettlementPoster.context item).NamesCurrency) :
    (∃ lines, (postingRuleByLineType item.lineType).build (SettlementPoster.context item) =
      .ok lines) ↔ item.AmountsAccepted := by
  unfold ReconciliationItem.AmountsAccepted
  cases item.lineType with
  | sale => exact settlement_builds_iff hcurrency
  | refund => exact refund_builds_iff hcurrency
  | chargeback => exact absolute_builds_iff hcurrency acquirerFeeLegs_nonneg acquirerFeeLegs_balance
  | chargebackReversal =>
      exact absolute_builds_iff hcurrency acquirerFeeLegs_nonneg acquirerFeeLegs_balance
  | schemeFee => exact schemeFee_builds_iff hcurrency
  | adjustment => exact adjustmentLine_builds_iff hcurrency
  | reserveHold => exact absolute_builds_iff hcurrency nofun rfl
  | reserveRelease => exact absolute_builds_iff hcurrency nofun rfl

/-- The legs of a line are built once and validated twice. -/
theorem settleLines_ok_iff {item : ReconciliationItem}
    (hcurrency : (SettlementPoster.context item).NamesCurrency) :
    (∃ lines, SettlementPoster.settleLines item = .ok lines) ↔ item.AmountsAccepted := by
  rw [← builds_iff hcurrency]
  have hbalanced := balancedOrRefused_byLineType item.lineType (SettlementPoster.context item)
  unfold SettlementPoster.settleLines
  dsimp only
  cases hbuild : (postingRuleByLineType item.lineType).build (SettlementPoster.context item) with
  | error raised => simp
  | ok lines =>
      rw [hbuild] at hbalanced
      dsimp only
      rw [validate_of_balanced hbalanced]

/-! ## The accounts of the legs -/

/-- The account of every leg is in the chart. -/
def Charted (lines : List PostingLine) : Prop :=
  ∀ line ∈ lines, line.accountType.normalBalance ≠ none

theorem charted_built {purpose : Purpose} {ctx : PostingContext} {lines kept : List PostingLine}
    (charted : Charted lines) (h : PostingRule.built purpose ctx lines = .ok kept) :
    Charted kept := by
  obtain ⟨rfl, -⟩ := built_ok h
  exact fun line hline => charted line (List.mem_of_mem_filter hline)

theorem charted_pair {debited credited : AccountType} {amountMinor : Int}
    (hdebited : debited.normalBalance ≠ none) (hcredited : credited.normalBalance ≠ none) :
    Charted [debit debited amountMinor, credit credited amountMinor] := by
  intro line hline
  simp only [List.mem_cons, List.not_mem_nil, or_false] at hline
  rcases hline with rfl | rfl
  · exact hdebited
  · exact hcredited

theorem charted_nil : Charted [] :=
  nofun

theorem charted_append {lines more : List PostingLine} (first : Charted lines)
    (second : Charted more) : Charted (lines ++ more) := by
  intro line hline
  rcases List.mem_append.mp hline with hfirst | hsecond
  · exact first line hfirst
  · exact second line hsecond

theorem charted_acquirerFeeLegs (ctx : PostingContext) : Charted (acquirerFeeLegs ctx) := by
  unfold acquirerFeeLegs
  split
  · exact charted_pair (by decide) (by decide)
  · exact nofun

theorem charted_absolute {purpose : Purpose} {message : String} {debited credited : AccountType}
    {extra : PostingContext → List PostingLine} {ctx : PostingContext} {lines : List PostingLine}
    (hdebited : debited.normalBalance ≠ none) (hcredited : credited.normalBalance ≠ none)
    (hextra : Charted (extra ctx))
    (h : (absoluteRule purpose message debited credited extra).build ctx = .ok lines) :
    Charted lines := by
  unfold absoluteRule at h
  dsimp only at h
  split at h
  · cases h
  · exact charted_built (charted_append (charted_pair hdebited hcredited) hextra) h

theorem charted_byLineType {lineType : LineType} {ctx : PostingContext}
    {lines : List PostingLine} (h : (postingRuleByLineType lineType).build ctx = .ok lines) :
    Charted lines := by
  cases lineType with
  | sale =>
      unfold postingRuleByLineType settlementPostingRule at h
      dsimp only at h
      split at h
      · cases h
      · refine charted_built (fun line hline => ?_) h
        simp only [List.mem_cons, List.not_mem_nil, or_false] at hline
        rcases hline with rfl | rfl | rfl | rfl <;>
          exact ne_of_apply_ne Option.isSome (by simp [debit, credit, AccountType.normalBalance])
  | refund =>
      exact charted_built (charted_append (charted_pair (by decide) (by decide))
        (charted_acquirerFeeLegs ctx)) h
  | chargeback =>
      exact charted_absolute (by decide) (by decide) (charted_acquirerFeeLegs ctx) h
  | chargebackReversal =>
      exact charted_absolute (by decide) (by decide) (charted_acquirerFeeLegs ctx) h
  | schemeFee =>
      unfold postingRuleByLineType schemeFeePostingRule at h
      dsimp only at h
      generalize (if ctx.schemeFeeMinor ≠ 0 then ctx.schemeFeeMinor else ctx.grossMinor) =
        amountMinor at h
      split at h
      · cases h
      · exact charted_built (charted_pair (by decide) (by decide)) h
  | adjustment =>
      unfold postingRuleByLineType adjustmentLinePostingRule at h
      dsimp only at h
      split at h
      · cases h
      · split at h
        · exact charted_built (charted_pair (by decide) (by decide)) h
        · exact charted_built (charted_pair (by decide) (by decide)) h
  | reserveHold => exact charted_absolute (by decide) (by decide) charted_nil h
  | reserveRelease => exact charted_absolute (by decide) (by decide) charted_nil h

theorem settleLines_sound {item : ReconciliationItem} {lines : List PostingLine}
    (h : SettlementPoster.settleLines item = .ok lines) : Balanced lines ∧ Charted lines := by
  have hbalanced := balancedOrRefused_byLineType item.lineType (SettlementPoster.context item)
  unfold SettlementPoster.settleLines at h
  dsimp only at h
  cases hbuild : (postingRuleByLineType item.lineType).build (SettlementPoster.context item) with
  | error raised =>
      rw [hbuild] at h
      cases h
  | ok built =>
      rw [hbuild] at h hbalanced
      dsimp only at h
      rw [validate_of_balanced hbalanced] at h
      cases h
      exact ⟨hbalanced, charted_byLineType hbuild⟩

/-! ## The item at the acquirer's word -/

/-- The item, if it is matched, is to a charge of a merchant within whose tolerance it is,
its identifiers make keys, and all accounts take postings. -/
structure ReconciliationItem.Unhindered (item : ReconciliationItem) (db : Database) : Prop where
  currency : (SettlementPoster.context item).NamesCurrency
  settleKey : ∃ key, ledgerKey "settle" item.batchId item.id = .ok key
  captureKey : ∀ chargeId, item.chargeId = some chargeId →
    ∃ key, ledgerKey "capture" item.batchId chargeId = .ok key
  charge : ∀ chargeId, item.chargeId = some chargeId →
    ∃ charge ∈ db.charges, charge.chargeId = chargeId
  merchant : item.chargeId ≠ none →
    ∃ merchant ∈ db.merchants, item.merchantId = some merchant.merchantId
  tolerated : ∀ merchant ∈ db.merchants, item.merchantId = some merchant.merchantId →
    |item.varianceMinor| ≤ merchant.settlementToleranceMinor
  accounts : ∀ type : AccountType,
    AccountOpen (if type.isPlatform then none else item.merchantId) type item.currency
      item.livemode db
  -- The foreign key of the entries.
  headed : ∀ entry ∈ db.entries, ∃ transaction ∈ db.transactions,
    transaction.id = entry.transactionId

/-- Alone and with the acquirers agreeing, the posting of the item ends, and only by
settling it. -/
def SettlementPoster.Settles (settings : Settings) (item : ReconciliationItem) (caller : Caller)
    (db : Database) : Prop :=
  (∃ settled db', FairlyFinishes (Y := system) confirming db
    (Async.withSession .ledgerCalls (postSettlement settings item caller)).run
    (.ok settled) db') ∧
  ∀ result db', FairlyFinishes (Y := system) confirming db
    (Async.withSession .ledgerCalls (postSettlement settings item caller)).run result db' →
    ∃ settled, result = .ok settled

namespace SettlementPoster

variable {settings : Settings} {item : ReconciliationItem} {caller : Caller} {db : Database}
  {past : List Choice} {view : Database}

/-- The acquirer confirms. -/
theorem attains_confirm {ok : Unit → List Choice → Database → Prop}
    {error : Exception → List Choice → Database → Prop}
    (h : ∀ choice, ok () (past ++ [choice]) view) :
    attains (Y := system) confirming (confirm item) ok error past view := by
  refine attains_bind (attains_call
    (fun world => ⟨world, .plain, (.ok (), world), .refl _, trivial, rfl⟩)
    fun world choice answer hfair hanswer => ?_)
  cases choice with
  | plain =>
      cases hanswer
      exact attains_pure (h _)
  | fails raised => exact hfair.elim
  | _ => cases hanswer

/-- The acquirer captures. -/
theorem attains_capture {charge : SettlementCharge} {chargeId key : String}
    {ok : Unit → List Choice → Database → Prop}
    {error : Exception → List Choice → Database → Prop}
    (hkey : ledgerKey "capture" item.batchId chargeId = .ok key)
    (h : ∀ choice, ok () (past ++ [choice]) view) :
    attains (Y := system) confirming (capture item charge chargeId) ok error past view := by
  refine attains_bind (Async.attains_check hkey ?_)
  refine attains_bind (attains_call
    (fun world => ⟨world, .capture (.captured key), _, .refl _, trivial, rfl⟩)
    fun world choice answer hfair hanswer => ?_)
  cases choice with
  | capture outcome =>
      cases outcome with
      | captured reference =>
          cases hanswer
          exact attains_bind (attains_pure (attains_pure (h _)))
      | _ => exact hfair.elim
  | _ => cases hanswer

theorem attains_publishItemEvent {type stampName : String} {payload : List (String × Json)}
    {ok : Unit → List Choice → Database → Prop}
    {error : Exception → List Choice → Database → Prop}
    (h : ∀ past' view', ok () past' view') :
    attains (Y := system) confirming (publishItemEvent type stampName item payload) ok error
      past view :=
  attains_bind (Async.attains_now orderly_confirming fun _ _ _ =>
    OutboxPublisher.attains_publish orderly_confirming fun past' view' _ _ => h past' view')

theorem attains_publishDuplicate {key : String} {existing : LedgerTransaction}
    {ok : Unit → List Choice → Database → Prop}
    {error : Exception → List Choice → Database → Prop}
    (h : ∀ past' view', ok () past' view') :
    attains (Y := system) confirming (publishDuplicate settings item key existing caller) ok error
      past view := by
  unfold publishDuplicate
  refine attains_bind (attains_publishItemEvent fun past' view' => ?_)
  cases settings.flagDuplicateSettlementAlarm with
  | false => exact attains_pure (h _ _)
  | true =>
      refine attains_bind (attains_call
        (fun world => ⟨world, .plain, (.ok (), world), .refl _, trivial, rfl⟩)
        fun world choice answer hfair hanswer => ?_)
      cases choice with
      | plain =>
          cases hanswer
          exact attains_pure (h _ _)
      | fails raised => exact hfair.elim
      | _ => cases hanswer

theorem attains_afterClaim {charge : SettlementCharge} {chargeId key captureKey : String}
    {posted : PostResult} {ok : SettlementResult → List Choice → Database → Prop}
    {error : Exception → List Choice → Database → Prop}
    (hkey : ledgerKey "capture" item.batchId chargeId = .ok captureKey)
    (h : ∀ settled past' view', ok settled past' view') :
    attains (Y := system) confirming
      (afterClaim settings item charge chargeId key caller posted) ok error past view := by
  unfold afterClaim
  cases posted.created with
  | true =>
      cases charge.captureAtSettlement with
      | true =>
          refine attains_bind (attains_capture hkey fun choice => ?_)
          exact attains_bind (attains_publishItemEvent fun _ _ => attains_pure (h _ _ _))
      | false => exact attains_bind (attains_publishItemEvent fun _ _ => attains_pure (h _ _ _))
  | false => exact attains_bind (attains_publishDuplicate fun _ _ => attains_pure (h _ _ _))

/-- What the legs of a line post. -/
theorem postable_settleRequest (unhindered : item.Unhindered db) {key : String}
    {lines : List PostingLine} (hlines : settleLines item = .ok lines) :
    LedgerPoster.Postable (settleRequest settings item key lines) db where
  balanced := (settleLines_sound hlines).1
  known := (settleLines_sound hlines).2
  accounts line _ := unhindered.accounts line.accountType
  headed := unhindered.headed

/-- Up to the legs nothing stands in the way of a matched item. -/
theorem attains_postSettlement (unhindered : item.Unhindered db) {chargeId : String}
    (hmatched : item.chargeId = some chargeId)
    {ok : SettlementResult → List Choice → Database → Prop}
    {error : Exception → List Choice → Database → Prop}
    (hrefused : ∀ raised past', settleLines item = .error raised → error raised past' db)
    (hsettled : ∀ lines, settleLines item = .ok lines →
      ∀ settled past' view', ok settled past' view') :
    attains (Y := system) confirming (postSettlement settings item caller) ok error past db := by
  obtain ⟨key, hkey⟩ := unhindered.settleKey
  obtain ⟨captureKey, hcaptureKey⟩ := unhindered.captureKey chargeId hmatched
  obtain ⟨held, hheld, hchargeId⟩ := unhindered.charge chargeId hmatched
  obtain ⟨owner, howner, hmerchantId⟩ := unhindered.merchant (by simp [hmatched])
  unfold postSettlement
  refine attains_bind (attains_mark fun choice => ?_)
  refine attains_bind (attains_confirm fun choice' => ?_)
  rw [hmatched]
  refine attains_bind (Async.attains_check hkey ?_)
  refine attains_bind (Async.attains_getOrRaise orderly_confirming ⟨held, hheld, ?_⟩
    fun choice charge _ _ => ?_)
  · exact List.mem_singleton.mpr (by rw [hchargeId])
  rw [hmerchantId]
  refine attains_bind (Async.attains_getOrRaise orderly_confirming ⟨owner, howner, ?_⟩
    fun choice merchant hmerchant hmerchantKey => ?_)
  · exact List.mem_singleton.mpr rfl
  have hsame : Key.merchant owner.merchantId = Key.merchant merchant.merchantId :=
    List.mem_singleton.mp hmerchantKey
  have htolerated := unhindered.tolerated merchant hmerchant
    (by rw [hmerchantId, Key.merchant.inj hsame])
  rw [if_neg (not_lt.mpr htolerated)]
  cases hlines : settleLines item with
  | error raised =>
      exact attains_bind (Async.attains_check_error rfl (hrefused raised _ hlines))
  | ok lines =>
      refine attains_bind (Async.attains_check rfl ?_)
      refine attains_bind (LedgerPoster.attains_post orderly_confirming rfl
        (postable_settleRequest unhindered hlines) fun posted past' view' => ?_)
      exact attains_afterClaim hcaptureKey (hsettled lines hlines)

/-- An item without a charge is orphaned, whatever its type. -/
theorem attains_postSettlement_orphan (horphan : item.chargeId = none)
    {ok : SettlementResult → List Choice → Database → Prop}
    {error : Exception → List Choice → Database → Prop}
    (h : ∀ raised past', error raised past' view) :
    attains (Y := system) confirming (postSettlement settings item caller) ok error past view := by
  unfold postSettlement
  refine attains_bind (attains_mark fun choice => ?_)
  refine attains_bind (attains_confirm fun choice' => ?_)
  rw [horphan]
  exact attains_throw (h _ _)

/-- A settlement that is sure to end with a result of this kind. -/
theorem finishes_of_attains (settings : Settings) (caller : Caller)
    (holds : Except Exception SettlementResult → Prop)
    (h : ∀ past, attains (Y := system) confirming (postSettlement settings item caller)
      (fun settled _ _ => holds (.ok settled)) (fun raised _ _ => holds (.error raised)) past db) :
    (∃ result db', FairlyFinishes (Y := system) confirming db
      (Async.withSession .ledgerCalls (postSettlement settings item caller)).run result db' ∧
      holds result) ∧
    ∀ result db', FairlyFinishes (Y := system) confirming db
      (Async.withSession .ledgerCalls (postSettlement settings item caller)).run result db' →
      holds result := by
  refine sure.finishes orderly_confirming.live (fun result _ => holds result) fun world => ?_
  refine sure_session fun choice => attains_mono (h _) ?_ ?_
  · exact fun settled past' view' hholds world' choice' => ⟨rfl, hholds⟩
  · exact fun raised past' view' hholds world' choice' => ⟨rfl, hholds⟩

theorem settles_of_lines (settings : Settings) (caller : Caller) (unhindered : item.Unhindered db)
    (hmatched : item.chargeId ≠ none) {lines : List PostingLine}
    (hlines : settleLines item = .ok lines) : Settles settings item caller db := by
  obtain ⟨chargeId, hchargeId⟩ := Option.ne_none_iff_exists'.mp hmatched
  obtain ⟨⟨result, db', hfinishes, settled, rfl⟩, hevery⟩ := finishes_of_attains settings caller
    (fun result => ∃ settled, result = .ok settled) fun past =>
      attains_postSettlement unhindered hchargeId
        (fun raised _ hraised => by rw [hlines] at hraised; cases hraised)
        (fun _ _ settled _ _ => ⟨settled, rfl⟩)
  exact ⟨⟨settled, db', hfinishes⟩, hevery⟩

/-- What raises in every run does not settle. -/
theorem not_settles (h : ∀ past, attains (Y := system) confirming
      (postSettlement settings item caller) (fun _ _ _ => False) (fun _ _ _ => True) past db) :
    ¬ Settles settings item caller db := by
  rintro ⟨⟨settled, db', hfinishes⟩, -⟩
  have hraises := finishes_of_attains settings caller
    (fun result => ∃ raised, result = .error raised)
    fun past => attains_mono (h past) (fun _ _ _ => False.elim) fun raised _ _ _ => ⟨raised, rfl⟩
  obtain ⟨raised, hraised⟩ := hraises.2 _ _ hfinishes
  cases hraised

theorem not_settles_orphan (horphan : item.chargeId = none) :
    ¬ Settles settings item caller db :=
  not_settles fun _ => attains_postSettlement_orphan horphan fun _ _ => trivial

theorem not_settles_refused (unhindered : item.Unhindered db) {raised : Exception}
    (hrefused : settleLines item = .error raised) : ¬ Settles settings item caller db := by
  cases hcharge : item.chargeId with
  | none => exact not_settles_orphan hcharge
  | some chargeId =>
      refine not_settles fun past => attains_postSettlement unhindered hcharge
        (fun _ _ _ => trivial) fun lines hlines => ?_
      rw [hrefused] at hlines
      cases hlines

/-- An item that nothing hinders settles just when it has a charge and the rule of its type
accepts its amounts. -/
theorem settles_iff (settings : Settings) (item : ReconciliationItem) (caller : Caller)
    (db : Database) (unhindered : item.Unhindered db) :
    Settles settings item caller db ↔ item.chargeId ≠ none ∧ item.AmountsAccepted := by
  rw [← settleLines_ok_iff unhindered.currency]
  constructor
  · intro hsettles
    refine ⟨fun horphan => not_settles_orphan horphan hsettles, ?_⟩
    cases hlines : settleLines item with
    | ok lines => exact ⟨lines, rfl⟩
    | error raised => exact (not_settles_refused unhindered hlines hsettles).elim
  · rintro ⟨hmatched, lines, hlines⟩
    exact settles_of_lines settings caller unhindered hmatched hlines

/-- A line of the small settlement, matched or not, of any type and any fees. -/
theorem unhindered_sampleItem (items : List ReconciliationItem) (captureAtSettlement : Bool)
    {chargeId : Option String} (hcharge : chargeId = none ∨ chargeId = some "ch_1")
    (lineType : LineType) (feeMinor schemeFeeMinor : Int) :
    ({ sampleItem "ri_1" "sb_1" with
        chargeId, lineType, feeMinor, schemeFeeMinor
        merchantId := chargeId.map fun _ => "mer_1" } : ReconciliationItem).Unhindered
      (sampleSettlement items captureAtSettlement) where
  currency := by
    have hletter : 'E' ∈ "EUR".toList := by decide
    exact ⟨'E', hletter, by decide⟩
  settleKey := by
    have hkey : ledgerKey "settle" "sb_1" "ri_1" = .ok "settle:sb_1:ri_1" := rfl
    exact ⟨_, hkey⟩
  captureKey := by
    have hkey : ledgerKey "capture" "sb_1" "ch_1" = .ok "capture:sb_1:ch_1" := rfl
    rintro other rfl
    rcases hcharge with hnone | hsome
    · cases hnone
    · cases hsome
      exact ⟨_, hkey⟩
  charge := by
    rintro other rfl
    rcases hcharge with hnone | hsome
    · cases hnone
    · cases hsome
      exact ⟨sampleCharge captureAtSettlement, List.mem_singleton.mpr rfl, rfl⟩
  merchant hmatched := by
    rcases hcharge with rfl | rfl
    · exact absurd rfl hmatched
    · exact ⟨sampleMerchant, List.mem_singleton.mpr rfl, rfl⟩
  tolerated merchant hmerchant _ := by
    rw [List.mem_singleton.mp hmerchant]
    have hexact : |(0 : Int)| ≤ 0 := by decide
    exact hexact
  accounts _ _ haccount := nomatch haccount
  headed _ hentry := nomatch hentry

theorem settles_iff_sampleItem :
    Settles sampleSettings (sampleItem "ri_1" "sb_1") .batchPass
        (sampleSettlement [sampleItem "ri_1" "sb_1"] true) ↔
      (sampleItem "ri_1" "sb_1").chargeId ≠ none ∧ (sampleItem "ri_1" "sb_1").AmountsAccepted :=
  settles_iff sampleSettings _ .batchPass _
    (unhindered_sampleItem _ true (.inr rfl) .sale 30 0)

/-- A matched sale without a fee is refused, and a scheme fee, which has no charge, orphaned. -/
theorem line_types_stranded :
    ∃ (zeroFeeSale schemeFee : ReconciliationItem) (db : Database),
      zeroFeeSale.Unhindered db ∧ zeroFeeSale.lineType = .sale ∧ zeroFeeSale.chargeId ≠ none ∧
      zeroFeeSale.feeMinor = 0 ∧ ¬ Settles sampleSettings zeroFeeSale .batchPass db ∧
      schemeFee.Unhindered db ∧ schemeFee.lineType = .schemeFee ∧ 0 < schemeFee.schemeFeeMinor ∧
      ¬ Settles sampleSettings schemeFee .batchPass db := by
  let zeroFeeSale : ReconciliationItem :=
    { sampleItem "ri_1" "sb_1" with
      chargeId := some "ch_1", lineType := .sale, feeMinor := 0, schemeFeeMinor := 0 }
  let schemeFee : ReconciliationItem :=
    { sampleItem "ri_1" "sb_1" with
      chargeId := none, merchantId := none, lineType := .schemeFee, feeMinor := 0
      schemeFeeMinor := 500 }
  have hsale : zeroFeeSale.Unhindered (sampleSettlement [] true) :=
    unhindered_sampleItem [] true (.inr rfl) .sale 0 0
  have hschemeFee : schemeFee.Unhindered (sampleSettlement [] true) :=
    unhindered_sampleItem [] true (.inl rfl) .schemeFee 0 500
  exact ⟨zeroFeeSale, schemeFee, sampleSettlement [] true, hsale, rfl, nofun, rfl,
    not_settles_refused hsale rfl, hschemeFee, rfl, by decide, not_settles_orphan rfl⟩

end SettlementPoster

end PayzenoLedger
