import PayzenoLedger.Domain.Movements

/-!
# The registered posting rules

The remaining rules and the two tables that services look a rule up in.  Whatever
the context, a rule either refuses it with an error of the service or returns legs that
balance; the capture rule in addition splits the captured amount exactly.
-/

set_option autoImplicit false

namespace PayzenoLedger

open Library

/-! ## The remaining rules -/

/-- A fee of its own, such as a monthly minimum; the fee wins over the gross. -/
def feePostingRule : PostingRule where
  purpose := .fee
  build ctx :=
    let amountMinor := if ctx.feeMinor ≠ 0 then ctx.feeMinor else ctx.grossMinor
    if amountMinor ≤ 0 then
      .error (ruleError .validationError "a fee posting needs a positive amount"
        [("fee_minor", .int ctx.feeMinor), ("gross_minor", .int ctx.grossMinor),
         merchantDetail ctx])
    else
      PostingRule.built .fee ctx
        [debit .merchantPayable amountMinor, credit .platformFeeRevenue amountMinor]

/-- A refund that payzeno-api asked for, against the batch or, once settled, the bank. -/
def refundPostingRule (settled : Bool) : PostingRule :=
  positiveRule .refund "a refund posting needs a positive amount" .merchantPayable
    (if settled then .cash else .processorClearing)

/-- The legs of another transaction with every direction flipped. -/
def reversalPostingRule (original : List PostingLine) : PostingRule where
  purpose := .reversal
  build ctx :=
    if original.isEmpty then
      .error (ruleError .validationError "a reversal needs the original transaction's lines"
        [merchantDetail ctx, ("currency", .text ctx.currency)])
    else PostingRule.built .reversal ctx (mirrored original)

/-- The legs of an approved adjustment request. -/
def adjustmentPostingRule (requested : List PostingLine) : PostingRule where
  purpose := .adjustment
  build ctx :=
    if requested.isEmpty then
      .error (ruleError .validationError "an adjustment needs at least one approved line"
        [merchantDetail ctx, ("currency", .text ctx.currency)])
    else PostingRule.built .adjustment ctx requested

/-- `POSTING_RULE_BY_PURPOSE`. -/
def postingRuleByPurpose (currencies : List String) : Purpose → PostingRule
  | .auth => authPostingRule
  | .authRelease => authReleasePostingRule
  | .capture => capturePostingRule currencies
  | .settle => settlementPostingRule
  | .settlementFunding => settlementFundingPostingRule
  | .fee => feePostingRule
  | .refund => refundPostingRule false
  | .dispute => disputePostingRule
  | .reserveRelease => reserveReleasePostingRule
  | .payout => payoutPostingRule
  | .payoutReversal => payoutReversalPostingRule
  | .reversal => reversalPostingRule []
  | .adjustment => adjustmentPostingRule []

/-- The rules of the service: those of the two tables, those of a converted payout, and
those that are made for one refund, transaction or request. -/
inductive PostingRule.Registered (currencies : List String) : PostingRule → Prop
  | byPurpose (purpose : Purpose) : Registered currencies (postingRuleByPurpose currencies purpose)
  | byLineType (lineType : LineType) : Registered currencies (postingRuleByLineType lineType)
  | fxSource : Registered currencies fxPayoutSourcePostingRule
  | fxTarget : Registered currencies fxPayoutTargetPostingRule
  | refund (settled : Bool) : Registered currencies (refundPostingRule settled)
  | reversal (original : List PostingLine) : Registered currencies (reversalPostingRule original)
  | adjustment (requested : List PostingLine) :
      Registered currencies (adjustmentPostingRule requested)

/-! ## Balanced or refused -/

/-- A value of a `BIGINT` column. -/
def isBigInteger (value : Int) : Bool :=
  decide (-2 ^ 63 ≤ value ∧ value < 2 ^ 63)

/-- A value of an `INTEGER` column. -/
def isInteger (value : Int) : Bool :=
  decide (-2 ^ 31 ≤ value ∧ value < 2 ^ 31)

/-- Amounts and rates as the columns hold them. -/
structure PostingContext.Stored (ctx : PostingContext) : Prop where
  gross : isBigInteger ctx.grossMinor = true
  fee : isBigInteger ctx.feeMinor = true
  net : isBigInteger ctx.netMinor = true
  interchange : isBigInteger ctx.interchangeMinor = true
  schemeFee : isBigInteger ctx.schemeFeeMinor = true
  platformFeeFixed : isBigInteger ctx.platformFeeFixedMinor = true
  platformFeeBps : isInteger ctx.platformFeeBps = true
  reserveBps : isInteger ctx.reserveBps = true

/-- Legs that balance, or an error of the service. -/
def BalancedOrRefused : Except Exception (List PostingLine) → Prop
  | .ok lines => Balanced lines
  | .error raised => raised.isInstance .payzenoLedgerError = true

/-- What the legs move to the three expense accounts of an acquirer's fee. -/
def expenseMinor (lines : List PostingLine) : Int :=
  netMovement .interchangeExpense lines + netMovement .schemeFeeExpense lines +
    netMovement .acquirerFeeExpense lines

/-- What is raised is an error of the service. -/
def RefusesOnly {α : Type} (result : Except Exception α) : Prop :=
  ∀ raised, result = .error raised → raised.isInstance .payzenoLedgerError = true

theorem balancedOrRefused_bind {α : Type} {result : Except Exception α}
    {next : α → Except Exception (List PostingLine)} (refuses : RefusesOnly result)
    (hnext : ∀ value, result = .ok value → BalancedOrRefused (next value)) :
    BalancedOrRefused (result >>= next) := by
  cases result with
  | ok value => exact hnext value rfl
  | error raised => exact refuses raised rfl

theorem validatePositive_refusesOnly (purpose : Purpose) (sequence : Nat)
    (lines : List PostingLine) :
    RefusesOnly (PostingRule.validatePositive purpose sequence lines) := by
  induction lines generalizing sequence with
  | nil => rintro raised ⟨⟩
  | cons line lines ih =>
      unfold PostingRule.validatePositive
      split
      · rintro raised ⟨⟩
        rfl
      · exact ih (sequence + 1)

theorem validate_refusesOnly (purpose : Purpose) (lines : List PostingLine) :
    RefusesOnly (PostingRule.validate purpose lines) := by
  unfold PostingRule.validate
  split
  · rintro raised ⟨⟩
    rfl
  · split
    · next raised hpositive =>
        rintro _ ⟨⟩
        exact validatePositive_refusesOnly purpose 0 lines raised hpositive
    · dsimp only
      split
      · rintro raised ⟨⟩
        rfl
      · rintro raised ⟨⟩

/-- What is built balances, or is refused. -/
theorem balancedOrRefused_built (purpose : Purpose) (ctx : PostingContext)
    (lines : List PostingLine) : BalancedOrRefused (PostingRule.built purpose ctx lines) := by
  cases hbuilt : PostingRule.built purpose ctx lines with
  | ok kept => exact (built_ok hbuilt).2
  | error raised =>
      unfold PostingRule.built at hbuilt
      dsimp only at hbuilt
      split at hbuilt
      · next raised hvalidate =>
          cases hbuilt
          exact validate_refusesOnly purpose _ _ hvalidate
      · split at hbuilt
        · cases hbuilt
          rfl
        · cases hbuilt

/-- Most rules check one thing of the context themselves. -/
theorem balancedOrRefused_guarded {refused : Prop} [Decidable refused] (message : String)
    (details : List (String × Json)) (purpose : Purpose) (ctx : PostingContext)
    (lines : List PostingLine) :
    BalancedOrRefused (if refused then .error (ruleError .validationError message details)
      else PostingRule.built purpose ctx lines) := by
  split
  · rfl
  · exact balancedOrRefused_built purpose ctx lines

theorem checkCurrency_refusesOnly (currencies : List String) (currency : String) :
    RefusesOnly (checkCurrency currencies currency) := by
  unfold checkCurrency
  split
  · rintro raised ⟨⟩
  · rintro raised ⟨⟩
    rfl

/-- An amount and a rate of these columns stay within what the context can round. -/
theorem applyBps_refusesOnly {amountMinor bps : Int} (hamount : isBigInteger amountMinor = true)
    (hbps : isInteger bps = true) : RefusesOnly (applyBps amountMinor bps) := by
  simp only [isBigInteger, isInteger, decide_eq_true_eq] at hamount hbps
  by_cases hsign : bps < 0
  · unfold applyBps
    rw [if_pos hsign]
    rintro raised ⟨⟩
    rfl
  · have hproduct : (amountMinor * bps).natAbs < 10 ^ (decimalPrecision + 2) := by
      rw [Int.natAbs_mul]
      calc amountMinor.natAbs * bps.natAbs ≤ 2 ^ 63 * 2 ^ 31 :=
            Nat.mul_le_mul (by omega) (by omega)
        _ < 10 ^ (decimalPrecision + 2) := by norm_num [decimalPrecision]
    obtain ⟨quantised, hquantised⟩ := applyBps_total (not_lt.mp hsign) hproduct
    rw [hquantised]
    rintro raised ⟨⟩

theorem computePlatformFee_refusesOnly {grossMinor bps : Int} (fixedMinor : Int)
    (hgross : isBigInteger grossMinor = true) (hbps : isInteger bps = true) :
    RefusesOnly (computePlatformFee grossMinor bps fixedMinor) := by
  unfold computePlatformFee
  split
  · rintro raised ⟨⟩
    rfl
  · intro raised hraised
    cases hrate : applyBps grossMinor bps with
    | error error =>
        rw [hrate] at hraised
        cases hraised
        exact applyBps_refusesOnly hgross hbps _ hrate
    | ok value =>
        rw [hrate] at hraised
        cases hraised

theorem balancedOrRefused_capture (currencies : List String) {ctx : PostingContext}
    (stored : ctx.Stored) : BalancedOrRefused ((capturePostingRule currencies).build ctx) := by
  refine balancedOrRefused_bind (checkCurrency_refusesOnly _ _) fun _ _ => ?_
  refine balancedOrRefused_bind
    (computePlatformFee_refusesOnly _ stored.gross stored.platformFeeBps) fun markup _ => ?_
  refine balancedOrRefused_bind
    (applyBps_refusesOnly stored.gross stored.reserveBps) fun reserve _ => ?_
  dsimp only
  split
  · rfl
  · exact balancedOrRefused_built _ _ _

theorem balancedOrRefused_byLineType (lineType : LineType) (ctx : PostingContext) :
    BalancedOrRefused ((postingRuleByLineType lineType).build ctx) := by
  cases lineType with
  | sale => exact balancedOrRefused_guarded _ _ _ _ _
  | refund => exact balancedOrRefused_built _ _ _
  | chargeback => exact balancedOrRefused_guarded _ _ _ _ _
  | chargebackReversal => exact balancedOrRefused_guarded _ _ _ _ _
  | schemeFee => exact balancedOrRefused_guarded _ _ _ _ _
  | adjustment => exact balancedOrRefused_guarded _ _ _ _ _
  | reserveHold => exact balancedOrRefused_guarded _ _ _ _ _
  | reserveRelease => exact balancedOrRefused_guarded _ _ _ _ _

theorem balancedOrRefused_byPurpose (currencies : List String) (purpose : Purpose)
    {ctx : PostingContext} (stored : ctx.Stored) :
    BalancedOrRefused ((postingRuleByPurpose currencies purpose).build ctx) := by
  cases purpose with
  | auth => exact balancedOrRefused_built _ _ _
  | authRelease => exact balancedOrRefused_built _ _ _
  | capture => exact balancedOrRefused_capture currencies stored
  | settle => exact balancedOrRefused_guarded _ _ _ _ _
  | settlementFunding => exact balancedOrRefused_built _ _ _
  | fee => exact balancedOrRefused_guarded _ _ _ _ _
  | refund => exact balancedOrRefused_guarded _ _ _ _ _
  | dispute => exact balancedOrRefused_guarded _ _ _ _ _
  | reserveRelease => exact balancedOrRefused_guarded _ _ _ _ _
  | payout => exact balancedOrRefused_guarded _ _ _ _ _
  | payoutReversal => exact balancedOrRefused_guarded _ _ _ _ _
  | reversal => rfl
  | adjustment => rfl

theorem balancedOrRefused_fxTarget (ctx : PostingContext) :
    BalancedOrRefused (fxPayoutTargetPostingRule.build ctx) := by
  simp only [fxPayoutTargetPostingRule]
  split
  · rfl
  · exact balancedOrRefused_guarded _ _ _ _ _

/-- The three expenses of a sale line are the line's fee: each component is clamped to
what the fee leaves for it, and the markup is the rest. -/
theorem expenseMinor_settlement {ctx : PostingContext} {lines : List PostingLine}
    (h : settlementPostingRule.build ctx = .ok lines) : expenseMinor lines = ctx.feeMinor := by
  simp only [settlementPostingRule] at h
  split at h
  · cases h
  · unfold expenseMinor
    rw [netMovement_built h, netMovement_built h, netMovement_built h]
    simp only [netMovement_debit, netMovement_credit, netMovement_nil, reduceCtorEq, if_true,
      if_false]
    unfold acquirerMarkupMinor
    dsimp only
    split <;> omega

/-- Every rule of the service builds legs that balance or refuses the context, and the
expenses of a settled line are its fee. -/
theorem registered_rules_balance {currencies : List String} {rule : PostingRule}
    (registered : rule.Registered currencies) {ctx : PostingContext} (stored : ctx.Stored) :
    BalancedOrRefused (rule.build ctx) ∧ ∀ lines, rule.purpose = .settle →
      rule.build ctx = .ok lines → expenseMinor lines = ctx.feeMinor := by
  cases registered with
  | byPurpose purpose =>
      refine ⟨balancedOrRefused_byPurpose currencies purpose stored, fun lines hsettle h => ?_⟩
      cases purpose
      case settle => exact expenseMinor_settlement h
      all_goals cases hsettle
  | byLineType lineType =>
      refine ⟨balancedOrRefused_byLineType lineType ctx, fun lines hsettle h => ?_⟩
      cases lineType
      case sale => exact expenseMinor_settlement h
      all_goals cases hsettle
  | fxSource =>
      exact ⟨balancedOrRefused_guarded _ _ _ _ _, fun _ hsettle => nomatch hsettle⟩
  | fxTarget => exact ⟨balancedOrRefused_fxTarget ctx, fun _ hsettle => nomatch hsettle⟩
  | refund settled =>
      exact ⟨balancedOrRefused_guarded _ _ _ _ _, fun _ hsettle => nomatch hsettle⟩
  | reversal original =>
      exact ⟨balancedOrRefused_guarded _ _ _ _ _, fun _ hsettle => nomatch hsettle⟩
  | adjustment requested =>
      exact ⟨balancedOrRefused_guarded _ _ _ _ _, fun _ hsettle => nomatch hsettle⟩

/-- A sale line whose interchange is more than its fee. -/
def sampleSaleContext : PostingContext where
  merchantId := some "mer_1"
  currency := "EUR"
  grossMinor := 10000
  feeMinor := 290
  netMinor := 9710
  interchangeMinor := 400
  schemeFeeMinor := -13

theorem registered_rules_balance_sale : ∃ lines,
    settlementPostingRule.build sampleSaleContext = .ok lines ∧ Balanced lines ∧
      expenseMinor lines = 290 := by
  have registered : settlementPostingRule.Registered ["EUR"] := .byLineType .sale
  have stored : sampleSaleContext.Stored := by constructor <;> decide
  obtain ⟨hbalanced, hexpense⟩ := registered_rules_balance registered stored
  exact ⟨_, rfl, hbalanced, hexpense _ rfl rfl⟩

/-! ## When a rule succeeds -/

theorem validatePositive_of_pos {purpose : Purpose} {sequence : Nat} {lines : List PostingLine}
    (h : ∀ line ∈ lines, 0 < line.amountMinor) :
    PostingRule.validatePositive purpose sequence lines = .ok () := by
  induction lines generalizing sequence with
  | nil => rfl
  | cons line lines ih =>
      obtain ⟨hline, hrest⟩ := List.forall_mem_cons.mp h
      unfold PostingRule.validatePositive
      rw [if_neg (by omega), ih hrest]

theorem validate_of_balanced {purpose : Purpose} {lines : List PostingLine}
    (balanced : Balanced lines) : PostingRule.validate purpose lines = .ok () := by
  have hdelta : (lines.map PostingLine.signedMinor).sum = 0 := by
    rw [← sideTotal_sub, balanced.balance, sub_self]
  unfold PostingRule.validate
  rw [if_neg (by have := balanced.two; omega), validatePositive_of_pos balanced.positive]
  simp [hdelta]

/-- The context names a currency. -/
def PostingContext.NamesCurrency (ctx : PostingContext) : Prop :=
  ∃ letter ∈ ctx.currency.toList, Library.isSpace letter = false

theorem built_of_balanced {purpose : Purpose} {ctx : PostingContext} {lines : List PostingLine}
    (hcurrency : ctx.NamesCurrency)
    (balanced : Balanced (lines.filter fun line => line.amountMinor ≠ 0)) :
    PostingRule.built purpose ctx lines =
      .ok (lines.filter fun line => line.amountMinor ≠ 0) := by
  have hblank : ¬ (ctx.currency ≠ "" ∧ ctx.currency.toList.all Library.isSpace) := by
    rintro ⟨-, hall⟩
    obtain ⟨letter, hletter, hspace⟩ := hcurrency
    rw [List.all_eq_true.mp hall letter hletter] at hspace
    cases hspace
  unfold PostingRule.built
  dsimp only
  rw [validate_of_balanced balanced]
  exact if_neg hblank

theorem sideTotal_filter (direction : Direction) (lines : List PostingLine) :
    sideTotal direction (lines.filter fun line => line.amountMinor ≠ 0) =
      sideTotal direction lines := by
  induction lines with
  | nil => rfl
  | cons line lines ih =>
      by_cases hzero : line.amountMinor = 0
      · rw [List.filter_cons_of_neg (by simpa using hzero), ih]
        unfold sideTotal
        rw [List.filter_cons]
        split
        · rw [List.map_cons, List.sum_cons, hzero, zero_add]
        · rfl
      · rw [List.filter_cons_of_pos (by simpa using hzero)]
        unfold sideTotal at ih ⊢
        rw [List.filter_cons, List.filter_cons]
        split
        · rw [List.map_cons, List.sum_cons, ih, List.map_cons, List.sum_cons]
        · exact ih

/-- Legs that move something, none of them backwards, and as much in as out. -/
theorem balanced_filter {lines : List PostingLine} (hnonneg : ∀ line ∈ lines, 0 ≤ line.amountMinor)
    (hbalance : sideTotal .debit lines = sideTotal .credit lines)
    (hmoves : 0 < sideTotal .debit lines) :
    Balanced (lines.filter fun line => line.amountMinor ≠ 0) := by
  have hdebit := sideTotal_filter .debit lines
  have hcredit := sideTotal_filter .credit lines
  constructor
  · cases hkept : lines.filter fun line => line.amountMinor ≠ 0 with
    | nil =>
        rw [hkept] at hdebit
        rw [← hdebit] at hmoves
        simp [sideTotal] at hmoves
    | cons line rest =>
        cases rest with
        | nil =>
            rw [hkept] at hdebit hcredit
            cases hdirection : line.direction with
            | debit =>
                have hzero : sideTotal .credit [line] = 0 := by simp [sideTotal, hdirection]
                omega
            | credit =>
                have hzero : sideTotal .debit [line] = 0 := by simp [sideTotal, hdirection]
                omega
        | cons other rest => simp
  · rw [hdebit, hcredit, hbalance]
  · intro line hline
    obtain ⟨hmem, hzero⟩ := List.mem_filter.mp hline
    have hnonzero : line.amountMinor ≠ 0 := by simpa using hzero
    have := hnonneg line hmem
    omega

/-! ## The split of a captured amount -/

/-- Payzeno's take, capped at the captured amount. -/
def captureFeeMinor (ctx : PostingContext) : Int :=
  min (roundHalfUp (ctx.grossMinor * ctx.platformFeeBps) 10000 + ctx.platformFeeFixedMinor)
    ctx.grossMinor

def captureReserveMinor (ctx : PostingContext) : Int :=
  roundHalfUp (ctx.grossMinor * ctx.reserveBps) 10000

/-- The legs of a capture, written with these parts. -/
def captureLines (ctx : PostingContext) : List PostingLine :=
  [debit .processorClearing ctx.grossMinor,
   credit .merchantPayable (ctx.grossMinor - captureFeeMinor ctx - captureReserveMinor ctx),
   credit .platformFeeRevenue (captureFeeMinor ctx),
   credit .reserve (captureReserveMinor ctx),
   debit .authorizationHold ctx.grossMinor,
   credit .merchantReceivable ctx.grossMinor]

/-- The pricing of a charge: rates that leave something, and no negative parts. -/
structure PostingContext.Priced (ctx : PostingContext) : Prop where
  platformFeeBps : 0 ≤ ctx.platformFeeBps
  platformFeeFixed : 0 ≤ ctx.platformFeeFixedMinor
  reserveBps : 0 ≤ ctx.reserveBps
  rates : ctx.platformFeeBps + ctx.reserveBps ≤ 10000

/-- The merchant, Payzeno and the reserve share the captured amount, none of them
negatively. -/
structure SharesCaptured (ctx : PostingContext) (lines : List PostingLine) : Prop where
  sum : -netMovement .merchantPayable lines + -netMovement .platformFeeRevenue lines +
    -netMovement .reserve lines = ctx.grossMinor
  merchantPayable : 0 ≤ -netMovement .merchantPayable lines
  platformFee : 0 ≤ -netMovement .platformFeeRevenue lines
  reserve : 0 ≤ -netMovement .reserve lines

section Capture

variable {currencies : List String} {ctx : PostingContext}

theorem roundHalfUp_bps_nonneg {amountMinor bps : Int} (hamount : 0 ≤ amountMinor)
    (hbps : 0 ≤ bps) : 0 ≤ roundHalfUp (amountMinor * bps) 10000 := by
  have hproduct := mul_nonneg hamount hbps
  unfold roundHalfUp
  rw [if_pos hproduct]
  omega

theorem applyBps_captured {bps : Int} (hgross : 0 < ctx.grossMinor)
    (hstored : isBigInteger ctx.grossMinor = true) (hbps : 0 ≤ bps) (hrate : bps ≤ 10000) :
    applyBps ctx.grossMinor bps = .ok (roundHalfUp (ctx.grossMinor * bps) 10000) := by
  simp only [isBigInteger, decide_eq_true_eq] at hstored
  refine applyBps_eq hbps ?_
  rw [Int.natAbs_mul]
  calc ctx.grossMinor.natAbs * bps.natAbs ≤ 2 ^ 63 * 10000 :=
        Nat.mul_le_mul (by omega) (by omega)
    _ < 10 ^ decimalPrecision := by norm_num [decimalPrecision]

/-- The capture comes down to one comparison. -/
theorem capture_build (hcurrency : ctx.currency ∈ currencies) (hgross : 0 < ctx.grossMinor)
    (hstored : isBigInteger ctx.grossMinor = true) (priced : ctx.Priced) :
    (capturePostingRule currencies).build ctx =
      if ctx.grossMinor - captureFeeMinor ctx - captureReserveMinor ctx < 0 then
        .error (ruleError .validationError "platform fee plus reserve exceeds the captured amount"
          [("gross_minor", .int ctx.grossMinor), ("markup_minor", .int (captureFeeMinor ctx)),
           ("reserve_minor", .int (captureReserveMinor ctx)), merchantDetail ctx])
      else
        PostingRule.built .capture ctx (captureLines ctx) := by
  obtain ⟨hfee, hfixed, hreserve, hrates⟩ := priced
  have hcheck : checkCurrency currencies ctx.currency = .ok () := if_pos hcurrency
  have hmarkup : computePlatformFee ctx.grossMinor ctx.platformFeeBps ctx.platformFeeFixedMinor =
      .ok (captureFeeMinor ctx) := by
    unfold computePlatformFee
    rw [if_neg (not_lt.mpr hfixed), applyBps_captured hgross hstored hfee (by omega)]
    rfl
  simp only [capturePostingRule, hcheck, hmarkup,
    applyBps_captured hgross hstored hreserve (by omega)]
  rfl

theorem captureFeeMinor_nonneg (hgross : 0 < ctx.grossMinor) (priced : ctx.Priced) :
    0 ≤ captureFeeMinor ctx := by
  have hrate := roundHalfUp_bps_nonneg hgross.le priced.platformFeeBps
  have hfixed := priced.platformFeeFixed
  unfold captureFeeMinor
  omega

/-- A capture posts just when the fee and the reserve leave nothing negative, and then the
captured amount is shared; otherwise it is refused. -/
theorem capture_posts_iff (hcurrency : ctx.currency ∈ currencies) (hnames : ctx.NamesCurrency)
    (hgross : 0 < ctx.grossMinor) (hstored : isBigInteger ctx.grossMinor = true)
    (priced : ctx.Priced) :
    (captureFeeMinor ctx + captureReserveMinor ctx ≤ ctx.grossMinor →
      ∃ lines, (capturePostingRule currencies).build ctx = .ok lines ∧
        SharesCaptured ctx lines) ∧
    (ctx.grossMinor < captureFeeMinor ctx + captureReserveMinor ctx →
      ∃ raised, (capturePostingRule currencies).build ctx = .error raised ∧
        raised.isInstance .validationError = true) := by
  rw [capture_build hcurrency hgross hstored priced]
  constructor
  · intro hfits
    have hfee := captureFeeMinor_nonneg hgross priced
    have hreserve : 0 ≤ captureReserveMinor ctx :=
      roundHalfUp_bps_nonneg hgross.le priced.reserveBps
    rw [if_neg (by omega)]
    have balanced : Balanced ((captureLines ctx).filter fun line => line.amountMinor ≠ 0) := by
      refine balanced_filter ?_ ?_ ?_
      · simp [captureLines, debit, credit]
        omega
      · simp [captureLines, sideTotal, debit, credit]
        omega
      · simp [captureLines, sideTotal, debit, credit]
        omega
    refine ⟨_, built_of_balanced hnames balanced, ?_⟩
    constructor
    · rw [netMovement_filter, netMovement_filter, netMovement_filter]
      simp [captureLines]
      omega
    · rw [netMovement_filter]
      simp [captureLines]
      omega
    · rw [netMovement_filter]
      simpa [captureLines] using hfee
    · rw [netMovement_filter]
      simpa [captureLines] using hreserve
  · intro hexceeds
    rw [if_pos (by omega)]
    exact ⟨_, rfl, rfl⟩

end Capture

/-- A captured amount in euros, with a fixed fee of thirty cents and a tenth in reserve. -/
def sampleCaptureContext (grossMinor : Int) : PostingContext where
  merchantId := some "mer_1"
  currency := "EUR"
  grossMinor := grossMinor
  feeMinor := 0
  netMinor := grossMinor
  reserveBps := 1000
  platformFeeFixedMinor := 30

theorem capture_posts_euros : ∃ lines,
    (capturePostingRule ["EUR"]).build (sampleCaptureContext 10000) = .ok lines ∧
      SharesCaptured (sampleCaptureContext 10000) lines := by
  have priced : (sampleCaptureContext 10000).Priced := by constructor <;> decide
  exact (capture_posts_iff List.mem_cons_self ⟨'E', by decide, by decide⟩ (by decide) (by decide)
    priced).1 (by decide)

/-- Ten cents do not cover their fee and their reserve, so the capture is refused. -/
theorem capture_cents_refused : (sampleCaptureContext 10).Priced ∧
    ∀ lines, (capturePostingRule ["EUR"]).build (sampleCaptureContext 10) ≠ .ok lines := by
  refine ⟨by constructor <;> decide, fun lines h => ?_⟩
  have hrefused : ((capturePostingRule ["EUR"]).build (sampleCaptureContext 10)).toBool =
      false := by
    decide +kernel
  rw [h] at hrefused
  cases hrefused

end PayzenoLedger
