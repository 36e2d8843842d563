import PayzenoLedger.Consumers.Keys
import PayzenoLedger.Library.Records
import PayzenoLedger.Services.SettlementPoster

/-!
# Disputes

Two sources post about one dispute: its events, which the consumer handles, and the
acquirer's chargeback lines, which the sweep and the retry settle.  Each of the four
posts once, under its own key, so what a dispute that was won leaves does not depend on
their order: the merchant's payable is never touched again after the opening.
-/

set_option autoImplicit false

namespace PayzenoLedger

open Library

/-! ## Handlers -/

structure DisputeOpenedPayload where
  disputeId : String
  merchantId : String
  amountMinor : Int
  currency : String
  feeMinor : Int
deriving DecidableEq, Repr

structure DisputeClosedPayload where
  disputeId : String
  merchantId : String
  amountMinor : Int
  currency : String
  outcome : Option String
deriving DecidableEq, Repr

/-- What posts about a dispute: an event, or an attempt to settle a line. -/
inductive DisputeSource where
  | opened (eventId : String) (livemode : Bool) (data : DisputeOpenedPayload)
  | closed (eventId : String) (livemode : Bool) (data : DisputeClosedPayload)
  | line (item : ReconciliationItem)
deriving DecidableEq, Repr

/-- One delivery or attempt: the id of the transaction that it would insert, and what the
database, the acquirer or a lookup raises meanwhile. -/
structure DisputeDelivery where
  source : DisputeSource
  newId : String
  raises : Option Exception := none

/-- The transactions about one dispute and the events claimed so far. -/
structure DisputeState where
  transactions : List (String × PostRequest) := []
  processed : List String := []

/-- What both dispute handlers post. -/
def disputeRequest (purpose : Purpose) (merchantId disputeId currency : String)
    (livemode : Bool) (eventId key : String) (lines : List PostingLine)
    (onConflict : OnConflict) : PostRequest where
  idempotencyKey := key
  purpose := purpose
  merchantId := some merchantId
  currency := currency
  livemode := livemode
  referenceType := .dispute
  referenceId := disputeId
  lines := lines
  createdBy := .system
  requestFingerprint := eventId
  onConflict := onConflict

namespace DisputeState

def postings (state : DisputeState) : List PostRequest :=
  state.transactions.map Prod.snd

/-- `find_by_idempotency_key`. -/
def findByIdempotencyKey (state : DisputeState) (key : String) : Option (String × PostRequest) :=
  state.transactions.find? fun existing => existing.2.idempotencyKey = key

/-- `LedgerPoster.post`: the lines are checked, and a key that is taken posts nothing. -/
def post (state : DisputeState) (newId : String) (request : PostRequest) :
    Except Exception DisputeState := do
  assertInvariants request.lines
  match state.findByIdempotencyKey request.idempotencyKey with
  | none => pure { state with transactions := state.transactions ++ [(newId, request)] }
  | some existing =>
      match request.onConflict with
      | .returnExisting => pure state
      | .raise =>
          throw (ledgerError .duplicateSettlementError
            ("idempotency_key " ++ request.idempotencyKey ++ " already posted")
            [("idempotency_key", .text request.idempotencyKey),
             ("existing_transaction_id", .text existing.1),
             ("fingerprint_matches",
               .bool (existing.2.requestFingerprint = request.requestFingerprint))])

/-- Move the disputed amount out of payable and book the network fee. -/
def handleDisputeOpened (state : DisputeState) (newId : String) (data : DisputeOpenedPayload)
    (eventId : String) (livemode : Bool) : Except Exception DisputeState := do
  let key ← ledgerKey "dispute" data.merchantId data.disputeId
  match state.findByIdempotencyKey key with
  | some existing =>
      throw (ledgerError .duplicateDisputeError
        ("dispute " ++ data.disputeId ++ " already posted")
        [("dispute_id", .text data.disputeId),
         ("existing_transaction_id", .text existing.1)])
  | none =>
      let lines ← disputePostingRule.build
        { merchantId := some data.merchantId
          currency := data.currency
          grossMinor := data.amountMinor
          feeMinor := data.feeMinor
          netMinor := data.amountMinor - data.feeMinor
          schemeFeeMinor := data.feeMinor }
      state.post newId (disputeRequest .dispute data.merchantId data.disputeId data.currency
        livemode eventId key lines .raise)

/-- Reverse the dispute posting when the merchant wins; keep it when they lose. -/
def handleDisputeClosed (state : DisputeState) (newId : String) (data : DisputeClosedPayload)
    (eventId : String) (livemode : Bool) : Except Exception DisputeState :=
  if data.outcome ≠ some "won" then .ok state
  else do
    let rule := postingRuleByLineType .chargebackReversal
    let lines ← rule.build
      { merchantId := some data.merchantId
        currency := data.currency
        grossMinor := data.amountMinor
        feeMinor := 0
        netMinor := data.amountMinor }
    let key ← ledgerKey "disputewon" data.merchantId data.disputeId
    state.post newId (disputeRequest rule.purpose data.merchantId data.disputeId data.currency
      livemode eventId key lines .returnExisting)

/-- `SettlementPoster.post_settlement` of a line that was confirmed and whose charge,
merchant and variance are in order. -/
def settleLine (settings : Settings) (state : DisputeState) (newId : String)
    (item : ReconciliationItem) : Except Exception DisputeState := do
  let key ← ledgerKey "settle" item.batchId item.id
  let lines ← SettlementPoster.settleLines item
  state.post newId (SettlementPoster.settleRequest settings item key lines)

/-- An event claims its id and is handled in one transaction; a line is settled in one of
its own. -/
def handle (settings : Settings) (state : DisputeState) (delivery : DisputeDelivery) :
    Except Exception DisputeState :=
  let claim (eventId : String) (handled : Except Exception DisputeState) :
      Except Exception DisputeState :=
    if eventId ∈ state.processed then .ok state
    else
      match delivery.raises with
      | some raised => .error raised
      | none => do
          let next ← handled
          pure { next with processed := next.processed ++ [eventId] }
  match delivery.source with
  | .opened eventId livemode data =>
      claim eventId (state.handleDisputeOpened delivery.newId data eventId livemode)
  | .closed eventId livemode data =>
      claim eventId (state.handleDisputeClosed delivery.newId data eventId livemode)
  | .line item =>
      match delivery.raises with
      | some raised => .error raised
      | none => state.settleLine settings delivery.newId item

/-- All that is delivered and attempted, in this order; what raises leaves nothing. -/
def consumeDisputes (settings : Settings) (deliveries : List DisputeDelivery) : DisputeState :=
  deliveries.foldl (fun state delivery =>
    match state.handle settings delivery with
    | .ok next => next
    | .error _ => state) {}

end DisputeState

open DisputeState

/-! ## The law -/

/-- A dispute, with the batch and the item of its two lines. -/
structure Dispute where
  disputeId : String
  merchantId : String
  currency : String
  amountMinor : Int
  feeMinor : Int
  chargeback : String × String
  reversal : String × String

/-- The four postings about a dispute that was won. -/
inductive DisputeKind where
  | opened
  | won
  | chargeback
  | reversal
deriving DecidableEq, Repr

namespace Dispute

/-- The line is the dispute's of this type, of the disputed amount. -/
structure NamesLine (dispute : Dispute) (lineType : LineType) (line : String × String)
    (item : ReconciliationItem) : Prop where
  lineType : item.lineType = lineType
  identity : (item.batchId, item.id) = line
  merchantId : item.merchantId = some dispute.merchantId
  currency : item.currency = dispute.currency
  amount : |item.grossMinor| = dispute.amountMinor

/-- The source is the dispute's opened event, its closed(won) event, its chargeback line or
its chargeback reversal line. -/
def Names (dispute : Dispute) : DisputeKind → DisputeSource → Prop
  | .opened, .opened _ _ data =>
      data.disputeId = dispute.disputeId ∧ data.merchantId = dispute.merchantId ∧
        data.currency = dispute.currency ∧ data.amountMinor = dispute.amountMinor ∧
        data.feeMinor = dispute.feeMinor
  | .won, .closed _ _ data =>
      data.disputeId = dispute.disputeId ∧ data.merchantId = dispute.merchantId ∧
        data.currency = dispute.currency ∧ data.amountMinor = dispute.amountMinor ∧
        data.outcome = some "won"
  | .chargeback, .line item => dispute.NamesLine .chargeback dispute.chargeback item
  | .reversal, .line item => dispute.NamesLine .chargebackReversal dispute.reversal item
  | _, _ => False

/-- The key under which each is posted. -/
def key (dispute : Dispute) : DisputeKind → Except Exception String
  | .opened => ledgerKey "dispute" dispute.merchantId dispute.disputeId
  | .won => ledgerKey "disputewon" dispute.merchantId dispute.disputeId
  | .chargeback => ledgerKey "settle" dispute.chargeback.1 dispute.chargeback.2
  | .reversal => ledgerKey "settle" dispute.reversal.1 dispute.reversal.2

/-- What each takes from the merchant's payable. -/
def payable (dispute : Dispute) : DisputeKind → Int
  | .opened => dispute.amountMinor + max dispute.feeMinor 0
  | _ => 0

/-- What each takes from the liability. -/
def liability (dispute : Dispute) : DisputeKind → Int
  | .opened => -dispute.amountMinor
  | .won => -|dispute.amountMinor|
  | .chargeback => dispute.amountMinor
  | .reversal => -dispute.amountMinor

def Moves (dispute : Dispute) (kind : DisputeKind) (lines : List PostingLine) : Prop :=
  netMovement .merchantPayable lines = dispute.payable kind ∧
    netMovement .chargebackLiability lines = dispute.liability kind

end Dispute

/-- The id of the event, if the source is one. -/
def DisputeSource.eventId : DisputeSource → Option String
  | .opened eventId _ _ => some eventId
  | .closed eventId _ _ => some eventId
  | .line _ => none

/-- What is delivered and attempted is about this dispute, in any order and any number of
times; events are told apart by their ids, and the two lines are two items. -/
structure DeliversDispute (dispute : Dispute) (deliveries : List DisputeDelivery) : Prop where
  ofDispute : ∀ delivery ∈ deliveries, ∃ kind, dispute.Names kind delivery.source
  identified : ∀ delivery ∈ deliveries, ∀ other ∈ deliveries,
    delivery.source.eventId.isSome = true → delivery.source.eventId = other.source.eventId →
    delivery.source = other.source
  lines : dispute.chargeback.2 ≠ dispute.reversal.2

/-- One of the four has been handled without an error. -/
def HandledKind (dispute : Dispute) (settings : Settings) (kind : DisputeKind)
    (deliveries : List DisputeDelivery) : Prop :=
  Somewhere (fun before delivery => dispute.Names kind delivery.source ∧
    ∃ next, (consumeDisputes settings before).handle settings delivery = .ok next) deliveries

/-- The payable is down by the fee only, and the liability is where it was. -/
def MadeWhole (dispute : Dispute) (state : DisputeState) : Prop :=
  postedMovement .merchantPayable state.postings = dispute.feeMinor ∧
    postedMovement .chargebackLiability state.postings = 0

/-! ## What each rule moves -/

section Moves

variable {ctx : PostingContext} {lines : List PostingLine}

theorem disputePostingRule_moves (h : disputePostingRule.build ctx = .ok lines) :
    0 < ctx.grossMinor ∧
      netMovement .merchantPayable lines = ctx.grossMinor + max ctx.feeMinor 0 ∧
      netMovement .chargebackLiability lines = -ctx.grossMinor := by
  unfold disputePostingRule at h
  dsimp only at h
  split at h
  · cases h
  next hpos =>
  refine ⟨by omega, ?_, ?_⟩
  · rw [netMovement_built h, netMovement_append]
    split
    · next hfee => simp [max_eq_left hfee.le]
    · next hfee => simp [max_eq_right (not_lt.mp hfee)]
  · rw [netMovement_built h, netMovement_append]
    split <;> simp

theorem absoluteRule_moves {purpose : Purpose} {message : String}
    {debited credited : AccountType} {extra : PostingContext → List PostingLine}
    (accountType : AccountType)
    (h : (absoluteRule purpose message debited credited extra).build ctx = .ok lines) :
    netMovement accountType lines =
      (if debited = accountType then |ctx.grossMinor| else 0) +
        ((if credited = accountType then -|ctx.grossMinor| else 0) +
          netMovement accountType (extra ctx)) := by
  unfold absoluteRule at h
  dsimp only at h
  split at h
  · cases h
  · rw [netMovement_built h, netMovement_append, netMovement_debit, netMovement_credit,
      netMovement_nil, Int.natCast_natAbs]
    omega

theorem netMovement_acquirerFeeLegs {accountType : AccountType}
    (hexpense : AccountType.acquirerFeeExpense ≠ accountType)
    (hclearing : AccountType.processorClearing ≠ accountType) :
    netMovement accountType (acquirerFeeLegs ctx) = 0 := by
  unfold acquirerFeeLegs
  split
  · simp [hexpense, hclearing]
  · rfl

theorem chargebackPostingRule_moves (h : chargebackPostingRule.build ctx = .ok lines) :
    netMovement .merchantPayable lines = 0 ∧
      netMovement .chargebackLiability lines = |ctx.grossMinor| := by
  constructor
  · rw [absoluteRule_moves .merchantPayable h, netMovement_acquirerFeeLegs (by decide) (by decide)]
    rfl
  · rw [absoluteRule_moves .chargebackLiability h,
      netMovement_acquirerFeeLegs (by decide) (by decide)]
    exact Int.add_zero _

theorem chargebackReversalPostingRule_moves
    (h : chargebackReversalPostingRule.build ctx = .ok lines) :
    netMovement .merchantPayable lines = 0 ∧
      netMovement .chargebackLiability lines = -|ctx.grossMinor| := by
  constructor
  · rw [absoluteRule_moves .merchantPayable h, netMovement_acquirerFeeLegs (by decide) (by decide)]
    rfl
  · rw [absoluteRule_moves .chargebackLiability h,
      netMovement_acquirerFeeLegs (by decide) (by decide)]
    simp

end Moves

/-! ## One delivery -/

theorem DisputeState.post_ok {state next : DisputeState} {newId : String} {request : PostRequest}
    (h : state.post newId request = .ok next) :
    next.processed = state.processed ∧
      AppendsPosting request state.postings next.postings := by
  unfold post at h
  cases hlines : assertInvariants request.lines with
  | error raised =>
      rw [hlines] at h
      cases h
  | ok _ =>
  rw [hlines] at h
  cases hfind : state.findByIdempotencyKey request.idempotencyKey with
  | none =>
      simp only [hfind, bind, Except.bind] at h
      cases h
      refine ⟨rfl, ?_⟩
      have hpostings : ({ state with transactions := state.transactions ++ [(newId, request)] } :
          DisputeState).postings = state.postings ++ [request] := by
        simp [postings]
      rw [hpostings]
      refine .free fun posted hposted hsame => ?_
      obtain ⟨existing, hexisting, rfl⟩ := List.mem_map.mp hposted
      have hnone := List.find?_eq_none.mp hfind existing hexisting
      simp [hsame] at hnone
  | some existing =>
      simp only [hfind, bind, Except.bind] at h
      cases hconflict : request.onConflict with
      | raise =>
          rw [hconflict] at h
          cases h
      | returnExisting =>
          rw [hconflict] at h
          cases h
          have hsame := List.find?_some hfind
          have hmem := List.mem_of_find?_eq_some hfind
          exact ⟨rfl, .taken ⟨existing.2, List.mem_map_of_mem hmem, of_decide_eq_true hsame⟩⟩

/-- A handler posts one kind. -/
structure PostsKind (dispute : Dispute) (kind : DisputeKind) (state next : DisputeState) :
    Prop where
  processed : next.processed = state.processed
  posts : ∃ request : PostRequest, AppendsPosting request state.postings next.postings ∧
    dispute.key kind = .ok request.idempotencyKey ∧ dispute.Moves kind request.lines
  positive : kind = .opened → 0 < dispute.amountMinor

section Handlers

variable {dispute : Dispute} {settings : Settings} {state next : DisputeState}
  {newId eventId : String} {livemode : Bool}

theorem handleDisputeOpened_ok {data : DisputeOpenedPayload}
    (hnames : dispute.Names .opened (.opened eventId livemode data))
    (h : state.handleDisputeOpened newId data eventId livemode = .ok next) :
    PostsKind dispute .opened state next := by
  obtain ⟨hid, hmerchant, -, hamount, hfee⟩ := hnames
  unfold handleDisputeOpened at h
  cases hkey : ledgerKey "dispute" data.merchantId data.disputeId with
  | error raised =>
      rw [hkey] at h
      cases h
  | ok key =>
  rw [hkey] at h
  cases hfind : state.findByIdempotencyKey key with
  | some existing =>
      simp only [hfind, bind, Except.bind] at h
      cases h
  | none =>
  simp only [hfind, bind, Except.bind] at h
  split at h
  · cases h
  next lines hlines =>
  obtain ⟨hpos, hpayable, hliability⟩ := disputePostingRule_moves hlines
  rw [hamount] at hpos hpayable hliability
  rw [hfee] at hpayable
  obtain ⟨hprocessed, happends⟩ := DisputeState.post_ok h
  rw [hmerchant, hid] at hkey
  exact ⟨hprocessed, ⟨_, happends, hkey, hpayable, hliability⟩, fun _ => hpos⟩

theorem handleDisputeClosed_ok {data : DisputeClosedPayload}
    (hnames : dispute.Names .won (.closed eventId livemode data))
    (h : state.handleDisputeClosed newId data eventId livemode = .ok next) :
    PostsKind dispute .won state next := by
  obtain ⟨hid, hmerchant, -, hamount, houtcome⟩ := hnames
  unfold handleDisputeClosed at h
  rw [if_neg (not_not.mpr houtcome)] at h
  simp only [postingRuleByLineType, bind, Except.bind] at h
  split at h
  · cases h
  next lines hlines =>
  cases hkey : ledgerKey "disputewon" data.merchantId data.disputeId with
  | error raised =>
      rw [hkey] at h
      cases h
  | ok key =>
  rw [hkey] at h
  obtain ⟨hprocessed, happends⟩ := DisputeState.post_ok h
  obtain ⟨hpayable, hliability⟩ := chargebackReversalPostingRule_moves hlines
  rw [hmerchant, hid] at hkey
  rw [hamount] at hliability
  exact ⟨hprocessed, ⟨_, happends, hkey, hpayable, hliability⟩, fun h => by cases h⟩

theorem settleLine_ok {item : ReconciliationItem} {kind : DisputeKind}
    (hnames : dispute.Names kind (.line item))
    (h : state.settleLine settings newId item = .ok next) :
    PostsKind dispute kind state next := by
  unfold settleLine at h
  cases hkey : ledgerKey "settle" item.batchId item.id with
  | error raised =>
      rw [hkey] at h
      cases h
  | ok key =>
  rw [hkey] at h
  cases hlines : SettlementPoster.settleLines item with
  | error raised =>
      simp only [hlines, bind, Except.bind] at h
      cases h
  | ok lines =>
  simp only [hlines, bind, Except.bind] at h
  have hbuild : (postingRuleByLineType item.lineType).build (SettlementPoster.context item) =
      .ok lines := by
    unfold SettlementPoster.settleLines at hlines
    dsimp only at hlines
    split at hlines
    · cases hlines
    next built hbuilt =>
    split at hlines
    · cases hlines
    · cases hlines
      exact hbuilt
  obtain ⟨hprocessed, happends⟩ := DisputeState.post_ok h
  cases kind with
  | opened => cases hnames
  | won => cases hnames
  | chargeback =>
      obtain ⟨hbatch, hitem⟩ : item.batchId = _ ∧ item.id = _ := Prod.ext_iff.mp hnames.identity
      rw [hnames.lineType] at hbuild
      obtain ⟨hpayable, hliability⟩ := chargebackPostingRule_moves hbuild
      rw [hbatch, hitem] at hkey
      exact ⟨hprocessed, ⟨_, happends, hkey, hpayable, hliability.trans hnames.amount⟩,
        fun h => by cases h⟩
  | reversal =>
      obtain ⟨hbatch, hitem⟩ : item.batchId = _ ∧ item.id = _ := Prod.ext_iff.mp hnames.identity
      rw [hnames.lineType] at hbuild
      obtain ⟨hpayable, hliability⟩ := chargebackReversalPostingRule_moves hbuild
      rw [hbatch, hitem] at hkey
      exact ⟨hprocessed, ⟨_, happends, hkey, hpayable,
        hliability.trans (congrArg Neg.neg hnames.amount)⟩, fun h => by cases h⟩

/-- A source names one kind. -/
theorem Dispute.Names.unique {kind kind' : DisputeKind} {source : DisputeSource}
    (h : dispute.Names kind source) (h' : dispute.Names kind' source) : kind = kind' := by
  cases source with
  | opened eventId livemode data =>
      cases kind <;> cases kind' <;> first | rfl | exact h.elim | exact h'.elim
  | closed eventId livemode data =>
      cases kind <;> cases kind' <;> first | rfl | exact h.elim | exact h'.elim
  | line item =>
      cases kind with
      | opened => exact h.elim
      | won => exact h.elim
      | chargeback =>
          cases kind' with
          | opened => exact h'.elim
          | won => exact h'.elim
          | chargeback => rfl
          | reversal => exact absurd (h.lineType.symm.trans h'.lineType) (by decide)
      | reversal =>
          cases kind' with
          | opened => exact h'.elim
          | won => exact h'.elim
          | chargeback => exact absurd (h.lineType.symm.trans h'.lineType) (by decide)
          | reversal => rfl

/-- What a delivery that is handled does: nothing where its event was claimed before, else
it posts its kind and claims the event. -/
theorem handle_ok {delivery : DisputeDelivery} {kind : DisputeKind}
    (hnames : dispute.Names kind delivery.source)
    (h : state.handle settings delivery = .ok next) :
    ((∃ id ∈ state.processed, delivery.source.eventId = some id) ∧ next = state) ∨
      ∃ posted, PostsKind dispute kind state posted ∧
        next = { posted with
          processed := state.processed ++ delivery.source.eventId.toList } := by
  unfold DisputeState.handle at h
  cases hsource : delivery.source with
  | opened eventId livemode data =>
      simp only [hsource] at h
      split at h
      · next hclaimed =>
          cases h
          exact .inl ⟨⟨eventId, hclaimed, rfl⟩, rfl⟩
      · split at h
        · cases h
        · cases hposted : state.handleDisputeOpened delivery.newId data eventId livemode with
          | error raised =>
              rw [hposted] at h
              cases h
          | ok posted =>
              rw [hposted] at h
              cases h
              rw [hsource] at hnames
              cases kind with
              | opened =>
                  have posts := handleDisputeOpened_ok hnames hposted
                  exact .inr ⟨posted, posts, by rw [← posts.processed]; rfl⟩
              | won => exact hnames.elim
              | chargeback => exact hnames.elim
              | reversal => exact hnames.elim
  | closed eventId livemode data =>
      simp only [hsource] at h
      split at h
      · next hclaimed =>
          cases h
          exact .inl ⟨⟨eventId, hclaimed, rfl⟩, rfl⟩
      · split at h
        · cases h
        · cases hposted : state.handleDisputeClosed delivery.newId data eventId livemode with
          | error raised =>
              rw [hposted] at h
              cases h
          | ok posted =>
              rw [hposted] at h
              cases h
              rw [hsource] at hnames
              cases kind with
              | won =>
                  have posts := handleDisputeClosed_ok hnames hposted
                  exact .inr ⟨posted, posts, by rw [← posts.processed]; rfl⟩
              | opened => exact hnames.elim
              | chargeback => exact hnames.elim
              | reversal => exact hnames.elim
  | line item =>
      simp only [hsource] at h
      split at h
      · cases h
      · rw [hsource] at hnames
        have posts := settleLine_ok hnames h
        refine .inr ⟨next, posts, ?_⟩
        rw [DisputeSource.eventId, Option.toList_none, List.append_nil, ← posts.processed]

end Handlers

/-! ## Every run -/

section Run

variable {dispute : Dispute} {settings : Settings}

theorem Dispute.distinctKeys (hlines : dispute.chargeback.2 ≠ dispute.reversal.2) :
    DistinctKeys dispute.key := by
  intro kind kind' key hkey hkey'
  cases kind <;> cases kind' <;>
    first
      | rfl
      | exact absurd (ledgerKey_injective hkey hkey').1 (by decide)
      | exact absurd (ledgerKey_injective hkey hkey').2.2 hlines
      | exact absurd (ledgerKey_injective hkey hkey').2.2.symm hlines

/-- What the deliveries handled so far have posted: one of each kind that was handled. -/
structure DisputeRun (dispute : Dispute) (settings : Settings)
    (before : List DisputeDelivery) (kinds : List DisputeKind) : Prop where
  posted : PostedKinds dispute.key dispute.Moves kinds (consumeDisputes settings before).postings
  mem : ∀ kind, kind ∈ kinds ↔ HandledKind dispute settings kind before
  claimed : ∀ id ∈ (consumeDisputes settings before).processed,
    Somewhere (fun earlier delivery => delivery.source.eventId = some id ∧
      ∃ next, (consumeDisputes settings earlier).handle settings delivery = .ok next) before
  positive : DisputeKind.opened ∈ kinds → 0 < dispute.amountMinor

theorem disputeRun_nil : DisputeRun dispute settings [] [] where
  posted := postedKinds_nil
  mem kind := by
    constructor
    · intro h
      cases h
    · intro h
      exact absurd h (not_somewhere_nil _)
  claimed id hid := by cases hid
  positive h := by cases h

theorem consumeDisputes_concat (before : List DisputeDelivery) (delivery : DisputeDelivery) :
    consumeDisputes settings (before ++ [delivery]) =
      match (consumeDisputes settings before).handle settings delivery with
      | .ok next => next
      | .error _ => consumeDisputes settings before := by
  unfold DisputeState.consumeDisputes
  rw [List.foldl_append]
  rfl

theorem DisputeRun.deliver {before : List DisputeDelivery} {delivery : DisputeDelivery}
    {kinds : List DisputeKind} (run : DisputeRun dispute settings before kinds)
    (delivers : DeliversDispute dispute (before ++ [delivery])) :
    ∃ kinds', DisputeRun dispute settings (before ++ [delivery]) kinds' := by
  obtain ⟨kind, hnames⟩ := delivers.ofDispute delivery (by simp)
  have hkind (other : DisputeKind) : HandledKind dispute settings other (before ++ [delivery]) ↔
      HandledKind dispute settings other before ∨ (other = kind ∧
        ∃ next, (consumeDisputes settings before).handle settings delivery = .ok next) := by
    unfold HandledKind
    rw [somewhere_concat]
    refine or_congr_right ⟨?_, ?_⟩
    · rintro ⟨hother, hhandled⟩
      exact ⟨hother.unique hnames, hhandled⟩
    · rintro ⟨rfl, hhandled⟩
      exact ⟨hnames, hhandled⟩
  cases hhandle : (consumeDisputes settings before).handle settings delivery with
  | error raised =>
      have hstate : consumeDisputes settings (before ++ [delivery]) =
          consumeDisputes settings before := by
        rw [consumeDisputes_concat, hhandle]
      refine ⟨kinds, ?_, fun other => ?_, fun id hid => ?_, run.positive⟩
      · rw [hstate]
        exact run.posted
      · rw [hkind, run.mem, hhandle]
        simp
      · rw [hstate] at hid
        exact somewhere_concat.mpr (.inl (run.claimed id hid))
  | ok next =>
      have hstate : consumeDisputes settings (before ++ [delivery]) = next := by
        rw [consumeDisputes_concat, hhandle]
      rcases handle_ok hnames hhandle with ⟨⟨id, hid, hevent⟩, rfl⟩ | ⟨posted, posts, rfl⟩
      · -- the event was handled before, so its kind is there
        have hthere : kind ∈ kinds := by
          obtain ⟨earlier, other, later, rfl, hother, hhandled⟩ := run.claimed id hid
          have hsame := delivers.identified other (by simp) delivery (by simp)
            (by rw [hother]; rfl) (hother.trans hevent.symm)
          exact (run.mem kind).mpr ⟨earlier, other, later, rfl, hsame ▸ hnames, hhandled⟩
        refine ⟨kinds, ?_, fun other => ?_, fun id hid => ?_, run.positive⟩
        · rw [hstate]
          exact run.posted
        · rw [hkind, ← run.mem]
          constructor
          · exact .inl
          · rintro (h | ⟨rfl, -⟩)
            · exact h
            · exact hthere
        · rw [hstate] at hid
          exact somewhere_concat.mpr (.inl (run.claimed id hid))
      · obtain ⟨request, happends, hkey, hmoves⟩ := posts.posts
        obtain ⟨kinds', hposted, hmem⟩ :=
          run.posted.appends (Dispute.distinctKeys delivers.lines) hkey hmoves happends
        refine ⟨kinds', ?_, fun other => ?_, fun id hid => ?_, fun hopened => ?_⟩
        · rw [hstate]
          exact hposted
        · rw [hkind, hmem, run.mem, hhandle]
          simp
        · rw [hstate] at hid
          rcases List.mem_append.mp hid with hold | hnew
          · exact somewhere_concat.mpr (.inl (run.claimed id hold))
          · exact somewhere_concat.mpr (.inr ⟨Option.mem_toList.mp hnew, _, hhandle⟩)
        · rcases (hmem _).mp hopened with hold | hnew
          · exact run.positive hold
          · exact posts.positive hnew.symm

theorem dispute_run (settings : Settings) {deliveries : List DisputeDelivery}
    (delivers : DeliversDispute dispute deliveries) :
    ∃ kinds, DisputeRun dispute settings deliveries kinds := by
  induction deliveries using List.reverseRecOn with
  | nil => exact ⟨_, disputeRun_nil⟩
  | append_singleton before delivery ih =>
      obtain ⟨kinds, run⟩ := ih
        { ofDispute := fun delivery hdelivery =>
            delivers.ofDispute delivery (List.mem_append_left _ hdelivery)
          identified := fun delivery hdelivery other hother =>
            delivers.identified delivery (List.mem_append_left _ hdelivery) other
              (List.mem_append_left _ hother)
          lines := delivers.lines }
      exact run.deliver delivers

/-- Once all four have been handled the merchant is down by the amount and the fee, and the
liability holds the amount twice. -/
theorem dispute_movements {deliveries : List DisputeDelivery}
    (delivers : DeliversDispute dispute deliveries)
    (hhandled : ∀ kind, HandledKind dispute settings kind deliveries) :
    0 < dispute.amountMinor ∧
      postedMovement .merchantPayable (consumeDisputes settings deliveries).postings =
        dispute.amountMinor + max dispute.feeMinor 0 ∧
      postedMovement .chargebackLiability (consumeDisputes settings deliveries).postings =
        -2 * dispute.amountMinor := by
  obtain ⟨kinds, run⟩ := dispute_run settings delivers
  have hpositive := run.positive ((run.mem _).mpr (hhandled _))
  have hperm : kinds.Perm [.opened, .won, .chargeback, .reversal] := by
    rw [List.perm_ext_iff_of_nodup run.posted.nodup (by decide)]
    intro kind
    constructor
    · intro _
      cases kind <;> decide
    · intro _
      exact (run.mem kind).mpr (hhandled kind)
  have hpayable := run.posted.movement dispute.payable
    fun _ _ h => h.1
  have hliability := run.posted.movement dispute.liability fun _ _ h => h.2
  refine ⟨hpositive, ?_, ?_⟩
  · rw [hpayable, (hperm.map _).sum_eq]
    simp [Dispute.payable]
  · rw [hliability, (hperm.map _).sum_eq]
    simp only [List.map_cons, List.map_nil, List.sum_cons, List.sum_nil, Dispute.liability,
      abs_of_pos hpositive]
    omega

end Run

/-- No dispute that was won makes the merchant whole. -/
theorem dispute_never_whole (dispute : Dispute) (settings : Settings)
    (deliveries : List DisputeDelivery) (delivers : DeliversDispute dispute deliveries)
    (hhandled : ∀ kind, HandledKind dispute settings kind deliveries) :
    ¬ MadeWhole dispute (consumeDisputes settings deliveries) := by
  rintro ⟨hpayable, -⟩
  obtain ⟨hpositive, hleft, -⟩ := dispute_movements delivers hhandled
  rw [hleft] at hpayable
  omega

namespace DisputeSample

/-- A dispute about one thousand with a fee of fifteen. -/
def dispute : Dispute where
  disputeId := "dp_1"
  merchantId := "mer_1"
  currency := "EUR"
  amountMinor := 1000
  feeMinor := 15
  chargeback := ("sb_1", "ri_1")
  reversal := ("sb_2", "ri_2")

def line (lineType : LineType) (batchId id : String) : ReconciliationItem where
  id := id
  batchId := batchId
  chargeId := some "ch_1"
  merchantId := some "mer_1"
  lineType := lineType
  grossMinor := -1000
  feeMinor := 0
  interchangeMinor := 0
  schemeFeeMinor := 0
  netMinor := -1000
  expectedGrossMinor := none
  varianceMinor := 0
  currency := "EUR"
  acquirer := "northgate"
  acquirerReference := "ref_1"
  networkReference := none
  matchMethod := .exactReference
  matchedAt := none
  status := .pending
  attemptCount := 0
  lastErrorCode := none
  lastAttemptAt := none
  nextAttemptAt := 0
  settledTransactionId := none
  livemode := true
  createdAt := 0

def opened : DisputeDelivery where
  source := .opened "evt_1" true
    { disputeId := "dp_1", merchantId := "mer_1", amountMinor := 1000, currency := "EUR"
      feeMinor := 15 }
  newId := "txn_1"

def won : DisputeDelivery where
  source := .closed "evt_2" true
    { disputeId := "dp_1", merchantId := "mer_1", amountMinor := 1000, currency := "EUR"
      outcome := some "won" }
  newId := "txn_2"

def chargeback : DisputeDelivery where
  source := .line (line .chargeback "sb_1" "ri_1")
  newId := "txn_3"

def reversal : DisputeDelivery where
  source := .line (line .chargebackReversal "sb_2" "ri_2")
  newId := "txn_4"

/-- The events in their order, then the two lines. -/
def deliveries : List DisputeDelivery :=
  [opened, won, chargeback, reversal]

theorem delivers : DeliversDispute dispute deliveries where
  ofDispute delivery hdelivery := by
    simp only [deliveries, List.mem_cons, List.not_mem_nil, or_false] at hdelivery
    rcases hdelivery with rfl | rfl | rfl | rfl
    · exact ⟨.opened, rfl, rfl, rfl, rfl, rfl⟩
    · exact ⟨.won, rfl, rfl, rfl, rfl, rfl⟩
    · exact ⟨.chargeback, rfl, rfl, rfl, rfl, by decide⟩
    · exact ⟨.reversal, rfl, rfl, rfl, rfl, by decide⟩
  identified := by decide
  lines := by decide

theorem handled (kind : DisputeKind) :
    HandledKind dispute sampleSettings kind deliveries := by
  cases kind with
  | opened => exact ⟨[], _, [_, _, _], rfl, ⟨rfl, rfl, rfl, rfl, rfl⟩, _, rfl⟩
  | won => exact ⟨[_], _, [_, _], rfl, ⟨rfl, rfl, rfl, rfl, rfl⟩, _, rfl⟩
  | chargeback => exact ⟨[_, _], _, [_], rfl, ⟨rfl, rfl, rfl, rfl, by decide⟩, _, rfl⟩
  | reversal => exact ⟨[_, _, _], _, [], rfl, ⟨rfl, rfl, rfl, rfl, by decide⟩, _, rfl⟩

end DisputeSample

open DisputeSample in
theorem dispute_never_whole_sample :
    ¬ MadeWhole dispute (consumeDisputes sampleSettings deliveries) :=
  dispute_never_whole dispute sampleSettings deliveries delivers handled

open DisputeSample in
/-- The merchant who wins is still down by the amount and the fee, and the liability holds
the amount twice. -/
theorem won_dispute_keeps_amount :
    DeliversDispute dispute deliveries ∧
      (∀ kind, HandledKind dispute sampleSettings kind deliveries) ∧
      postedMovement .merchantPayable (consumeDisputes sampleSettings deliveries).postings = 1015 ∧
      postedMovement .chargebackLiability (consumeDisputes sampleSettings deliveries).postings =
        -2000 ∧
      ¬ MadeWhole dispute (consumeDisputes sampleSettings deliveries) := by
  have hpayable : postedMovement .merchantPayable
      (consumeDisputes sampleSettings deliveries).postings = 1015 := by
    decide +kernel
  refine ⟨delivers, handled, hpayable, by decide +kernel, fun whole => ?_⟩
  have hfee := whole.1
  rw [hpayable] at hfee
  cases hfee

end PayzenoLedger
