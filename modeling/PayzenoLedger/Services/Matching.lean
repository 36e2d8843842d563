import PayzenoLedger.Services.Reconciliation

/-!
# The matcher

Three strategies look for the charge that a settlement line belongs to, in a
fixed order; the first hit wins.  A line that no strategy claims stays without a
charge.
-/

set_option autoImplicit false

namespace PayzenoLedger

open Library

/-- `HEURISTIC_WINDOW`, two days. -/
def heuristicWindow : Nat := 2 * 86400000000

/-- `HEURISTIC_AMOUNT_SLACK_MINOR`. -/
def heuristicAmountSlackMinor : Int := 2

/-- What a strategy decided.  The charge stands for its id, its merchant and its
amount, which the item takes from it. -/
structure MatchOutcome where
  charge : Option SettlementCharge
  method : MatchMethod
  confident : Bool
deriving DecidableEq, Repr

/-- `NO_MATCH`. -/
def noMatch : MatchOutcome where
  charge := none
  method := .unmatched
  confident := false

/-- The outcome of a lookup that may have found a charge. -/
def matched (charge : Option SettlementCharge) (method : MatchMethod) (confident : Bool) :
    MatchOutcome :=
  match charge with
  | none => noMatch
  | some charge => { charge := some charge, method, confident }

/-! ## Lookups -/

namespace SettlementChargeRepository

def byProcessorReference (acquirer processorReference : String)
    (charges : List SettlementCharge) : List SettlementCharge :=
  charges.filter fun charge =>
    charge.acquirer = acquirer ∧ charge.processorReference = some processorReference

def byNetworkTransaction (acquirer networkTransactionId : String)
    (charges : List SettlementCharge) : List SettlementCharge :=
  charges.filter fun charge =>
    charge.acquirer = acquirer ∧ charge.networkTransactionId = some networkTransactionId

/-- Same merchant, same currency, near-enough amount, in the window; the newest
five. -/
def inAmountWindow (merchantId currency : String) (amountMinor slackMinor : Int)
    (authorizedFrom authorizedTo : Instant) (charges : List SettlementCharge) :
    List SettlementCharge :=
  ((charges.filter fun charge =>
    charge.merchantId = merchantId ∧ charge.currency = currency ∧
      amountMinor - slackMinor ≤ charge.amountMinor ∧
      charge.amountMinor ≤ amountMinor + slackMinor ∧
      authorizedFrom ≤ charge.authorizedAt ∧ charge.authorizedAt ≤ authorizedTo)
    |>.insertionSort fun first second => second.authorizedAt ≤ first.authorizedAt).take 5

def findByProcessorReference (acquirer processorReference : String) :
    Async (Option SettlementCharge) :=
  Async.first fun db => byProcessorReference acquirer processorReference db.charges

def findByNetworkTransaction (acquirer : String) (networkTransactionId : Option String) :
    Async (Option SettlementCharge) :=
  match networkTransactionId with
  | none => pure none
  | some id => Async.first fun db => byNetworkTransaction acquirer id db.charges

def findInAmountWindow (merchantId currency : String) (amountMinor slackMinor : Int)
    (authorizedFrom authorizedTo : Instant) : Async (List SettlementCharge) :=
  Async.select fun db => inAmountWindow merchantId currency amountMinor slackMinor
    authorizedFrom authorizedTo db.charges

end SettlementChargeRepository

/-! ## Strategies -/

inductive MatchStrategy where
  | exactReference
  | networkTransaction
  | heuristicAmountWindow
deriving DecidableEq, Repr

namespace MatchStrategy

/-- `acquirer_reference == settlement_charge.processor_reference`. -/
def matchExactReference (item : ReconciliationItem) : Async MatchOutcome := do
  let charge ← SettlementChargeRepository.findByProcessorReference item.acquirer
    item.acquirerReference
  pure (matched charge .exactReference true)

/-- The card network's own transaction id. -/
def matchNetworkTransaction (item : ReconciliationItem) : Async MatchOutcome := do
  if item.networkReference.getD "" = "" then pure noMatch
  else
    let charge ← SettlementChargeRepository.findByNetworkTransaction item.acquirer
      item.networkReference
    pure (matched charge .networkTxn true)

/-- Amount, merchant and date window; never confident. -/
def matchHeuristicAmountWindow (item : ReconciliationItem) : Async MatchOutcome :=
  match item.merchantId with
  | none => pure noMatch
  | some merchantId => do
      let instant ← Async.now
      let candidates ← SettlementChargeRepository.findInAmountWindow merchantId item.currency
        item.grossMinor heuristicAmountSlackMinor (instant - heuristicWindow)
        (instant + heuristicWindow)
      match candidates with
      | [charge] => pure (matched (some charge) .heuristic false)
      | _ => pure noMatch

def matchLine : MatchStrategy → ReconciliationItem → Async MatchOutcome
  | exactReference => matchExactReference
  | networkTransaction => matchNetworkTransaction
  | heuristicAmountWindow => matchHeuristicAmountWindow

end MatchStrategy

/-- The strategies of the container, in their order. -/
def matchStrategies : List MatchStrategy :=
  [.exactReference, .networkTransaction, .heuristicAmountWindow]

/-- The outcome of the first strategy that hits. -/
def firstHit (item : ReconciliationItem) : List MatchStrategy → Async MatchOutcome
  | [] => pure noMatch
  | strategy :: strategies => do
      let outcome ← strategy.matchLine item
      if outcome.charge.isSome then pure outcome else firstHit item strategies

/-- One item of the walk, and the item as the walk leaves it. -/
def matchItem (strategies : List MatchStrategy) (item : ReconciliationItem) :
    Async ReconciliationItem := do
  let outcome ← firstHit item strategies
  match outcome.charge with
  | none =>
      let unmatched := { item with matchMethod := .unmatched }
      item.flush unmatched
      pure unmatched
  | some charge =>
      Async.mark (.matching item charge)
      let stamp ← Async.now
      let attached := applyMatch item charge outcome.method
      let attached :=
        { attached with
          matchedAt := some stamp
          status := if outcome.confident then attached.status else .needsReview }
      item.flush attached
      pure attached

/-- Walk every item through the strategies in order; stop at the first hit. -/
def matchItems (strategies : List MatchStrategy) :
    List ReconciliationItem → Async (List ReconciliationItem)
  | [] => pure []
  | item :: items => do
      let matched ← matchItem strategies item
      let rest ← matchItems strategies items
      pure (matched :: rest)

end PayzenoLedger
