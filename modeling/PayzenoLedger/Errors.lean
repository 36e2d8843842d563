/-!
# The exception tree

Every failure the service raises on purpose is an instance of one of these
classes.  A class carries a stable `code` and an HTTP status; `except` clauses
select by class, so the tree of parents is part of the behaviour.
-/

set_option autoImplicit false

namespace PayzenoLedger

inductive ErrorClass where
  | payzenoLedgerError
  | validationError
  | notFoundError
  | accountNotFoundError
  | transactionNotFoundError
  | batchNotFoundError
  | reconciliationItemNotFoundError
  | chargeProjectionNotFoundError
  | bankAccountProjectionNotFoundError
  | ledgerIntegrityError
  | unbalancedTransactionError
  | negativeAmountError
  | livemodeMismatchError
  | currencyMismatchError
  | accountFrozenError
  | idempotencyConflictError
  | duplicateSettlementError
  | settlementError
  | batchNotReconcilableError
  | settlementLockedError
  | orphanedItemError
  | retryableSettlementError
  | settlementVarianceExceededError
  | retryExhaustedError
  | payoutError
  | payoutBlockedError
  | insufficientBalanceError
  | bankAccountUnusableError
  | dualControlRequiredError
  | duplicateDisputeError
  | upstreamError
  | processorUnavailableError
  | processorIndeterminateError
  | settlementFileNotReadyError
  | fxRateUnavailableError
  | busPublishError
deriving DecidableEq, Repr

namespace ErrorClass

def parent : ErrorClass → Option ErrorClass
  | .payzenoLedgerError => none
  | .accountNotFoundError | .transactionNotFoundError | .batchNotFoundError
  | .reconciliationItemNotFoundError | .chargeProjectionNotFoundError
  | .bankAccountProjectionNotFoundError => some .notFoundError
  | .unbalancedTransactionError | .negativeAmountError | .livemodeMismatchError
  | .currencyMismatchError => some .ledgerIntegrityError
  | .duplicateSettlementError => some .idempotencyConflictError
  | .batchNotReconcilableError | .settlementLockedError | .orphanedItemError
  | .retryableSettlementError | .settlementVarianceExceededError
  | .retryExhaustedError => some .settlementError
  | .payoutBlockedError | .insufficientBalanceError
  | .bankAccountUnusableError => some .payoutError
  | .processorUnavailableError | .processorIndeterminateError
  | .fxRateUnavailableError | .busPublishError => some .upstreamError
  | .validationError | .notFoundError | .ledgerIntegrityError | .accountFrozenError
  | .idempotencyConflictError | .settlementError | .payoutError
  | .dualControlRequiredError | .duplicateDisputeError | .upstreamError
  | .settlementFileNotReadyError => some .payzenoLedgerError

def code : ErrorClass → String
  | .payzenoLedgerError => "internal_error"
  | .validationError => "validation_failed"
  | .notFoundError | .accountNotFoundError | .transactionNotFoundError
  | .batchNotFoundError | .reconciliationItemNotFoundError
  | .chargeProjectionNotFoundError | .bankAccountProjectionNotFoundError => "not_found"
  | .ledgerIntegrityError | .unbalancedTransactionError | .negativeAmountError
  | .livemodeMismatchError => "ledger_imbalance"
  | .currencyMismatchError => "currency_mismatch"
  | .accountFrozenError => "account_frozen"
  | .idempotencyConflictError | .duplicateSettlementError => "duplicate_settlement"
  | .settlementError => "settlement_failed"
  | .batchNotReconcilableError => "batch_not_reconcilable"
  | .settlementLockedError => "settlement_locked"
  | .orphanedItemError => "orphaned_item"
  | .retryableSettlementError => "retryable_settlement"
  | .settlementVarianceExceededError => "settlement_variance_exceeded"
  | .retryExhaustedError => "retry_exhausted"
  | .payoutError | .payoutBlockedError | .insufficientBalanceError
  | .bankAccountUnusableError => "payout_blocked"
  | .dualControlRequiredError => "permission_denied"
  | .duplicateDisputeError => "duplicate_dispute"
  | .upstreamError => "internal_error"
  | .processorUnavailableError | .processorIndeterminateError => "processor_unavailable"
  | .settlementFileNotReadyError => "not_found"
  | .fxRateUnavailableError | .busPublishError => "internal_error"

/-- The class and its parents; the tree is three levels deep. -/
def ancestors (error : ErrorClass) : List ErrorClass :=
  match error.parent with
  | none => [error]
  | some parent =>
      match parent.parent with
      | none => [error, parent]
      | some root => [error, parent, root]

/-- `isinstance(error, cls)`. -/
def isInstance (error cls : ErrorClass) : Bool :=
  error.ancestors.contains cls

end ErrorClass

/-- A JSON value, under `error.details` or in an event payload. -/
inductive Json where
  | null
  | text (value : String)
  | int (value : Int)
  | bool (value : Bool)
  | instant (value : Nat)
  | list (values : List Json)
  | object (fields : List (String × Json))

/-- An instance of an error class.  Two conditions carry a runtime `code`; all
others keep the one of their class. -/
structure PayzenoLedgerError where
  cls : ErrorClass
  message : String
  details : List (String × Json) := []
  code : String := cls.code

/-- Errors of the interpreter and its library that the service never raises itself. -/
inductive BuiltinError where
  | keyError
  | typeError
  | attributeError
  | arithmeticError
  | recursionError
  | csvError
deriving DecidableEq, Repr

/-- What the HTTP library raises instead of a response. -/
inductive HttpxError where
  | connectTimeout
  | readTimeout
  | writeTimeout
  | poolTimeout
  | connectError
  | readError
  | writeError
  | closeError
  | localProtocolError
  | remoteProtocolError
  | proxyError
  | unsupportedProtocol
  | decodingError
  | tooManyRedirects
  | invalidUrl
deriving DecidableEq, Repr

/-- What a coroutine may raise: an error of the tree, the driver's `IntegrityError`, a
`ValueError` (undecodable text and JSON and failed validations are such), or an error
that the program has no class for. -/
inductive Exception where
  | ledger (error : PayzenoLedgerError)
  | integrityError
  | valueError (message : String)
  | builtin (error : BuiltinError)
  | httpx (error : HttpxError)

/-- Raise an error with details. -/
def ledgerError (cls : ErrorClass) (message : String)
    (details : List (String × Json) := []) : Exception :=
  .ledger { cls, message, details }

namespace Exception

/-- Whether `except cls` catches the exception. -/
def isInstance (cls : ErrorClass) : Exception → Bool
  | .ledger error => error.cls.isInstance cls
  | .integrityError => false
  | .valueError _ => false
  | .builtin _ => false
  | .httpx _ => false

end Exception

end PayzenoLedger
