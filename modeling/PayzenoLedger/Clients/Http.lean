import PayzenoLedger.System

/-!
# The acquirer clients

The wrapper around the HTTP library, and the two calls of a settlement that both
acquirers' clients make of it.  The wrapper names five exceptions of the library; the
others leave it as they are.
-/

set_option autoImplicit false

namespace PayzenoLedger

/-! ## The transport -/

/-- A response; a body that does not decode has no JSON. -/
structure HttpResponse where
  statusCode : Nat
  text : String
  json : Option Json

/-- How one request ended on the wire. -/
inductive Transport where
  | raises (error : HttpxError)
  | responds (response : HttpResponse)

/-- `_UNAVAILABLE_STATUSES`. -/
def unavailableStatuses : List Nat := [500, 502, 503, 504]

namespace LedgerHttpxClient

/-- `_safe_body`. -/
def safeBody (response : HttpResponse) : String :=
  String.ofList (response.text.toList.take 512)

def raiseForStatus (acquirer method path : String) (response : HttpResponse) :
    Except Exception Unit :=
  let status := response.statusCode
  if status < 400 then .ok ()
  else if status = 429 then
    .error (.ledger
      { cls := .processorUnavailableError
        message := acquirer ++ " rate limited " ++ method ++ " " ++ path
        details := [("acquirer", .text acquirer), ("status", .int status)]
        code := "rate_limited" })
  else if status ∈ unavailableStatuses then
    .error (.ledger
      { cls := .processorUnavailableError
        message := acquirer ++ " returned " ++ toString status ++ " for " ++ method ++ " " ++ path
        details := [("acquirer", .text acquirer), ("status", .int status),
          ("body", .text (safeBody response))]
        code := "processor_unavailable" })
  else
    .error (.ledger
      { cls := .upstreamError
        message := acquirer ++ " rejected " ++ method ++ " " ++ path ++ " with " ++ toString status
        details := [("acquirer", .text acquirer), ("status", .int status),
          ("body", .text (safeBody response))]
        code := "internal_error" })

/-- The exceptions of the library that the wrapper names; it does not know the others. -/
def translate (acquirer method path : String) : HttpxError → Exception
  | .readTimeout | .writeTimeout | .poolTimeout =>
      .ledger
        { cls := .processorIndeterminateError
          message := acquirer ++ " timed out on " ++ method ++ " " ++ path
          details := [("acquirer", .text acquirer), ("path", .text path)]
          code := "processor_timeout" }
  | .connectError =>
      .ledger
        { cls := .processorUnavailableError
          message := acquirer ++ " unreachable"
          details := [("acquirer", .text acquirer), ("path", .text path)]
          code := "processor_unavailable" }
  | .remoteProtocolError =>
      .ledger
        { cls := .processorIndeterminateError
          message := acquirer ++ " reset the connection on " ++ method ++ " " ++ path
          details := [("acquirer", .text acquirer), ("path", .text path)]
          code := "processor_connection_reset" }
  | error => .httpx error

/-- `_request`. -/
def request (acquirer method path : String) : Transport → Except Exception HttpResponse
  | .raises error => .error (translate acquirer method path error)
  | .responds response =>
      match raiseForStatus acquirer method path response with
      | .error raised => .error raised
      | .ok () => .ok response

end LedgerHttpxClient

/-! ## The calls of a settlement -/

/-- The truth value of a decoded value. -/
def Json.truthy : Json → Bool
  | .null => false
  | .text value => decide (value ≠ "")
  | .int value => decide (value ≠ 0)
  | .bool value => value
  | .instant value => decide (value ≠ 0)
  | .list values => !values.isEmpty
  | .object fields => !fields.isEmpty

/-- The fields of a response; other values than objects have no `get`. -/
def HttpResponse.fields (response : HttpResponse) : Except Exception (List (String × Json)) :=
  match response.json with
  | none => .error (.valueError "Expecting value")
  | some (.object fields) => .ok fields
  | some _ => .error (.builtin .attributeError)

namespace ProcessorClient

/-- Acknowledge receipt of one settlement line. -/
def confirmSettlement (acquirer batchId : String) (transport : Transport) :
    Except Exception Unit :=
  match LedgerHttpxClient.request acquirer "POST"
      ("/v2/settlement-files/" ++ batchId ++ "/confirm") transport with
  | .error raised => .error raised
  | .ok _ => .ok ()

/-- Capture an authorisation; `str` is the interpreter's on values that are no text. -/
def captureDeferred (str : Json → String) (acquirer reference idempotencyKey : String)
    (transport : Transport) : Except Exception CaptureResponse :=
  match LedgerHttpxClient.request acquirer "POST"
      ("/v2/authorizations/" ++ reference ++ "/captures") transport with
  | .error raised => .error raised
  | .ok response =>
      match response.fields with
      | .error raised => .error raised
      | .ok fields =>
          .ok
            { captured := ((fields.lookup "captured").getD (.bool true)).truthy
              reference :=
                match fields.lookup "reference" with
                | none => idempotencyKey
                | some value =>
                    if value.truthy then
                      match value with
                      | .text reference => reference
                      | value => str value
                    else idempotencyKey }

end ProcessorClient

/-! ## What leaves the clients -/

/-- The tree has one root. -/
@[simp]
theorem ErrorClass.isInstance_root (cls : ErrorClass) :
    cls.isInstance .payzenoLedgerError = true := by
  cases cls <;> rfl

namespace LedgerHttpxClient

end LedgerHttpxClient

namespace ProcessorClient

/-- The environment's answers to a confirmation include all that a client can give. -/
theorem respond_confirmSettlement (worker : Nat) (world : World)
    (acquirer acquirerReference batchId : String) (transport : Transport) :
    ∃ choice, World.respond worker (.confirmSettlement acquirer acquirerReference batchId) choice
      world = some (confirmSettlement acquirer batchId transport, world) := by
  cases confirmSettlement acquirer batchId transport with
  | ok value => exact ⟨.plain, rfl⟩
  | error raised => exact ⟨.fails raised, rfl⟩

/-- So do its answers to a capture, whether or not one that failed was performed. -/
theorem respond_captureDeferred (worker : Nat) (world : World) (str : Json → String)
    (acquirer chargeId currency reference idempotencyKey : String) (amountMinor : Int)
    (item : Option String) (transport : Transport) :
    ∃ choice world', World.respond worker
      (.captureDeferred chargeId amountMinor currency reference idempotencyKey item) choice
      world = some (captureDeferred str acquirer reference idempotencyKey transport, world') := by
  cases captureDeferred str acquirer reference idempotencyKey transport with
  | ok response =>
      obtain ⟨captured, reference'⟩ := response
      cases captured with
      | true => exact ⟨.capture (.captured reference'), _, rfl⟩
      | false => exact ⟨.capture (.declined reference'), _, rfl⟩
  | error raised => exact ⟨.capture (.raises raised true), _, rfl⟩

end ProcessorClient

end PayzenoLedger
