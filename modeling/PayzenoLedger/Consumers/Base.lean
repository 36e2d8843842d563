import PayzenoLedger.Library.Beside
import PayzenoLedger.System

/-!
# The consumers

The loop of a consumer and the claim it makes on `processed_event`.  A queue delivers a message
to anybody who asks, any number of times, until it is deleted.  Each message is one transaction:
the claim first, then what the consumer does with the event.  The handler is a coroutine of the
service; the queue and the claims are beside the service's own world and tables.
-/

set_option autoImplicit false

namespace PayzenoLedger

open Library

structure ProcessedEvent where
  eventId : String
  consumer : String
  processedAt : Instant
deriving DecidableEq, Repr

/-- The table of claims; its primary key is the event together with the consumer. -/
@[reducible]
def processedSchema : Schema where
  Database := List ProcessedEvent
  Table := Unit
  Row _ := ProcessedEvent
  Key := String × String
  Identity _ := ProcessedEvent
  decKey := inferInstance
  decTable := inferInstance
  rows _ db := db
  setRows _ rows _ := rows
  keys _ row := [(row.eventId, row.consumer)]
  identity _ row := row
  rows_setRows_self _ _ _ := rfl
  rows_setRows_of_ne _ _ _ _ h := absurd rfl h

/-! ## Messages -/

/-- What a consumer reads of an event. -/
structure EventEnvelope where
  id : String
  type : String
  occurredAt : String
  livemode : Bool
  payload : Json

structure Message where
  receiptHandle : String
  body : Option String
deriving DecidableEq, Repr

/-- `json.loads`, and the contracts' validation of an envelope. -/
structure EventCodec where
  loads : String → Except Exception Json
  toEnvelope : Json → Except Exception EventEnvelope

namespace EventCodec

/-- The publisher's payload: under "Message" where the notification came through a topic. -/
def unwrap (codec : EventCodec) : Json → Except Exception Json
  | .object fields =>
      match fields.lookup "Message" with
      | some (.text nested) => codec.loads nested
      | some _ => .error (.builtin .typeError)
      | none => .ok (.object fields)
  | .list values =>
      if values.any fun | .text value => value == "Message" | _ => false then
        .error (.builtin .typeError)
      else .ok (.list values)
  | .text value =>
      if 1 < (value.splitOn "Message").length then .error (.builtin .typeError)
      else .ok (.text value)
  | .null | .int _ | .bool _ | .instant _ => .error (.builtin .typeError)

/-- `BaseConsumer._parse`. -/
def parse (codec : EventCodec) (message : Message) : Except Exception EventEnvelope := do
  match message.body with
  | none => throw (.builtin .keyError)
  | some body => codec.toEnvelope (← codec.unwrap (← codec.loads body))

end EventCodec

/-! ## The queues -/

/-- The messages not deleted yet, each with the address of its queue, and all that were sent. -/
structure Bus where
  pending : List (String × Message) := []
  sent : List (String × Message) := []
deriving DecidableEq, Repr

inductive BusRequest where
  | receiveMessage (queueUrl : String)
  | deleteMessage (queueUrl receiptHandle : String)
deriving DecidableEq, Repr

@[reducible]
def BusRequest.Reply : BusRequest → Type
  | receiveMessage _ => Except Exception (List Message)
  | deleteMessage .. => Except Exception Unit

inductive BusChoice where
  | plain
  | delivers (positions : List Nat)
  | fails (error : Exception) (performed : Bool)
  | sends (queueUrl : String) (message : Message)

/-- `MAX_MESSAGES_PER_RECEIVE`. -/
def maxMessagesPerReceive : Nat := 10

namespace Bus

def deliver (bus : Bus) (queueUrl : String) (positions : List Nat) : List Message :=
  let queue := (bus.pending.filter fun entry => entry.1 = queueUrl).map (·.2)
  (positions.filterMap (queue[·]?)).take maxMessagesPerReceive

def delete (bus : Bus) (queueUrl receiptHandle : String) : Bus :=
  { bus with
    pending := bus.pending.filter fun entry =>
      !(entry.1 = queueUrl ∧ entry.2.receiptHandle = receiptHandle) }

/-- A request may fail, and a delete that failed may have been done all the same. -/
def respond (_worker : Nat) (request : BusRequest) (choice : BusChoice) (bus : Bus) :
    Option (request.Reply × Bus) :=
  match request, choice with
  | .receiveMessage queueUrl, .delivers positions =>
      some (.ok (bus.deliver queueUrl positions), bus)
  | .receiveMessage _, .fails error _ => some (.error error, bus)
  | .deleteMessage queueUrl receiptHandle, .plain =>
      some (.ok (), bus.delete queueUrl receiptHandle)
  | .deleteMessage queueUrl receiptHandle, .fails error performed =>
      some (.error error, if performed then bus.delete queueUrl receiptHandle else bus)
  | _, _ => none

/-- Somebody sends a message, under a handle of its own. -/
def drift : BusChoice → Bus → Option Bus
  | .sends queueUrl message, bus =>
      if (queueUrl, message.receiptHandle) ∈
          bus.sent.map fun entry => (entry.1, entry.2.receiptHandle) then none
      else some ⟨bus.pending ++ [(queueUrl, message)], bus.sent ++ [(queueUrl, message)]⟩
  | _, _ => none

end Bus

/-- The transaction in which a consumer handles an event. -/
inductive ConsumerSession where
  | message (consumer : String) (envelope : EventEnvelope)

/-- The claims and the queues. -/
@[reducible]
def inbox : Annex where
  schema := processedSchema
  Name := ConsumerSession
  Choice := BusChoice
  World := Bus
  Request := BusRequest
  Reply := BusRequest.Reply
  respond := Bus.respond
  drift := Bus.drift

/-- The service with its consumers. -/
@[reducible]
def consumerSystem : System :=
  system.among inbox

/-- A coroutine of a consumer. -/
abbrev Consuming (α : Type) : Type 1 := Raising consumerSystem Exception α

/-- `datetime.now`: any time at all, where the clock is not the injected one. -/
def wallClock : Consuming Instant :=
  Raising.execute (.select fun _ choice _ =>
    match choice with
    | .inr (.instant value) => some value
    | _ => none)

/-- What a request was answered. -/
def answered {α : Type} : Except Exception α → Consuming α
  | .ok value => pure value
  | .error error => throw error

/-- `ProcessedEventRepository.claim`: insert first, true when the claim is ours. -/
def ProcessedEventRepository.claim (eventId consumer : String) : Consuming Bool := do
  let processedAt ← wallClock
  let row : ProcessedEvent := ⟨eventId, consumer, processedAt⟩
  match ← Raising.execute (.insert (Y := consumerSystem) (.inl ()) row) with
  | [] => pure true
  | _ :: _ => pure false

/-! ## The loop -/

/-- A consumer of one queue; `handle` is what its class adds. -/
structure BaseConsumer where
  consumerName : String
  handledTypes : List String
  queueUrl : String
  handle : EventEnvelope → Async Unit

namespace BaseConsumer

/-- The exceptions of a body that cannot be read. -/
def isUnparseable : Exception → Bool
  | .valueError _ => true
  | .builtin error => error = .keyError
  | _ => false

/-- `_handle_message`: true when the message may be deleted from the queue. -/
def handleMessage (codec : EventCodec) (consumer : BaseConsumer) (message : Message) :
    Consuming Bool :=
  match codec.parse message with
  | .error error => if isUnparseable error then pure false else throw error
  | .ok envelope =>
      if envelope.type ∉ consumer.handledTypes then pure true
      else
        Raising.recover (Raising.withSession (Y := consumerSystem)
          (.inl (.message consumer.consumerName envelope)) do
            let claimed ← ProcessedEventRepository.claim envelope.id consumer.consumerName
            if claimed then (consumer.handle envelope).among inbox
            pure true)
          fun
          | .ledger _ => pure false
          | error => throw error

def handleMessages (codec : EventCodec) (consumer : BaseConsumer) : List Message → Consuming Unit
  | [] => pure ()
  | message :: messages => do
      let handled ← handleMessage codec consumer message
      if handled then
        answered (← Raising.call (Y := consumerSystem)
          (.inl (.deleteMessage consumer.queueUrl message.receiptHandle)))
      handleMessages codec consumer messages

/-- `run`, when `stop` is set after so many polls. -/
def run (codec : EventCodec) (consumer : BaseConsumer) : Nat → Consuming Unit
  | 0 => pure ()
  | polls + 1 => do
      let messages ← answered
        (← Raising.call (Y := consumerSystem) (.inl (.receiveMessage consumer.queueUrl)))
      handleMessages codec consumer messages
      run codec consumer polls

end BaseConsumer

end PayzenoLedger
