import PayzenoLedger.Library.Relational

/-!
# Interleaved database transactions

Workers run programs whose steps are single SQL statements, session boundaries
and calls to the outside world.  A session sees the committed database with its
own writes on top (READ COMMITTED), holds the locks its statements took until
it ends, and commits its writes at once.  `step` runs one step of one worker, so
a schedule is a list of actions.
-/

set_option autoImplicit false

namespace PayzenoLedger.Library

/-- The database schema together with everything a worker meets outside it:
advisory locks, ghost marks on a transaction, session names, the choices left
to the environment, and the requests the outside world answers. -/
structure System where
  schema : Schema
  Advisory : Type
  Mark : Type
  Name : Type
  Choice : Type
  World : Type
  Request : Type
  Reply : Request → Type
  decAdvisory : DecidableEq Advisory
  respond : (worker : Nat) → (request : Request) → Choice → World →
    Option (Reply request × World)
  drift : Choice → World → Option World

instance {Y : System} : DecidableEq Y.Advisory := Y.decAdvisory

/-- A lock that at most one session holds. -/
inductive Lock (Y : System) where
  | key (key : Y.schema.Key)
  | advisory (advisory : Y.Advisory)

instance {Y : System} : DecidableEq (Lock Y)
  | .key first, .key second =>
      if h : first = second then isTrue (congrArg Lock.key h)
      else isFalse fun heq => h (Lock.key.inj heq)
  | .advisory first, .advisory second =>
      if h : first = second then isTrue (congrArg Lock.advisory h)
      else isFalse fun heq => h (Lock.advisory.inj heq)
  | .key _, .advisory _ => isFalse (by simp)
  | .advisory _, .key _ => isFalse (by simp)

/-- How an `UPDATE` of the row under one key ended. -/
inductive Updated where
  | done
  | missing
  | conflict
deriving DecidableEq, Repr

/-- One SQL statement.  A `select` may depend on the environment's choice where
the statement leaves something open (an order, a generated value).  An `insert`
returns the keys that refused the row, none when the row went in. -/
inductive Statement (Y : System) : Type → Type 1 where
  | select {β : Type} (query : Y.World → Y.Choice → Y.schema.Database → Option β) :
      Statement Y β
  | selectForUpdate (table : Y.schema.Table) (key : Y.schema.Key)
      (condition : Y.schema.Row table → Bool) (skipLocked : Bool) :
      Statement Y (Option (Y.schema.Row table))
  | insert (table : Y.schema.Table) (row : Y.schema.Row table) :
      Statement Y (List Y.schema.Key)
  | update (table : Y.schema.Table) (key : Y.schema.Key)
      (change : Y.schema.Row table → Y.schema.Row table)
      (immutable : ∀ row, Y.schema.identity table (change row) = Y.schema.identity table row) :
      Statement Y Updated
  | acquire (advisory : Y.Advisory) : Statement Y Unit
  | tryAcquire (advisory : Y.Advisory) : Statement Y Bool

/-- The result of a statement, the writes it adds and the locks it takes. -/
structure Outcome (Y : System) (β : Type) where
  value : β
  writes : List (Write Y.schema)
  locks : List (Lock Y)

namespace Statement

open Schema

variable {Y : System}

/-- Run a statement on the database its session sees.  `free` tells which locks
no other session holds; `none` means that the statement waits. -/
def exec {β : Type} (world : Y.World) (choice : Y.Choice) (free : Lock Y → Bool)
    (view : Y.schema.Database) : Statement Y β → Option (Outcome Y β)
  | .select query => (query world choice view).map fun value => ⟨value, [], []⟩
  | .selectForUpdate table key condition skipLocked =>
      match (holders table key view).find? condition with
      | none => some ⟨none, [], []⟩
      | some row =>
          let locks := (Y.schema.keys table row).map Lock.key
          if locks.all free then some ⟨some row, [], locks⟩
          else if skipLocked then some ⟨none, [], []⟩ else none
  | .insert table row =>
      let keys := Y.schema.keys table row
      let taken := keys.filter fun key => !(holders table key view).isEmpty
      if taken.isEmpty then
        if (keys.map Lock.key).all free then
          some ⟨[], [.insert table row], keys.map Lock.key⟩
        else none
      else some ⟨taken, [], []⟩
  | .update table key change immutable =>
      match (holders table key view).head? with
      | none => some ⟨.missing, [], []⟩
      | some row =>
          let keys := Y.schema.keys table row ++ Y.schema.keys table (change row)
          if (keys.map Lock.key).all free then
            if (Y.schema.keys table (change row)).all (fun k =>
                decide (k ∈ Y.schema.keys table row) || (holders table k view).isEmpty) then
              some ⟨.done, [.update table key change immutable], keys.map Lock.key⟩
            else some ⟨.conflict, [], []⟩
          else none
  | .acquire advisory =>
      if free (.advisory advisory) then some ⟨(), [], [.advisory advisory]⟩ else none
  | .tryAcquire advisory =>
      if free (.advisory advisory) then some ⟨true, [], [.advisory advisory]⟩
      else some ⟨false, [], []⟩

end Statement

/-! ## Programs -/

/-- What a worker does next.  `mark` is ghost: it names what the current
transaction is about to do.  `halt` is a process that has died. -/
inductive Program (Y : System) (α : Type) : Type 1 where
  | ret (value : α)
  | run {β : Type} (statement : Statement Y β) (next : β → Program Y α)
  | enter (name : Y.Name) (next : Program Y α)
  | leave (commit : Bool) (next : Program Y α)
  | call (request : Y.Request) (next : Y.Reply request → Program Y α)
  | mark (label : Y.Mark) (next : Program Y α)
  | halt

namespace Program

variable {Y : System} {α β : Type}

def bind : Program Y α → (α → Program Y β) → Program Y β
  | .ret value, next => next value
  | .run statement rest, next => .run statement fun value => (rest value).bind next
  | .enter name rest, next => .enter name (rest.bind next)
  | .leave commit rest, next => .leave commit (rest.bind next)
  | .call request rest, next => .call request fun reply => (rest reply).bind next
  | .mark label rest, next => .mark label (rest.bind next)
  | .halt, _ => .halt

instance : Monad (Program Y) where
  pure := .ret
  bind := bind

end Program

/-- A program that may raise. -/
abbrev Raising (Y : System) (ε α : Type) : Type 1 := ExceptT ε (Program Y) α

namespace Raising

variable {Y : System} {ε α β : Type}

def execute (statement : Statement Y β) : Raising Y ε β :=
  ExceptT.lift (.run statement .ret)

def call (request : Y.Request) : Raising Y ε (Y.Reply request) :=
  ExceptT.lift (.call request .ret)

def mark (label : Y.Mark) : Raising Y ε Unit :=
  ExceptT.lift (.mark label (.ret ()))

/-- A plain read of the database the session sees. -/
def select (query : Y.schema.Database → β) : Raising Y ε β :=
  execute (.select fun _ _ db => some (query db))

/-- `async with sessions.begin()`: commit when the body returns, roll back when
it raises. -/
def withSession (name : Y.Name) (body : Raising Y ε α) : Raising Y ε α :=
  ExceptT.mk (.enter name (body.run.bind fun
    | .ok value => .leave true (.ret (.ok value))
    | .error error => .leave false (.ret (.error error))))

/-- `try: body except: handler`, where the handler re-raises what it does not
handle. -/
def recover (body : Raising Y ε α) (handler : ε → Raising Y ε α) : Raising Y ε α :=
  ExceptT.mk (body.run.bind fun
    | .ok value => .ret (.ok value)
    | .error error => (handler error).run)

end Raising

/-! ## Workers and their shared state -/

/-- What can be observed of a run, tagged with the worker that did it. -/
inductive Event (Y : System) where
  | began (name : Y.Name)
  | committed (name : Y.Name) (writes : List (Write Y.schema))
  | rolledBack (name : Y.Name)
  | crashed
  | called (request : Y.Request) (reply : Y.Reply request)

/-- An open transaction: its uncommitted writes, the locks it holds and its
ghost marks. -/
structure Session (Y : System) where
  name : Y.Name
  writes : List (Write Y.schema)
  locks : List (Lock Y)
  marks : List Y.Mark

/-- What all workers share; the trace is ghost. -/
structure Shared (Y : System) where
  committed : Y.schema.Database
  world : Y.World
  trace : List (Nat × Event Y)

structure Worker (Y : System) (α : Type) : Type 1 where
  stack : List (Session Y)
  program : Program Y α

structure Config (Y : System) (α : Type) : Type 1 where
  shared : Shared Y
  workers : List (Worker Y α)

namespace Session

variable {Y : System}

def fresh (name : Y.Name) : Session Y := ⟨name, [], [], []⟩

/-- The database a session sees: its own writes over what is committed. -/
def view (session : Session Y) (db : Y.schema.Database) : Y.schema.Database :=
  Write.applyAll session.writes db

def extend {β : Type} (session : Session Y) (outcome : Outcome Y β) : Session Y :=
  { session with
    writes := session.writes ++ outcome.writes
    locks := session.locks ++ outcome.locks }

end Session

namespace Shared

variable {Y : System}

def log (shared : Shared Y) (worker : Nat) (event : Event Y) : Shared Y :=
  { shared with trace := shared.trace ++ [(worker, event)] }

def commit (shared : Shared Y) (worker : Nat) (session : Session Y) : Shared Y :=
  { shared with
    committed := session.view shared.committed
    trace := shared.trace ++ [(worker, .committed session.name session.writes)] }

def answer (shared : Shared Y) (worker : Nat) (world : Y.World) (request : Y.Request)
    (reply : Y.Reply request) : Shared Y :=
  { shared with
    world := world
    trace := shared.trace ++ [(worker, .called request reply)] }

/-- The events of one worker. -/
def eventsOf (shared : Shared Y) (worker : Nat) : List (Event Y) :=
  (shared.trace.filter fun entry => entry.1 = worker).map (·.2)

/-- An event is its worker's alone. -/
theorem eventsOf_append {shared shared' : Shared Y} {author : Nat} {event : Event Y}
    (htrace : shared'.trace = shared.trace ++ [(author, event)]) (worker : Nat) :
    shared'.eventsOf worker =
      shared.eventsOf worker ++ if author = worker then [event] else [] := by
  unfold eventsOf
  rw [htrace, List.filter_append, List.map_append]
  by_cases hsame : author = worker <;> simp [hsame]

@[simp]
theorem eventsOf_log (shared : Shared Y) (worker : Nat) (event : Event Y) :
    (shared.log worker event).eventsOf worker = shared.eventsOf worker ++ [event] := by
  simp [eventsOf, log]

@[simp]
theorem eventsOf_commit (shared : Shared Y) (worker : Nat) (session : Session Y) :
    (shared.commit worker session).eventsOf worker =
      shared.eventsOf worker ++ [Event.committed session.name session.writes] := by
  simp [eventsOf, commit]

@[simp]
theorem eventsOf_answer (shared : Shared Y) (worker : Nat) (world : Y.World)
    (request : Y.Request) (reply : Y.Reply request) :
    (shared.answer worker world request reply).eventsOf worker =
      shared.eventsOf worker ++ [Event.called request reply] := by
  simp [eventsOf, answer]

end Shared

/-- A lock that some session of a stack holds. -/
def Held {Y : System} (stack : List (Session Y)) (lock : Lock Y) : Prop :=
  ∃ session ∈ stack, lock ∈ session.locks

instance {Y : System} (stack : List (Session Y)) (lock : Lock Y) :
    Decidable (Held stack lock) :=
  inferInstanceAs (Decidable (∃ session ∈ stack, lock ∈ session.locks))

inductive Action (Y : System) where
  | advance (worker : Nat) (choice : Y.Choice)
  | crash (worker : Nat)
  | drift (choice : Y.Choice)

namespace Config

variable {Y : System} {α : Type}

/-- No session other than the top one of this worker holds the lock. -/
def free (config : Config Y α) (worker : Nat) (rest : List (Session Y)) (lock : Lock Y) :
    Bool :=
  !(decide (Held rest lock)) &&
    config.workers.zipIdx.all fun entry =>
      entry.2 == worker || !(decide (Held entry.1.stack lock))

def setWorker (config : Config Y α) (worker : Nat) (state : Worker Y α) : Config Y α :=
  { config with workers := config.workers.set worker state }

/-- One step of one worker. -/
def advance (config : Config Y α) (worker : Nat) (choice : Y.Choice) :
    Option (Config Y α) :=
  match config.workers[worker]? with
  | none => none
  | some ⟨stack, program⟩ =>
      match program, stack with
      | .ret _, _ => none
      | .halt, _ => none
      | .run _ _, [] => none
      | .run statement next, top :: rest =>
          (statement.exec config.shared.world choice (config.free worker rest)
            (top.view config.shared.committed)).map fun outcome =>
              config.setWorker worker ⟨top.extend outcome :: rest, next outcome.value⟩
      | .enter name next, stack =>
          some { shared := config.shared.log worker (.began name)
                 workers := config.workers.set worker ⟨Session.fresh name :: stack, next⟩ }
      | .leave _ _, [] => none
      | .leave true next, top :: rest =>
          some { shared := config.shared.commit worker top
                 workers := config.workers.set worker ⟨rest, next⟩ }
      | .leave false next, top :: rest =>
          some { shared := config.shared.log worker (.rolledBack top.name)
                 workers := config.workers.set worker ⟨rest, next⟩ }
      | .call request next, stack =>
          (Y.respond worker request choice config.shared.world).map fun answer =>
            { shared := config.shared.answer worker answer.2 request answer.1
              workers := config.workers.set worker ⟨stack, next answer.1⟩ }
      | .mark _ _, [] => none
      | .mark label next, top :: rest =>
          some (config.setWorker worker
            ⟨{ top with marks := top.marks ++ [label] } :: rest, next⟩)

/-- One action.  A crash takes the worker's open sessions with it. -/
def step (config : Config Y α) : Action Y → Option (Config Y α)
  | .advance worker choice => config.advance worker choice
  | .crash worker =>
      if worker < config.workers.length then
        some { shared := config.shared.log worker .crashed
               workers := config.workers.set worker ⟨[], .halt⟩ }
      else none
  | .drift choice =>
      (Y.drift choice config.shared.world).map fun world =>
        { config with shared := { config.shared with world := world } }

end Config

end PayzenoLedger.Library
