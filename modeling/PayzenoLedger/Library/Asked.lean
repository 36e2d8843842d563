import PayzenoLedger.Library.Attested

/-!
# Calls that agree with what was read

Where every write keeps a property of the database, what a program reads agrees with it,
and so may what it asks of the outside world.  `Program.Asks` bounds the calls of a program
by the session that it began last; in every run the bound holds of every call.
-/

set_option autoImplicit false

namespace PayzenoLedger.Library

variable {Y : System} {ε α β : Type}

def nextBegan (current : Option Y.Name) : Event Y → Option Y.Name
  | .began name => some name
  | _ => current

/-- The session begun last, open or not. -/
def lastBegan : List (Event Y) → Option Y.Name :=
  List.foldl nextBegan none

/-- Every call is one that may follow the session begun last before it. -/
def AllAsked (asked : Option Y.Name → Y.Request → Prop) (events : List (Event Y)) : Prop :=
  ∀ before request reply after, events = before ++ .called request reply :: after →
    asked (lastBegan before) request

/-- The calls, each with the session begun last before it. -/
def callsFrom (current : Option Y.Name) : List (Event Y) → List (Option Y.Name × Y.Request)
  | [] => []
  | .called request _ :: events => (current, request) :: callsFrom current events
  | event :: events => callsFrom (nextBegan current event) events

theorem mem_callsFrom {current : Option Y.Name} {events before after : List (Event Y)}
    {request : Y.Request} {reply : Y.Reply request}
    (hevents : events = before ++ .called request reply :: after) :
    (before.foldl nextBegan current, request) ∈ callsFrom current events := by
  subst hevents
  induction before generalizing current with
  | nil => exact List.mem_cons_self
  | cons event before ih =>
      cases event with
      | called request' reply' => exact List.mem_cons_of_mem _ ih
      | _ => exact ih

theorem exists_of_mem_callsFrom {current : Option Y.Name} {events : List (Event Y)}
    {call : Option Y.Name × Y.Request} (hcall : call ∈ callsFrom current events) :
    ∃ before reply after, events = before ++ .called call.2 reply :: after ∧
      before.foldl nextBegan current = call.1 := by
  induction events generalizing current with
  | nil => cases hcall
  | cons event events ih =>
      have hlater (hcall : call ∈ callsFrom (nextBegan current event) events) :
          ∃ before reply after, event :: events = before ++ .called call.2 reply :: after ∧
            before.foldl nextBegan current = call.1 := by
        obtain ⟨before, reply, after, hevents, hlast⟩ := ih hcall
        exact ⟨event :: before, reply, after, by rw [hevents, List.cons_append], hlast⟩
      cases event with
      | called request reply =>
          rcases List.mem_cons.mp hcall with rfl | hcall
          · exact ⟨[], reply, events, rfl, rfl⟩
          · exact hlater hcall
      | _ => exact hlater hcall

theorem allAsked_iff {asked : Option Y.Name → Y.Request → Prop} {events : List (Event Y)} :
    AllAsked asked events ↔ ∀ call ∈ callsFrom none events, asked call.1 call.2 := by
  constructor
  · intro all call hcall
    obtain ⟨before, reply, after, hevents, hlast⟩ := exists_of_mem_callsFrom hcall
    exact hlast ▸ all before call.2 reply after hevents
  · intro all before request reply after hevents
    exact all _ (mem_callsFrom hevents)

@[simp]
theorem lastBegan_append (events : List (Event Y)) (event : Event Y) :
    lastBegan (events ++ [event]) = match event with
      | .began name => some name
      | _ => lastBegan events := by
  unfold lastBegan
  rw [List.foldl_append]
  rfl

/-- Bounds that agree on the calls made hold of them together. -/
theorem AllAsked.congr {asked first second : Option Y.Name → Y.Request → Prop}
    {events : List (Event Y)} (all : AllAsked asked events)
    (h : ∀ current request, asked current request → (first current request ↔
      second current request)) : AllAsked first events ↔ AllAsked second events :=
  forall_congr' fun before => forall_congr' fun request => forall_congr' fun reply =>
    forall_congr' fun after => forall_congr' fun hevents =>
      h _ _ (all before request reply after hevents)

theorem AllAsked.append {asked : Option Y.Name → Y.Request → Prop} {events : List (Event Y)}
    (all : AllAsked asked events) {event : Event Y}
    (h : ∀ request reply, event = .called request reply → asked (lastBegan events) request) :
    AllAsked asked (events ++ [event]) := by
  intro before request reply after hevents
  rcases List.eq_nil_or_concat after with rfl | ⟨rest, last, rfl⟩
  · obtain ⟨rfl, hlast⟩ := List.append_inj' hevents rfl
    exact h request reply (List.singleton_inj.mp hlast)
  · rw [List.concat_eq_append, ← List.cons_append, ← List.append_assoc] at hevents
    exact all before request reply rest (List.append_inj' hevents rfl).1

/-- The calls of the program are as they should be, as far as what it has read tells and by
the session begun last. -/
def Program.Asks (holds : Y.schema.Database → Prop) (asked : Option Y.Name → Y.Request → Prop) :
    Program Y α → Option Y.Name → (Option Y.Name → α → Prop) → Prop
  | .ret value, current, post => post current value
  | .halt, _, _ => True
  | .run statement next, current, post =>
      ∀ value, statement.Yields holds value → (next value).Asks holds asked current post
  | .enter name next, _, post => next.Asks holds asked (some name) post
  | .leave _ next, current, post => next.Asks holds asked current post
  | .call request next, current, post =>
      asked current request ∧ ∀ reply, (next reply).Asks holds asked current post
  | .mark _ next, current, post => next.Asks holds asked current post

variable {holds : Y.schema.Database → Prop} {asked : Option Y.Name → Y.Request → Prop}

theorem Program.Asks.bind {program : Program Y α} {next : α → Program Y β}
    {current : Option Y.Name} {post : Option Y.Name → β → Prop}
    (asks : program.Asks holds asked current fun current' value =>
      (next value).Asks holds asked current' post) :
    (program.bind next).Asks holds asked current post := by
  induction program generalizing current with
  | ret value => exact asks
  | halt => trivial
  | run statement rest ih => exact fun value hyields => ih value (asks value hyields)
  | enter name rest ih => exact ih asks
  | leave commit rest ih => exact ih asks
  | call request rest ih => exact ⟨asks.1, fun reply => ih reply (asks.2 reply)⟩
  | mark label rest ih => exact ih asks

theorem Program.Asks.mono {program : Program Y α} {current : Option Y.Name}
    {post post' : Option Y.Name → α → Prop} (asks : program.Asks holds asked current post)
    (h : ∀ current' value, post current' value → post' current' value) :
    program.Asks holds asked current post' := by
  induction program generalizing current with
  | ret value => exact h current value asks
  | halt => trivial
  | run statement rest ih => exact fun value hyields => ih value (asks value hyields)
  | enter name rest ih => exact ih asks
  | leave commit rest ih => exact ih asks
  | call request rest ih => exact ⟨asks.1, fun reply => ih reply (asks.2 reply)⟩
  | mark label rest ih => exact ih asks

/-! ## Runs -/

/-- The invariant of a run. -/
structure Config.Asks (holds : Y.schema.Database → Prop)
    (asked : Option Y.Name → Y.Request → Prop) (config : Config Y α) : Prop where
  workers : ∀ index (worker : Worker Y α), config.workers[index]? = some worker → ∃ post,
    worker.program.Asks holds asked (lastBegan (config.shared.eventsOf index)) post
  asked : ∀ index, AllAsked asked (config.shared.eventsOf index)

section Steps

variable {config config' : Config Y α}

/-- One worker goes on, and logs nothing. -/
theorem Config.Asks.set (asks : config.Asks holds asked) (post : Option Y.Name → α → Prop)
    {worker : Nat} {state : Worker Y α}
    (hstate : state.program.Asks holds asked (lastBegan (config.shared.eventsOf worker)) post) :
    Config.Asks holds asked ⟨config.shared, config.workers.set worker state⟩ where
  workers index other hother := by
    by_cases hsame : worker = index
    · subst hsame
      rw [List.getElem?_set_self'] at hother
      obtain ⟨_, -, rfl⟩ := Option.map_eq_some_iff.mp hother
      exact ⟨post, hstate⟩
    · rw [List.getElem?_set_ne hsame] at hother
      exact asks.workers index other hother
  asked := asks.asked

/-- One worker goes on, and logs an event. -/
theorem Config.Asks.log (asks : config.Asks holds asked) (post : Option Y.Name → α → Prop)
    {worker : Nat} {state : Worker Y α} {shared : Shared Y} {event : Event Y}
    (htrace : shared.trace = config.shared.trace ++ [(worker, event)])
    (hevent : ∀ request reply, event = .called request reply →
      asked (lastBegan (config.shared.eventsOf worker)) request)
    (hstate : state.program.Asks holds asked
      (lastBegan (config.shared.eventsOf worker ++ [event])) post) :
    Config.Asks holds asked ⟨shared, config.workers.set worker state⟩ where
  workers index other hother := by
    dsimp only at hother ⊢
    rw [Shared.eventsOf_append htrace]
    by_cases hsame : worker = index
    · subst hsame
      rw [List.getElem?_set_self'] at hother
      obtain ⟨_, -, rfl⟩ := Option.map_eq_some_iff.mp hother
      rw [if_pos rfl]
      exact ⟨post, hstate⟩
    · rw [List.getElem?_set_ne hsame] at hother
      rw [if_neg hsame, List.append_nil]
      exact asks.workers index other hother
  asked index := by
    dsimp only
    rw [Shared.eventsOf_append htrace]
    split
    · next hsame =>
        subst hsame
        exact (asks.asked worker).append hevent
    · rw [List.append_nil]
      exact asks.asked index

theorem Config.Asks.advance {allowed : Write Y.schema → Prop}
    (keeps : ∀ write db, allowed write → holds db → holds (write.apply db))
    (attests : config.Attests allowed holds) (asks : config.Asks holds asked) {worker : Nat}
    {choice : Y.Choice} (hstep : config.advance worker choice = some config') :
    config'.Asks holds asked := by
  unfold Config.advance at hstep
  split at hstep
  · cases hstep
  · rename_i stack program hworker
    obtain ⟨hstack, -⟩ := attests.workers _ (List.mem_of_getElem? hworker)
    obtain ⟨post, hprogram⟩ := asks.workers worker _ hworker
    split at hstep
    · cases hstep
    · cases hstep
    · cases hstep
    · rename_i statement next top rest
      obtain ⟨outcome, hexec, rfl⟩ := Option.map_eq_some_iff.mp hstep
      have hview : holds (top.view config.shared.committed) :=
        holds_applyAll keeps (List.forall_mem_cons.mp hstack).1 attests.committed
      refine asks.set post (hprogram outcome.value ?_)
      exact ⟨_, _, _, _, outcome, hview, hexec, rfl⟩
    · rename_i name next
      cases hstep
      refine asks.log post rfl (fun _ _ => nofun) ?_
      rw [lastBegan_append]
      exact hprogram
    · cases hstep
    · rename_i next top rest
      cases hstep
      refine asks.log post rfl (fun _ _ => nofun) ?_
      rw [lastBegan_append]
      exact hprogram
    · rename_i next top rest
      cases hstep
      refine asks.log post rfl (fun _ _ => nofun) ?_
      rw [lastBegan_append]
      exact hprogram
    · rename_i request next
      obtain ⟨⟨reply, world⟩, hreply, rfl⟩ := Option.map_eq_some_iff.mp hstep
      refine asks.log post rfl (fun request' reply' hcalled => ?_) ?_
      · cases hcalled
        exact hprogram.1
      · rw [lastBegan_append]
        exact hprogram.2 reply
    · cases hstep
    · rename_i label next top rest
      cases hstep
      exact asks.set post hprogram

theorem Config.Asks.step {allowed : Write Y.schema → Prop}
    (keeps : ∀ write db, allowed write → holds db → holds (write.apply db))
    (attests : config.Attests allowed holds) (asks : config.Asks holds asked) {action : Action Y}
    (hstep : config.step action = some config') : config'.Asks holds asked := by
  cases action with
  | advance worker choice => exact asks.advance keeps attests hstep
  | crash worker =>
      simp only [Config.step] at hstep
      split at hstep
      · cases hstep
        exact asks.log (fun _ _ => True) rfl
          (fun _ _ h => by cases h) trivial
      · cases hstep
  | drift choice =>
      obtain ⟨world, -, rfl⟩ := Option.map_eq_some_iff.mp hstep
      exact ⟨asks.workers, asks.asked⟩

/-- In every run, each call is as it should be. -/
theorem Config.Run.asks {permits : Condition Y} {allowed : Write Y.schema → Prop}
    (keeps : ∀ write db, allowed write → holds db → holds (write.apply db))
    {db : Y.schema.Database} {world : Y.World} {programs : List (Program Y α)}
    (hattests : ∀ program ∈ programs, ∃ post, program.Attests allowed holds post)
    (hasks : ∀ program ∈ programs, ∃ post, program.Asks holds asked none post)
    (hholds : holds db) (hrun : Config.Run permits (Config.start db world programs) config) :
    config.Asks holds asked := by
  induction hrun with
  | refl =>
      refine ⟨fun index worker hworker => ?_, fun index before request reply after hevents => ?_⟩
      · obtain ⟨program, hprogram, rfl⟩ :=
          List.mem_map.mp (List.mem_of_getElem? hworker)
        exact hasks program hprogram
      · have hnil : ([] : List (Event Y)) = before ++ .called request reply :: after := hevents
        simp at hnil
  | tail hbefore hstep ih =>
      obtain ⟨action, hstep, -⟩ := hstep
      exact ih.step keeps (Config.Run.attests keeps hattests hholds hbefore) hstep

end Steps

/-! ## Programs that may raise -/

namespace Raising

/-- Begun after this session the program asks as it should, and so much is known of what it
returns and of the session begun last by then. -/
def AsksFrom (holds : Y.schema.Database → Prop) (asked : Option Y.Name → Y.Request → Prop)
    (program : Raising Y ε α) (current : Option Y.Name) (post : Option Y.Name → α → Prop) : Prop :=
  Program.Asks holds asked program.run current fun current' result =>
    ∀ value, result = .ok value → post current' value

/-- The program asks as it should whatever session was begun last. -/
def Asks (holds : Y.schema.Database → Prop) (asked : Option Y.Name → Y.Request → Prop)
    (program : Raising Y ε α) : Prop :=
  ∀ current, AsksFrom holds asked program current fun _ _ => True

variable {current : Option Y.Name} {post : Option Y.Name → α → Prop}

theorem AsksFrom.pure {value : α} (h : post current value) :
    AsksFrom holds asked (pure value : Raising Y ε α) current post := by
  rintro _ ⟨⟩
  exact h

theorem AsksFrom.throw {raised : ε} :
    AsksFrom holds asked (throw raised : Raising Y ε α) current post := nofun

theorem AsksFrom.bind {program : Raising Y ε α} {next : α → Raising Y ε β}
    {post : Option Y.Name → β → Prop}
    (asks : AsksFrom holds asked program current fun current' value =>
      AsksFrom holds asked (next value) current' post) :
    AsksFrom holds asked (program >>= next) current post := by
  refine Program.Asks.bind (asks.mono fun current' result h => ?_)
  cases result with
  | ok value => exact h value rfl
  | error raised => exact nofun

theorem AsksFrom.mono {program : Raising Y ε α} {post' : Option Y.Name → α → Prop}
    (asks : AsksFrom holds asked program current post)
    (h : ∀ current' value, post current' value → post' current' value) :
    AsksFrom holds asked program current post' :=
  Program.Asks.mono asks fun current' _ hpost value hvalue => h current' value (hpost value hvalue)

theorem AsksFrom.execute {statement : Statement Y α}
    (h : ∀ value, statement.Yields holds value → post current value) :
    AsksFrom holds asked (Raising.execute statement : Raising Y ε α) current post := by
  rintro value hyields _ ⟨⟩
  exact h value hyields

theorem AsksFrom.select {query : Y.schema.Database → α}
    (h : ∀ view, holds view → post current (query view)) :
    AsksFrom holds asked (Raising.select query : Raising Y ε α) current post := by
  refine .execute fun value hyields => ?_
  obtain ⟨world, choice, free, view, outcome, hholds, hexec, rfl⟩ := hyields
  cases hexec
  exact h view hholds

theorem AsksFrom.call {request : Y.Request} {post : Option Y.Name → Y.Reply request → Prop}
    (hasked : asked current request) (h : ∀ reply, post current reply) :
    AsksFrom holds asked (Raising.call request : Raising Y ε _) current post := by
  refine ⟨hasked, fun reply => ?_⟩
  rintro _ ⟨⟩
  exact h reply

theorem AsksFrom.selectForUpdate {table : Y.schema.Table} {key : Y.schema.Key}
    {condition : Y.schema.Row table → Bool} {skipLocked : Bool}
    {post : Option Y.Name → Option (Y.schema.Row table) → Prop} (hnone : post current none)
    (hsome : ∀ view row, holds view → row ∈ Schema.holders table key view →
      post current (some row)) :
    AsksFrom holds asked
      (Raising.execute (.selectForUpdate table key condition skipLocked) : Raising Y ε _)
      current post := by
  refine .execute fun value hyields => ?_
  obtain ⟨world, choice, free, view, outcome, hholds, hexec, rfl⟩ := hyields
  simp only [Statement.exec] at hexec
  split at hexec
  · cases hexec
    exact hnone
  · next row hfind =>
      split at hexec
      · cases hexec
        exact hsome view row hholds (List.mem_of_find?_eq_some hfind)
      · split at hexec
        · cases hexec
          exact hnone
        · cases hexec

theorem AsksFrom.withSession {name : Y.Name} {body : Raising Y ε α}
    (asks : AsksFrom holds asked body (some name) post) :
    AsksFrom holds asked (withSession name body) current post := by
  refine Program.Asks.bind (Program.Asks.mono asks fun current' result h => ?_)
  cases result with
  | ok value => exact h
  | error raised => exact nofun

/-- A body that calls nobody begins no session either. -/
theorem AsksFrom.of_inward {allowed : Write Y.schema → Prop} {body : Raising Y ε α}
    (inward : Inward allowed body) (h : ∀ value, post current value) :
    AsksFrom holds asked body current post := by
  have hbody {program : Program Y (Except ε α)} (inward : program.Inward allowed) :
      program.Asks holds asked current fun current' result =>
        ∀ value, result = .ok value → post current' value := by
    induction program with
    | ret value => exact fun value _ => h value
    | halt => trivial
    | run statement rest ih => exact fun value _ => ih value (inward.2 value)
    | enter name rest _ => exact inward.elim
    | leave commit rest _ => exact inward.elim
    | call request rest _ => exact inward.elim
    | mark label rest ih => exact ih inward
  exact hbody inward

theorem AsksFrom.inward_bind {allowed : Write Y.schema → Prop} {body : Raising Y ε α}
    {next : α → Raising Y ε β} {post : Option Y.Name → β → Prop} (inward : Inward allowed body)
    (hnext : ∀ value, AsksFrom holds asked (next value) current post) :
    AsksFrom holds asked (body >>= next) current post :=
  .bind (.of_inward inward hnext)

theorem Asks.recover {body : Raising Y ε α} {handler : ε → Raising Y ε α}
    (asks : Asks holds asked body) (hhandler : ∀ raised, Asks holds asked (handler raised)) :
    Asks holds asked (recover body handler) := by
  intro current
  refine Program.Asks.bind (Program.Asks.mono (asks current) fun current' result h => ?_)
  cases result with
  | ok value => exact h
  | error raised => exact hhandler raised current'

theorem Asks.composes (routine : Write Y.schema → Prop) :
    Composes routine fun program : Raising Y ε _ => Asks holds asked program where
  inward hbody _ := .of_inward hbody fun _ => trivial
  bind hprogram hnext current := .bind ((hprogram current).mono fun current' value _ =>
    hnext value current')
  recover := .recover
  session hbody _ := .withSession (hbody _)

end Raising

end PayzenoLedger.Library
