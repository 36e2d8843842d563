import PayzenoLedger.Library.Transaction

/-!
# Rely-guarantee reasoning for interleaved transactions

A discipline says what every shared step guarantees to the other workers and
which invariant it keeps.  `wp` is the weakest precondition of a program whose
steps are interleaved with the steps of other workers: between two steps the
shared state may move along `Rely`, which never touches a row whose key the
worker has locked.  `Sound.run` turns the weakest preconditions of the separate
programs into facts about every reachable configuration.
-/

set_option autoImplicit false

namespace PayzenoLedger.Library

open Schema Write

/-- The steps that a condition on runs may speak of, a call with what it left of the
world. -/
inductive Move (Y : System) where
  | enter (name : Y.Name)
  | commit
  | rollback
  | call (request : Y.Request) (reply : Y.Reply request) (world : Y.World)
  | crash

/-- A condition on the steps of a run: the worker, its open sessions, the shared
state before the step, and the step. -/
abbrev Condition (Y : System) : Type :=
  Nat → List (Session Y) → Shared Y → Move Y → Prop

/-- The keys among a session's locks. -/
def Session.keys {Y : System} (session : Session Y) (key : Y.schema.Key) : Prop :=
  Lock.key key ∈ session.locks

/-- The rules all workers follow.  A mark may require a lock, and means something
of the database.  Opening a session, rolling back and crashing change the trace
only, so their obligations are stated here once. -/
structure Discipline (Y : System) where
  permits : Condition Y
  guarantee : Nat → (Lock Y → Prop) → Shared Y → Shared Y → Prop
  invariant : Shared Y → Prop
  required : Y.Mark → Option (Lock Y)
  meaning : Y.Mark → Y.schema.Database → Prop
  meaning_extends : ∀ label db db', Extends db db' → meaning label db → meaning label db'
  drift_sound : ∀ shared choice world, invariant shared →
    Y.drift choice shared.world = some world → invariant { shared with world := world }
  enter_sound : ∀ worker stack shared name, invariant shared →
    permits worker stack shared (.enter name) →
    guarantee worker (Held stack) shared (shared.log worker (.began name)) ∧
      invariant (shared.log worker (.began name))
  rollback_sound : ∀ worker top rest shared, invariant shared →
    permits worker (top :: rest) shared .rollback →
    guarantee worker (Held (top :: rest)) shared
        (shared.log worker (.rolledBack top.name)) ∧
      invariant (shared.log worker (.rolledBack top.name))
  crash_sound : ∀ worker stack shared, invariant shared →
    permits worker stack shared .crash →
    guarantee worker (Held stack) shared (shared.log worker .crashed) ∧
      invariant (shared.log worker .crashed)

namespace Discipline

variable {Y : System} (D : Discipline Y)

def Good (shared : Shared Y) : Prop :=
  Unique shared.committed ∧ D.invariant shared

/-- A session may carry the mark: the required lock is held, no session below
carries a mark that requires the same one, and what the mark means is so. -/
structure Allows (label : Y.Mark) (stack rest : List (Session Y))
    (db : Y.schema.Database) : Prop where
  held : ∀ lock, D.required label = some lock → Held stack lock
  single : ∀ lock, D.required label = some lock → ∀ session ∈ rest,
    ∀ other ∈ session.marks, D.required other ≠ some lock
  means : D.meaning label db

/-- One step of the environment of a worker that holds the given locks. -/
structure Interference (worker : Nat) (held : Lock Y → Prop)
    (shared shared' : Shared Y) : Prop where
  later : Later (fun key => held (.key key)) shared.committed shared'.committed
  invariant : D.invariant shared'
  cause : (∃ choice world, Y.drift choice shared.world = some world ∧
      shared' = { shared with world := world }) ∨
    ∃ other, other ≠ worker ∧ ∃ held', (∀ lock, held lock → ¬ held' lock) ∧
      D.guarantee other held' shared shared' ∧
      ∃ event, shared'.trace = shared.trace ++ [(other, event)]

/-- What may happen between two steps of a worker. -/
def Rely (worker : Nat) (held : Lock Y → Prop) : Shared Y → Shared Y → Prop :=
  Relation.ReflTransGen (D.Interference worker held)

variable {D}

theorem Interference.mono {worker : Nat} {wide narrow : Lock Y → Prop}
    {shared shared' : Shared Y} (step : D.Interference worker wide shared shared')
    (sub : ∀ lock, narrow lock → wide lock) :
    D.Interference worker narrow shared shared' where
  later := step.later.mono fun key => sub (.key key)
  invariant := step.invariant
  cause := step.cause.imp id fun ⟨other, hne, held', hdisjoint, hguarantee, hevent⟩ =>
    ⟨other, hne, held', fun lock hlock => hdisjoint lock (sub lock hlock), hguarantee, hevent⟩

theorem Rely.refl (worker : Nat) (held : Lock Y → Prop) (shared : Shared Y) :
    D.Rely worker held shared shared := Relation.ReflTransGen.refl

theorem Rely.trans {worker : Nat} {held : Lock Y → Prop} {first second third : Shared Y}
    (left : D.Rely worker held first second) (right : D.Rely worker held second third) :
    D.Rely worker held first third :=
  Relation.ReflTransGen.trans left right

theorem Rely.mono {worker : Nat} {wide narrow : Lock Y → Prop}
    {shared shared' : Shared Y} (rely : D.Rely worker wide shared shared')
    (sub : ∀ lock, narrow lock → wide lock) : D.Rely worker narrow shared shared' :=
  Relation.ReflTransGen.mono (fun _ _ step => Interference.mono step sub) _ _ rely

theorem Rely.good {worker : Nat} {held : Lock Y → Prop} {shared shared' : Shared Y}
    (rely : D.Rely worker held shared shared') (good : D.Good shared) :
    D.Good shared' := by
  induction rely with
  | refl => exact good
  | tail _ step _ => exact ⟨step.later.unique, step.invariant⟩

theorem Rely.later {worker : Nat} {held : Lock Y → Prop} {shared shared' : Shared Y}
    (rely : D.Rely worker held shared shared') (good : D.Good shared) :
    Later (fun key => held (.key key)) shared.committed shared'.committed := by
  induction rely with
  | refl => exact Later.refl _ good.1
  | tail _ step ih => exact ih.trans step.later

/-- A fact that every step of the environment keeps survives all of them. -/
theorem Rely.preserves {worker : Nat} {held : Lock Y → Prop} {shared shared' : Shared Y}
    (rely : D.Rely worker held shared shared') (good : D.Good shared)
    (fact : Shared Y → Prop)
    (stable : ∀ before after, D.Good before → D.Interference worker held before after →
      fact before → fact after)
    (hfact : fact shared) : fact shared' := by
  induction rely with
  | refl => exact hfact
  | tail steps step ih => exact stable _ _ (Rely.good steps good) step ih

/-- The environment leaves no event in the worker's name. -/
theorem Rely.events {worker : Nat} {held : Lock Y → Prop} {shared shared' : Shared Y}
    (rely : D.Rely worker held shared shared') :
    shared'.eventsOf worker = shared.eventsOf worker := by
  induction rely with
  | refl => rfl
  | tail _ step ih =>
      rcases step.cause with ⟨_, _, _, rfl⟩ | ⟨other, hne, _, _, _, event, htrace⟩
      · exact ih
      · rw [← ih]
        simp [Shared.eventsOf, htrace, hne]

/-- The trace only gets longer. -/
theorem Rely.trace {worker : Nat} {held : Lock Y → Prop} {shared shared' : Shared Y}
    (rely : D.Rely worker held shared shared') : shared.trace <+: shared'.trace := by
  induction rely with
  | refl => exact List.prefix_refl _
  | tail _ step ih =>
      rcases step.cause with ⟨_, _, _, rfl⟩ | ⟨_, _, _, _, _, event, htrace⟩
      · exact ih
      · rw [htrace]
        exact ih.trans (List.prefix_append _ _)

end Discipline

/-! ## Weakest preconditions -/

section WeakestPrecondition

variable {Y : System} {α β ε : Type} (D : Discipline Y) (worker : Nat)

/-- The weakest precondition of a program run by a worker among others. -/
def wp : Program Y α → (α → List (Session Y) → Shared Y → Prop) →
    List (Session Y) → Shared Y → Prop
  | .ret value, post, stack, shared => post value stack shared
  | .halt, _, _, _ => True
  | .run statement next, post, stack, shared =>
      ∀ shared', D.Rely worker (Held stack) shared shared' → D.Good shared' →
      ∀ top rest, stack = top :: rest →
        Footprint top.keys top.writes shared'.committed →
      ∀ choice free outcome,
        statement.exec shared'.world choice free (top.view shared'.committed) = some outcome →
        wp (next outcome.value) post (top.extend outcome :: rest) shared'
  | .enter name next, post, stack, shared =>
      ∀ shared', D.Rely worker (Held stack) shared shared' → D.Good shared' →
        D.permits worker stack shared' (.enter name) →
        wp next post (Session.fresh name :: stack) (shared'.log worker (.began name))
  | .leave true next, post, stack, shared =>
      ∀ shared', D.Rely worker (Held stack) shared shared' → D.Good shared' →
      ∀ top rest, stack = top :: rest →
        Footprint top.keys top.writes shared'.committed →
        D.permits worker stack shared' .commit →
        D.guarantee worker (Held stack) shared' (shared'.commit worker top) ∧
          D.invariant (shared'.commit worker top) ∧
          wp next post rest (shared'.commit worker top)
  | .leave false next, post, stack, shared =>
      ∀ shared', D.Rely worker (Held stack) shared shared' → D.Good shared' →
      ∀ top rest, stack = top :: rest →
        D.permits worker stack shared' .rollback →
        wp next post rest (shared'.log worker (.rolledBack top.name))
  | .call request next, post, stack, shared =>
      ∀ shared', D.Rely worker (Held stack) shared shared' → D.Good shared' →
      ∀ choice reply world, Y.respond worker request choice shared'.world = some (reply, world) →
        D.permits worker stack shared' (.call request reply world) →
        D.guarantee worker (Held stack) shared' (shared'.answer worker world request reply) ∧
          D.invariant (shared'.answer worker world request reply) ∧
          wp (next reply) post stack (shared'.answer worker world request reply)
  | .mark label next, post, stack, shared =>
      ∀ shared', D.Rely worker (Held stack) shared shared' → D.Good shared' →
      ∀ top rest, stack = top :: rest →
        D.Allows label stack rest shared'.committed ∧
          wp next post ({ top with marks := top.marks ++ [label] } :: rest) shared'

variable {D worker}

theorem wp_bind (program : Program Y α) (next : α → Program Y β)
    (post : β → List (Session Y) → Shared Y → Prop) (stack : List (Session Y))
    (shared : Shared Y) :
    wp D worker (program.bind next) post stack shared =
      wp D worker program (fun value => wp D worker (next value) post) stack shared := by
  induction program generalizing stack shared with
  | ret value => rfl
  | halt => rfl
  | run statement rest ih => simp only [Program.bind, wp, ih]
  | enter name rest ih => simp only [Program.bind, wp, ih]
  | leave commit rest ih => cases commit <;> simp only [Program.bind, wp, ih]
  | call request rest ih => simp only [Program.bind, wp, ih]
  | mark label rest ih => simp only [Program.bind, wp, ih]

theorem wp_mono {program : Program Y α}
    {post post' : α → List (Session Y) → Shared Y → Prop} {stack : List (Session Y)}
    {shared : Shared Y} (hwp : wp D worker program post stack shared)
    (himplies : ∀ value stack' shared', post value stack' shared' →
      post' value stack' shared') :
    wp D worker program post' stack shared := by
  induction program generalizing stack shared with
  | ret value => exact himplies _ _ _ hwp
  | halt => trivial
  | run statement rest ih =>
      intro shared' hrely hgood top below hstack hfoot choice free outcome hexec
      exact ih _ (hwp shared' hrely hgood top below hstack hfoot choice free outcome hexec)
  | enter name rest ih =>
      intro shared' hrely hgood hpermits
      exact ih (hwp shared' hrely hgood hpermits)
  | leave commit rest ih =>
      cases commit with
      | false =>
          intro shared' hrely hgood top below hstack hpermits
          exact ih (hwp shared' hrely hgood top below hstack hpermits)
      | true =>
          intro shared' hrely hgood top below hstack hfoot hpermits
          obtain ⟨hguarantee, hinv, hrest⟩ :=
            hwp shared' hrely hgood top below hstack hfoot hpermits
          exact ⟨hguarantee, hinv, ih hrest⟩
  | call request rest ih =>
      intro shared' hrely hgood choice reply world hreply hpermits
      obtain ⟨hguarantee, hinv, hrest⟩ :=
        hwp shared' hrely hgood choice reply world hreply hpermits
      exact ⟨hguarantee, hinv, ih _ hrest⟩
  | mark label rest ih =>
      intro shared' hrely hgood top below hstack
      obtain ⟨hallows, hrest⟩ := hwp shared' hrely hgood top below hstack
      exact ⟨hallows, ih hrest⟩

/-- The environment cannot falsify a weakest precondition. -/
theorem wp_rely {program : Program Y α}
    {post : α → List (Session Y) → Shared Y → Prop} {stack : List (Session Y)}
    {shared shared' : Shared Y}
    (hpost : ∀ value, post value stack shared → post value stack shared')
    (hwp : wp D worker program post stack shared)
    (hrely : D.Rely worker (Held stack) shared shared') :
    wp D worker program post stack shared' := by
  cases program with
  | ret value => exact hpost value hwp
  | halt => trivial
  | run statement rest => exact fun later hlater => hwp later (hrely.trans hlater)
  | enter name rest => exact fun later hlater => hwp later (hrely.trans hlater)
  | leave commit rest =>
      cases commit <;> exact fun later hlater => hwp later (hrely.trans hlater)
  | call request rest => exact fun later hlater => hwp later (hrely.trans hlater)
  | mark label rest => exact fun later hlater => hwp later (hrely.trans hlater)

end WeakestPrecondition

/-! ## Runs -/

namespace Config

variable {Y : System} {α : Type}

/-- The step of which a condition on runs may speak, if the action is one. -/
def move (config : Config Y α) : Action Y → Option (Nat × List (Session Y) × Move Y)
  | .advance worker choice =>
      match config.workers[worker]? with
      | some ⟨stack, .enter name _⟩ => some (worker, stack, .enter name)
      | some ⟨stack, .leave true _⟩ => some (worker, stack, .commit)
      | some ⟨stack, .leave false _⟩ => some (worker, stack, .rollback)
      | some ⟨stack, .call request _⟩ =>
          (Y.respond worker request choice config.shared.world).map fun answer =>
            (worker, stack, .call request answer.1 answer.2)
      | _ => none
  | .crash worker =>
      config.workers[worker]?.map fun state => (worker, state.stack, .crash)
  | .drift _ => none

/-- A step that keeps a condition on runs. -/
def Step (permits : Condition Y) (config config' : Config Y α) : Prop :=
  ∃ action, config.step action = some config' ∧
    ∀ worker stack move, config.move action = some (worker, stack, move) →
      permits worker stack config.shared move

/-- The configurations that runs keeping the condition reach. -/
def Run (permits : Condition Y) : Config Y α → Config Y α → Prop :=
  Relation.ReflTransGen (Step permits)

/-- The workers about to begin their programs, on a committed database. -/
def start (committed : Y.schema.Database) (world : Y.World)
    (programs : List (Program Y α)) : Config Y α where
  shared := ⟨committed, world, []⟩
  workers := programs.map fun program => ⟨[], program⟩

end Config

namespace Config

variable {Y : System} {α : Type}

theorem move_worker {config : Config Y α} {action : Action Y} {worker : Nat}
    {stack : List (Session Y)} {move : Move Y}
    (h : config.move action = some (worker, stack, move)) : worker < config.workers.length := by
  have hlength {worker : Nat} {state : Worker Y α} (h : config.workers[worker]? = some state) :
      worker < config.workers.length := (List.getElem?_eq_some_iff.mp h).1
  cases action with
  | advance other choice =>
      simp only [Config.move] at h
      split at h
      · next hstate => cases h; exact hlength hstate
      · next hstate => cases h; exact hlength hstate
      · next hstate => cases h; exact hlength hstate
      · next hstate =>
          obtain ⟨_, -, h⟩ := Option.map_eq_some_iff.mp h
          cases h
          exact hlength hstate
      · cases h
  | crash other =>
      obtain ⟨state, hstate, h⟩ := Option.map_eq_some_iff.mp h
      cases h
      exact hlength hstate
  | drift choice => cases h

theorem step_length {config config' : Config Y α} {action : Action Y}
    (h : config.step action = some config') : config'.workers.length = config.workers.length := by
  cases action with
  | advance worker choice =>
      simp only [step, advance] at h
      split at h
      · cases h
      next stack program _ =>
      split at h
      · cases h
      · cases h
      · cases h
      · obtain ⟨outcome, -, rfl⟩ := Option.map_eq_some_iff.mp h
        exact List.length_set
      · cases h
        exact List.length_set
      · cases h
      · cases h
        exact List.length_set
      · cases h
        exact List.length_set
      · obtain ⟨answer, -, rfl⟩ := Option.map_eq_some_iff.mp h
        exact List.length_set
      · cases h
      · cases h
        exact List.length_set
  | crash worker =>
      simp only [step] at h
      split at h <;> cases h
      exact List.length_set
  | drift choice =>
      obtain ⟨world, -, rfl⟩ := Option.map_eq_some_iff.mp h
      rfl

/-- Only the workers that were started take steps. -/
theorem Run.bounded {permits : Condition Y} {config config' : Config Y α}
    (hrun : Config.Run permits config config') :
    Config.Run (fun worker stack shared move =>
      worker < config.workers.length ∧ permits worker stack shared move) config config' ∧
      config'.workers.length = config.workers.length := by
  induction hrun with
  | refl => exact ⟨.refl, rfl⟩
  | tail _ hstep ih =>
      obtain ⟨hrun, hlength⟩ := ih
      obtain ⟨action, hstep, hpermits⟩ := hstep
      refine ⟨hrun.tail ⟨action, hstep, fun worker stack move hmove => ⟨?_, ?_⟩⟩, ?_⟩
      · rw [← hlength]
        exact move_worker hmove
      · exact hpermits worker stack move hmove
      · exact (step_length hstep).trans hlength

end Config

/-- The condition that rules nothing out. -/
def anyMove {Y : System} : Condition Y := fun _ _ _ _ => True

instance {Y : System} (worker : Nat) (stack : List (Session Y)) (shared : Shared Y)
    (move : Move Y) : Decidable (anyMove worker stack shared move) :=
  .isTrue trivial

/-- Whether an action keeps a condition on runs. -/
def Config.keeps {Y : System} {α : Type} (permits : Condition Y)
    [∀ worker stack shared move, Decidable (permits worker stack shared move)]
    (config : Config Y α) (action : Action Y) : Bool :=
  match config.move action with
  | none => true
  | some (worker, stack, move) => decide (permits worker stack config.shared move)

/-- Run a schedule under a condition; `none` when one of its actions cannot
happen or breaks the condition. -/
def Config.schedule {Y : System} {α : Type} (permits : Condition Y)
    [∀ worker stack shared move, Decidable (permits worker stack shared move)]
    (config : Config Y α) : List (Action Y) → Option (Config Y α)
  | [] => some config
  | action :: actions =>
      if config.keeps permits action then
        (config.step action).bind fun next => next.schedule permits actions
      else none

theorem Config.run_of_schedule {Y : System} {α : Type} {permits : Condition Y}
    [∀ worker stack shared move, Decidable (permits worker stack shared move)]
    {config config' : Config Y α} {actions : List (Action Y)}
    (h : config.schedule permits actions = some config') :
    Config.Run permits config config' := by
  induction actions generalizing config with
  | nil =>
      cases h
      exact Relation.ReflTransGen.refl
  | cons action actions ih =>
      unfold schedule at h
      split at h
      · next hkeeps =>
          obtain ⟨next, hstep, hrest⟩ := Option.bind_eq_some_iff.mp h
          refine Relation.ReflTransGen.head ⟨action, hstep, ?_⟩ (ih hrest)
          intro worker stack move hmove
          simpa [keeps, hmove] using hkeeps
      · cases h

/-- The database that the committed events of a trace leave. -/
def replay {Y : System} (db : Y.schema.Database) :
    List (Nat × Event Y) → Y.schema.Database
  | [] => db
  | (_, .committed _ writes) :: trace => replay (applyAll writes db) trace
  | (_, .began _) :: trace | (_, .rolledBack _) :: trace | (_, .crashed) :: trace
  | (_, .called _ _) :: trace => replay db trace

theorem replay_append {Y : System} (db : Y.schema.Database)
    (first second : List (Nat × Event Y)) :
    replay db (first ++ second) = replay (replay db first) second := by
  induction first generalizing db with
  | nil => rfl
  | cons entry first ih =>
      obtain ⟨worker, event⟩ := entry
      cases event <;> exact ih _

/-- What the committed events of a trace added to a table. -/
def addedIn {Y : System} (table : Y.schema.Table) :
    List (Nat × Event Y) → List (Y.schema.Identity table)
  | [] => []
  | (_, .committed _ writes) :: trace => added table writes ++ addedIn table trace
  | (_, .began _) :: trace | (_, .rolledBack _) :: trace | (_, .crashed) :: trace
  | (_, .called _ _) :: trace => addedIn table trace

/-- A replay appends to each table what the trace added, and changes no identity. -/
theorem identities_replay {Y : System} (table : Y.schema.Table) (db : Y.schema.Database)
    (trace : List (Nat × Event Y)) :
    (Y.schema.rows table (replay db trace)).map (Y.schema.identity table) =
      (Y.schema.rows table db).map (Y.schema.identity table) ++ addedIn table trace := by
  induction trace generalizing db with
  | nil => exact (List.append_nil _).symm
  | cons entry trace ih =>
      obtain ⟨worker, event⟩ := entry
      cases event with
      | committed name writes =>
          rw [replay, addedIn, ih, identities_applyAll, List.append_assoc]
      | _ => exact ih db

/-- The database moved from one configuration to the other by the events that the
trace gained, and only by their commits. -/
def Config.Follows {Y : System} {α : Type} (config config' : Config Y α) : Prop :=
  ∃ events, config'.shared.trace = config.shared.trace ++ events ∧
    config'.shared.committed = Library.replay config.shared.committed events

theorem Config.step_follows {Y : System} {α : Type} {config config' : Config Y α}
    {action : Action Y} (hstep : config.step action = some config') :
    config.Follows config' := by
  have hsilent (shared : Shared Y) (hcommitted : shared.committed = config.shared.committed)
      (htrace : shared.trace = config.shared.trace) :
      ∃ events, shared.trace = config.shared.trace ++ events ∧
        shared.committed = Library.replay config.shared.committed events :=
    ⟨[], by rw [htrace, List.append_nil], by rw [hcommitted]; rfl⟩
  cases action with
  | advance worker choice =>
      simp only [step, advance] at hstep
      split at hstep
      · cases hstep
      next stack program _ =>
      split at hstep
      · cases hstep
      · cases hstep
      · cases hstep
      · obtain ⟨outcome, -, rfl⟩ := Option.map_eq_some_iff.mp hstep
        exact hsilent _ rfl rfl
      · cases hstep
        exact ⟨[_], rfl, rfl⟩
      · cases hstep
      · cases hstep
        exact ⟨[_], rfl, rfl⟩
      · cases hstep
        exact ⟨[_], rfl, rfl⟩
      · obtain ⟨answer, -, rfl⟩ := Option.map_eq_some_iff.mp hstep
        exact ⟨[_], rfl, rfl⟩
      · cases hstep
      · cases hstep
        exact hsilent _ rfl rfl
  | crash worker =>
      simp only [step] at hstep
      split at hstep <;> cases hstep
      exact ⟨[_], rfl, rfl⟩
  | drift choice =>
      obtain ⟨world, -, rfl⟩ := Option.map_eq_some_iff.mp hstep
      exact hsilent _ rfl rfl

/-- Only commits change the database: a rolled back or crashed transaction adds
nothing. -/
theorem Config.Run.follows {Y : System} {α : Type} {permits : Condition Y}
    {config config' : Config Y α} (hrun : Config.Run permits config config') :
    config.Follows config' := by
  induction hrun with
  | refl => exact ⟨[], (List.append_nil _).symm, rfl⟩
  | tail _ hstep ih =>
      obtain ⟨action, hstep, -⟩ := hstep
      obtain ⟨events, htrace, hcommitted⟩ := ih
      obtain ⟨more, htrace', hcommitted'⟩ := Config.step_follows hstep
      refine ⟨events ++ more, by rw [htrace', htrace, List.append_assoc], ?_⟩
      rw [hcommitted', hcommitted, replay_append]

/-- From the start, the trace tells the whole database. -/
theorem Config.Run.replay {Y : System} {α : Type} {permits : Condition Y}
    {committed : Y.schema.Database} {world : Y.World} {programs : List (Program Y α)}
    {config : Config Y α}
    (hrun : Config.Run permits (Config.start committed world programs) config) :
    config.shared.committed = Library.replay committed config.shared.trace := by
  obtain ⟨events, htrace, hcommitted⟩ := hrun.follows
  rw [htrace, hcommitted]
  rfl

end PayzenoLedger.Library
