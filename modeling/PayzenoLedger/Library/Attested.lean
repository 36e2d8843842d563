import PayzenoLedger.Library.Withheld

/-!
# Writes that attest to what is constant

Where every write keeps a property of the database, each session sees it, also
between its own writes: what a statement reads agrees with it.  `Program.Attests`
bounds the writes of a program under this knowledge.  In every run of such programs
the bound holds of what any session has written, whether or not it commits.
-/

set_option autoImplicit false

namespace PayzenoLedger.Library

variable {Y : System} {ε α β : Type}

/-- The statement may return this value on a database where the property holds. -/
def Statement.Yields (holds : Y.schema.Database → Prop) (statement : Statement Y β)
    (value : β) : Prop :=
  ∃ world choice free view outcome, holds view ∧
    statement.exec world choice free view = some outcome ∧ outcome.value = value

/-- Every write of the program is allowed, as far as what it has read tells. -/
def Program.Attests (allowed : Write Y.schema → Prop) (holds : Y.schema.Database → Prop) :
    Program Y α → (α → Prop) → Prop
  | .ret value, post => post value
  | .halt, _ => True
  | .run statement next, post => statement.Confined allowed ∧
      ∀ value, statement.Yields holds value → (next value).Attests allowed holds post
  | .enter _ next, post => next.Attests allowed holds post
  | .leave _ next, post => next.Attests allowed holds post
  | .call _ next, post => ∀ reply, (next reply).Attests allowed holds post
  | .mark _ next, post => next.Attests allowed holds post

variable {allowed : Write Y.schema → Prop} {holds : Y.schema.Database → Prop}

theorem Program.Attests.bind {program : Program Y α} {next : α → Program Y β} {post : β → Prop}
    (attests : program.Attests allowed holds fun value =>
      (next value).Attests allowed holds post) :
    (program.bind next).Attests allowed holds post := by
  induction program with
  | ret value => exact attests
  | halt => trivial
  | run statement rest ih =>
      exact ⟨attests.1, fun value hyields => ih value (attests.2 value hyields)⟩
  | enter name rest ih => exact ih attests
  | leave commit rest ih => exact ih attests
  | call request rest ih => exact fun reply => ih reply (attests reply)
  | mark label rest ih => exact ih attests

theorem Program.Attests.mono {program : Program Y α} {post post' : α → Prop}
    (attests : program.Attests allowed holds post) (h : ∀ value, post value → post' value) :
    program.Attests allowed holds post' := by
  induction program with
  | ret value => exact h value attests
  | halt => trivial
  | run statement rest ih =>
      exact ⟨attests.1, fun value hyields => ih value (attests.2 value hyields)⟩
  | enter name rest ih => exact ih attests
  | leave commit rest ih => exact ih attests
  | call request rest ih => exact fun reply => ih reply (attests reply)
  | mark label rest ih => exact ih attests

/-! ## Runs -/

/-- What a session has written is allowed. -/
def Session.Attests (allowed : Write Y.schema → Prop) (session : Session Y) : Prop :=
  ∀ write ∈ session.writes, allowed write

/-- So is what the sessions of the worker have written, and what it goes on to write. -/
structure Worker.Attests (allowed : Write Y.schema → Prop)
    (holds : Y.schema.Database → Prop) (worker : Worker Y α) : Prop where
  stack : ∀ session ∈ worker.stack, session.Attests allowed
  program : ∃ post, worker.program.Attests allowed holds post

/-- The invariant of a run. -/
structure Config.Attests (allowed : Write Y.schema → Prop)
    (holds : Y.schema.Database → Prop) (config : Config Y α) : Prop where
  workers : ∀ worker ∈ config.workers, worker.Attests allowed holds
  committed : holds config.shared.committed

section Steps

variable {config config' : Config Y α}

theorem Config.Attests.set (attests : config.Attests allowed holds) {worker : Nat}
    {state : Worker Y α} {shared : Shared Y} (hstate : state.Attests allowed holds)
    (hcommitted : holds shared.committed) :
    Config.Attests allowed holds ⟨shared, config.workers.set worker state⟩ where
  workers other hother := by
    rcases List.mem_or_eq_of_mem_set hother with hold | rfl
    · exact attests.workers other hold
    · exact hstate
  committed := hcommitted

theorem Config.Attests.advance
    (keeps : ∀ write db, allowed write → holds db → holds (write.apply db))
    (attests : config.Attests allowed holds) {worker : Nat} {choice : Y.Choice}
    (hstep : config.advance worker choice = some config') :
    config'.Attests allowed holds := by
  unfold Config.advance at hstep
  split at hstep
  · cases hstep
  · rename_i stack program hworker
    obtain ⟨hstack, post, hprogram⟩ := attests.workers _ (List.mem_of_getElem? hworker)
    have hcommitted := attests.committed
    split at hstep
    · cases hstep
    · cases hstep
    · cases hstep
    · rename_i statement next top rest
      obtain ⟨outcome, hexec, rfl⟩ := Option.map_eq_some_iff.mp hstep
      obtain ⟨htop, hrest⟩ := List.forall_mem_cons.mp hstack
      refine attests.set ⟨List.forall_mem_cons.mpr ⟨fun write hwrite => ?_, hrest⟩, post,
        hprogram.2 _ ?_⟩ hcommitted
      · rcases List.mem_append.mp hwrite with hold | hnew
        · exact htop write hold
        · exact hprogram.1.writes hexec write hnew
      · exact ⟨_, _, _, _, outcome, holds_applyAll keeps htop hcommitted, hexec, rfl⟩
    · rename_i name next
      cases hstep
      exact attests.set ⟨List.forall_mem_cons.mpr ⟨fun write hwrite => (nomatch hwrite), hstack⟩,
        post, hprogram⟩ hcommitted
    · cases hstep
    · rename_i next top rest
      cases hstep
      obtain ⟨htop, hrest⟩ := List.forall_mem_cons.mp hstack
      exact attests.set ⟨hrest, post, hprogram⟩ (holds_applyAll keeps htop hcommitted)
    · rename_i next top rest
      cases hstep
      exact attests.set ⟨(List.forall_mem_cons.mp hstack).2, post, hprogram⟩ hcommitted
    · rename_i request next
      obtain ⟨⟨reply, world⟩, hreply, rfl⟩ := Option.map_eq_some_iff.mp hstep
      exact attests.set ⟨hstack, post, hprogram reply⟩ hcommitted
    · cases hstep
    · rename_i label next top rest
      cases hstep
      obtain ⟨htop, hrest⟩ := List.forall_mem_cons.mp hstack
      exact attests.set ⟨List.forall_mem_cons.mpr ⟨htop, hrest⟩, post, hprogram⟩ hcommitted

theorem Config.Attests.step
    (keeps : ∀ write db, allowed write → holds db → holds (write.apply db))
    (attests : config.Attests allowed holds) {action : Action Y}
    (hstep : config.step action = some config') : config'.Attests allowed holds := by
  cases action with
  | advance worker choice => exact attests.advance keeps hstep
  | crash worker =>
      simp only [Config.step] at hstep
      split at hstep
      · cases hstep
        exact attests.set
          ⟨fun session hsession => (by cases hsession), fun _ => True, trivial⟩ attests.committed
      · cases hstep
  | drift choice =>
      obtain ⟨world, -, rfl⟩ := Option.map_eq_some_iff.mp hstep
      exact ⟨attests.workers, attests.committed⟩

/-- In every run, what the sessions have written is allowed. -/
theorem Config.Run.attests {permits : Condition Y}
    (keeps : ∀ write db, allowed write → holds db → holds (write.apply db))
    {db : Y.schema.Database} {world : Y.World} {programs : List (Program Y α)}
    (hprograms : ∀ program ∈ programs, ∃ post, program.Attests allowed holds post)
    (hholds : holds db) (hrun : Config.Run permits (Config.start db world programs) config) :
    config.Attests allowed holds := by
  induction hrun with
  | refl =>
      refine ⟨fun worker hworker => ?_, hholds⟩
      obtain ⟨program, hprogram, rfl⟩ := List.mem_map.mp hworker
      exact ⟨fun session hsession => (by cases hsession), hprograms program hprogram⟩
  | tail _ hstep ih =>
      obtain ⟨action, hstep, -⟩ := hstep
      exact ih.step keeps hstep

end Steps

/-! ## Programs that may raise -/

namespace Raising

/-- The writes of the program are allowed, and so much is known of what it returns. -/
def Attests (allowed : Write Y.schema → Prop) (holds : Y.schema.Database → Prop)
    (program : Raising Y ε α) (post : α → Prop) : Prop :=
  Program.Attests allowed holds program.run fun result => ∀ value, result = .ok value → post value

theorem Attests.pure {value : α} {post : α → Prop} (h : post value) :
    Attests allowed holds (pure value : Raising Y ε α) post := by
  rintro _ ⟨⟩
  exact h

theorem Attests.throw {raised : ε} {post : α → Prop} :
    Attests allowed holds (throw raised : Raising Y ε α) post := nofun

theorem Attests.bind {program : Raising Y ε α} {next : α → Raising Y ε β} {known : α → Prop}
    {post : β → Prop} (attests : Attests allowed holds program known)
    (hnext : ∀ value, known value → Attests allowed holds (next value) post) :
    Attests allowed holds (program >>= next) post := by
  refine Program.Attests.bind (attests.mono fun result h => ?_)
  cases result with
  | ok value => exact hnext value (h value rfl)
  | error raised => exact nofun

theorem Attests.execute {statement : Statement Y α} {post : α → Prop}
    (confined : statement.Confined allowed)
    (h : ∀ value, statement.Yields holds value → post value) :
    Attests allowed holds (Raising.execute statement : Raising Y ε α) post := by
  refine ⟨confined, fun value hyields => ?_⟩
  rintro _ ⟨⟩
  exact h value hyields

theorem Attests.select {query : Y.schema.Database → α} {post : α → Prop}
    (h : ∀ view, holds view → post (query view)) :
    Attests allowed holds (Raising.select query : Raising Y ε α) post := by
  refine .execute trivial fun value hyields => ?_
  obtain ⟨world, choice, free, view, outcome, hholds, hexec, rfl⟩ := hyields
  cases hexec
  exact h view hholds

theorem Attests.selectForUpdate {table : Y.schema.Table} {key : Y.schema.Key}
    {condition : Y.schema.Row table → Bool} {skipLocked : Bool}
    {post : Option (Y.schema.Row table) → Prop} (hnone : post none)
    (hsome : ∀ view row, holds view → row ∈ Schema.holders table key view → post (some row)) :
    Attests allowed holds
      (Raising.execute (.selectForUpdate table key condition skipLocked) : Raising Y ε _)
      post := by
  refine .execute trivial fun value hyields => ?_
  obtain ⟨world, choice, free, view, outcome, hholds, hexec, rfl⟩ := hyields
  simp only [Statement.exec] at hexec
  split at hexec
  · cases hexec
    exact hnone
  · next row hfind =>
      split at hexec
      · cases hexec
        exact hsome view row hholds (List.mem_of_find?_eq_some hfind)
      · split at hexec
        · cases hexec
          exact hnone
        · cases hexec

theorem Attests.of_confined {body : Raising Y ε α} (confined : Confined allowed body) :
    Attests allowed holds body fun _ => True := by
  have hbody {program : Program Y (Except ε α)} (confined : program.Confined allowed) :
      program.Attests allowed holds fun result => ∀ value, result = .ok value → True := by
    induction program with
    | ret value => exact fun _ _ => trivial
    | halt => trivial
    | run statement rest ih => exact ⟨confined.1, fun value _ => ih value (confined.2 value)⟩
    | enter name rest _ => exact confined.elim
    | leave commit rest _ => exact confined.elim
    | call request rest ih => exact fun reply => ih reply (confined reply)
    | mark label rest ih => exact ih confined
  exact hbody confined

theorem Attests.recover {body : Raising Y ε α} {handler : ε → Raising Y ε α} {post : α → Prop}
    (attests : Attests allowed holds body post)
    (hhandler : ∀ raised, Attests allowed holds (handler raised) post) :
    Attests allowed holds (recover body handler) post := by
  refine Program.Attests.bind (attests.mono fun result h => ?_)
  cases result with
  | ok value => exact h
  | error raised => exact hhandler raised

theorem Attests.withSession {name : Y.Name} {body : Raising Y ε α} {post : α → Prop}
    (attests : Attests allowed holds body post) :
    Attests allowed holds (withSession name body) post := by
  refine Program.Attests.bind (attests.mono fun result h => ?_)
  cases result with
  | ok value => exact h
  | error raised => exact nofun

theorem Attests.composes {routine : Write Y.schema → Prop}
    (h : ∀ write, routine write → allowed write) :
    Composes routine fun program : Raising Y ε _ =>
      Attests allowed holds program fun _ => True where
  inward hbody := .of_confined (hbody.confined.mono h)
  bind hprogram hnext := .bind hprogram fun value _ => hnext value
  recover := .recover
  session := .withSession

end Raising

end PayzenoLedger.Library
