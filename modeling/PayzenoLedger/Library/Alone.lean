import PayzenoLedger.Library.Raises

/-!
# One transaction alone

What the body of a transaction may do when no other worker is in its way: every
lock is free, nobody commits, and only the time passes between its statements.
`mayEnd` asks for one way to run it that ends as the postcondition says;
`Finishes` is what a whole program run alone has made of the database.
-/

set_option autoImplicit false

namespace PayzenoLedger.Library

variable {Y : System} {ε α β : Type}

/-- What the passing of time makes of the world. -/
def Drifts (world world' : Y.World) : Prop :=
  Relation.ReflTransGen (fun before after => ∃ choice, Y.drift choice before = some after)
    world world'

theorem Drifts.refl (world : Y.World) : Drifts world world :=
  Relation.ReflTransGen.refl

/-- Some run of a transaction's body alone ends as the postcondition says.  The body
opens no other session and makes no calls. -/
def mayEnd : Program Y α → (α → Y.World → Y.schema.Database → Prop) →
    Y.World → Y.schema.Database → Prop
  | .ret value, post, world, db => post value world db
  | .run statement next, post, world, db =>
      ∃ world' choice outcome, Drifts world world' ∧
        statement.exec world' choice (fun _ => true) db = some outcome ∧
        mayEnd (next outcome.value) post world' (Write.applyAll outcome.writes db)
  | .mark _ next, post, world, db => mayEnd next post world db
  | .enter _ _, _, _, _ | .leave _ _, _, _, _ | .call _ _, _, _, _ | .halt, _, _, _ => False

theorem mayEnd_bind (program : Program Y α) (next : α → Program Y β)
    (post : β → Y.World → Y.schema.Database → Prop) (world : Y.World)
    (db : Y.schema.Database) :
    mayEnd (program.bind next) post world db =
      mayEnd program (fun value => mayEnd (next value) post) world db := by
  induction program generalizing world db with
  | ret value => rfl
  | run statement rest ih => simp only [Program.bind, mayEnd, ih]
  | mark label rest ih => simp only [Program.bind, mayEnd, ih]
  | enter name rest _ => rfl
  | leave commit rest _ => rfl
  | call request rest _ => rfl
  | halt => rfl

theorem mayEnd_mono {program : Program Y α}
    {post post' : α → Y.World → Y.schema.Database → Prop} {world : Y.World}
    {db : Y.schema.Database} (h : mayEnd program post world db)
    (himplies : ∀ value world' db', post value world' db' → post' value world' db') :
    mayEnd program post' world db := by
  induction program generalizing world db with
  | ret value => exact himplies _ _ _ h
  | run statement rest ih =>
      obtain ⟨world', choice, outcome, hdrifts, hexec, hrest⟩ := h
      exact ⟨world', choice, outcome, hdrifts, hexec, ih _ hrest⟩
  | mark label rest ih => exact ih h
  | enter name rest _ => cases h
  | leave commit rest _ => cases h
  | call request rest _ => cases h
  | halt => cases h

/-- One run is behind it. -/
theorem mayEnd_exists {program : Program Y α}
    {post : α → Y.World → Y.schema.Database → Prop} {world : Y.World}
    {db : Y.schema.Database} (h : mayEnd program post world db) :
    ∃ value world' db', post value world' db' ∧
      mayEnd program (fun value' world'' db'' =>
        value' = value ∧ world'' = world' ∧ db'' = db') world db := by
  induction program generalizing world db with
  | ret value => exact ⟨value, world, db, h, rfl, rfl, rfl⟩
  | run statement rest ih =>
      obtain ⟨world', choice, outcome, hdrifts, hexec, hrest⟩ := h
      obtain ⟨value, last, db', hpost, hend⟩ := ih _ hrest
      exact ⟨value, last, db', hpost, world', choice, outcome, hdrifts, hexec, hend⟩
  | mark label rest ih => exact ih h
  | enter name rest _ => cases h
  | leave commit rest _ => cases h
  | call request rest _ => cases h
  | halt => cases h

/-- Some run of a body that may raise returns and ends as the postcondition says. -/
def mayReturn (program : Raising Y ε α) (post : α → Y.World → Y.schema.Database → Prop)
    (world : Y.World) (db : Y.schema.Database) : Prop :=
  mayEnd program.run (fun result world' db' =>
    ∃ value, result = .ok value ∧ post value world' db') world db

section Rules

variable {post : α → Y.World → Y.schema.Database → Prop} {world : Y.World}
  {db : Y.schema.Database}

@[simp]
theorem mayReturn_pure (value : α) :
    mayReturn (pure value : Raising Y ε α) post world db ↔ post value world db := by
  constructor
  · rintro ⟨value', hvalue, hpost⟩
    cases hvalue
    exact hpost
  · intro hpost
    exact ⟨value, rfl, hpost⟩

@[simp]
theorem mayReturn_bind (program : Raising Y ε β) (next : β → Raising Y ε α) :
    mayReturn (program >>= next) post world db ↔
      mayReturn program (fun value => mayReturn (next value) post) world db := by
  have hrun : (program >>= next).run = program.run.bind (ExceptT.bindCont next) := rfl
  unfold mayReturn
  rw [hrun, mayEnd_bind]
  constructor
  · intro h
    refine mayEnd_mono h fun result world' db' hresult => ?_
    cases result with
    | ok value => exact ⟨value, rfl, hresult⟩
    | error raised =>
        obtain ⟨value, hvalue, -⟩ := hresult
        cases hvalue
  · intro h
    refine mayEnd_mono h fun result world' db' hresult => ?_
    obtain ⟨value, rfl, hnext⟩ := hresult
    exact hnext

theorem mayReturn_mono {program : Raising Y ε α}
    {post' : α → Y.World → Y.schema.Database → Prop}
    (h : mayReturn program post world db)
    (himplies : ∀ value world' db', post value world' db' → post' value world' db') :
    mayReturn program post' world db :=
  mayEnd_mono h fun _ _ _ ⟨value, hvalue, hpost⟩ => ⟨value, hvalue, himplies _ _ _ hpost⟩

theorem mayReturn_exists {program : Raising Y ε α} (h : mayReturn program post world db) :
    ∃ value, (∃ world' db', post value world' db') ∧
      mayReturn program (fun value' _ _ => value' = value) world db := by
  obtain ⟨result, world', db', ⟨value, rfl, hpost⟩, hend⟩ := mayEnd_exists h
  refine ⟨value, ⟨world', db', hpost⟩, mayEnd_mono hend fun _ _ _ hsame => ?_⟩
  exact ⟨value, hsame.1, rfl⟩

theorem mayReturn_execute {statement : Statement Y α} :
    mayReturn (Raising.execute statement : Raising Y ε α) post world db ↔
      ∃ world' choice outcome, Drifts world world' ∧
        statement.exec world' choice (fun _ => true) db = some outcome ∧
        post outcome.value world' (Write.applyAll outcome.writes db) := by
  constructor
  · rintro ⟨world', choice, outcome, hdrifts, hexec, value, hvalue, hpost⟩
    cases hvalue
    exact ⟨world', choice, outcome, hdrifts, hexec, hpost⟩
  · rintro ⟨world', choice, outcome, hdrifts, hexec, hpost⟩
    exact ⟨world', choice, outcome, hdrifts, hexec, _, rfl, hpost⟩

theorem mayReturn_query {query : Y.World → Y.Choice → Y.schema.Database → Option α} :
    mayReturn (Raising.execute (.select query) : Raising Y ε α) post world db ↔
      ∃ world' choice value, Drifts world world' ∧ query world' choice db = some value ∧
        post value world' db := by
  rw [mayReturn_execute]
  constructor
  · rintro ⟨world', choice, outcome, hdrifts, hexec, hpost⟩
    obtain ⟨value, hvalue, rfl⟩ := Option.map_eq_some_iff.mp hexec
    exact ⟨world', choice, value, hdrifts, hvalue, hpost⟩
  · rintro ⟨world', choice, value, hdrifts, hvalue, hpost⟩
    exact ⟨world', choice, ⟨value, [], []⟩, hdrifts,
      Option.map_eq_some_iff.mpr ⟨value, hvalue, rfl⟩, hpost⟩

/-- Marks are ghost. -/
theorem mayReturn_mark {label : Y.Mark} {post : Unit → Y.World → Y.schema.Database → Prop} :
    mayReturn (Raising.mark label : Raising Y ε Unit) post world db ↔ post () world db :=
  mayReturn_pure (ε := ε) ()

/-- An update that keeps the keys of its row is not refused. -/
theorem exec_update_alone {table : Y.schema.Table} {key : Y.schema.Key}
    {change : Y.schema.Row table → Y.schema.Row table}
    {immutable : ∀ row, Y.schema.identity table (change row) = Y.schema.identity table row}
    {row : Y.schema.Row table} (hhead : (Schema.holders table key db).head? = some row)
    (hkeys : Y.schema.keys table (change row) = Y.schema.keys table row)
    (choice : Y.Choice) :
    (Statement.update table key change immutable).exec world choice (fun _ => true) db =
      some ⟨.done, [.update table key change immutable],
        (Y.schema.keys table row ++ Y.schema.keys table row).map Lock.key⟩ := by
  simp only [Statement.exec, hhead, hkeys]
  rw [if_pos (by simp), if_pos (List.all_eq_true.mpr fun k hk => by simp [hk])]

/-- Some run of the body returns this value with nothing written and no time passed. -/
def Returns (program : Raising Y ε α) (value : α) (world : Y.World)
    (db : Y.schema.Database) : Prop :=
  mayReturn program (fun value' world' db' => value' = value ∧ world' = world ∧ db' = db)
    world db

theorem Returns.pure (value : α) : Returns (pure value : Raising Y ε α) value world db :=
  (mayReturn_pure value).mpr ⟨rfl, rfl, rfl⟩

/-- A body goes on from what its first part may return. -/
theorem Returns.mayReturn_bind {program : Raising Y ε β} {value : β} {next : β → Raising Y ε α}
    (returns : Returns program value world db) (h : mayReturn (next value) post world db) :
    mayReturn (program >>= next) post world db := by
  rw [Library.mayReturn_bind]
  refine mayReturn_mono returns fun value' world' db' hsame => ?_
  obtain ⟨rfl, rfl, rfl⟩ := hsame
  exact h

theorem Returns.bind {program : Raising Y ε β} {value : β} {next : β → Raising Y ε α}
    {value' : α} (returns : Returns program value world db)
    (h : Returns (next value) value' world db) : Returns (program >>= next) value' world db :=
  returns.mayReturn_bind h

end Rules

/-! ## The only worker -/

/-- Nobody but the first worker does anything. -/
def aloneDiscipline : Discipline Y where
  permits worker _ _ _ := worker = 0
  guarantee worker _ _ _ := worker = 0
  invariant _ := True
  required _ := none
  meaning _ _ := True
  meaning_extends _ _ _ _ h := h
  drift_sound _ _ _ h _ := h
  enter_sound _ _ _ _ _ h := ⟨h, trivial⟩
  rollback_sound _ _ _ _ _ h := ⟨h, trivial⟩
  crash_sound _ _ _ _ h := ⟨h, trivial⟩

theorem Discipline.Rely.alone {held : Lock Y → Prop} {shared shared' : Shared Y}
    (rely : aloneDiscipline.Rely 0 held shared shared') :
    shared'.committed = shared.committed := by
  induction rely with
  | refl => rfl
  | tail _ step ih =>
      rcases step.cause with ⟨_, _, _, rfl⟩ | ⟨other, hne, _, _, hother, _⟩
      · exact ih
      · exact absurd hother hne

/-- Any program at all may run alone. -/
theorem wp_alone (program : Program Y α) (stack : List (Session Y)) (shared : Shared Y) :
    wp aloneDiscipline 0 program (fun _ _ _ => True) stack shared := by
  induction program generalizing stack shared with
  | ret value => trivial
  | halt => trivial
  | run statement rest ih =>
      intro _ _ _ _ _ _ _ _ _ _ _
      exact ih _ _ _
  | enter name rest ih =>
      intro _ _ _ _
      exact ih _ _
  | leave commit rest ih =>
      cases commit with
      | true =>
          intro _ _ _ _ _ _ _ _
          exact ⟨rfl, trivial, ih _ _⟩
      | false =>
          intro _ _ _ _ _ _ _
          exact ih _ _
  | call request rest ih =>
      intro _ _ _ _ _ _ _ _
      exact ⟨rfl, trivial, ih _ _ _⟩
  | mark label rest ih =>
      intro _ _ _ _ _ _
      refine ⟨⟨?_, ?_, trivial⟩, ih _ _⟩
      · intro lock hlock
        cases hlock
      · intro lock hlock
        cases hlock

/-- A session of the only worker ends with its own writes, or with nothing. -/
theorem wpr_sessionAlone {name : Y.Name} {body : Raising Y ε α} {db : Y.schema.Database}
    {stack : List (Session Y)} {shared : Shared Y} (ok : α → Y.schema.Database → Prop)
    (error : ε → Prop) (hcommitted : shared.committed = db)
    (h : ∀ shared', shared'.committed = db → aloneDiscipline.Good shared' →
      wpr aloneDiscipline 0 body
        (fun value stack' shared'' => ∃ top, stack' = top :: stack ∧ shared''.committed = db ∧
          ok value (top.view db))
        (fun raised stack' shared'' => ∃ top, stack' = top :: stack ∧ shared''.committed = db ∧
          error raised)
        (Session.fresh name :: stack) shared') :
    wpr aloneDiscipline 0 (Raising.withSession name body)
      (fun value stack' shared' => stack' = stack ∧ ok value shared'.committed)
      (fun raised stack' shared' => stack' = stack ∧ error raised ∧ shared'.committed = db)
      stack shared := by
  refine wpr_withSession fun shared₁ rely₁ _ _ good₁ => ?_
  have hcommitted₁ : shared₁.committed = db := rely₁.alone.trans hcommitted
  refine wpr_mono (h _ hcommitted₁ good₁) ?_ ?_
  · rintro value stack' shared₂ ⟨top, rfl, hcommitted₂, hok⟩
    refine ⟨top, rfl, fun shared₃ rely₃ _ _ _ => ⟨rfl, trivial, rfl, ?_⟩⟩
    have hcommitted₃ : shared₃.committed = db := rely₃.alone.trans hcommitted₂
    change ok value (top.view shared₃.committed)
    rw [hcommitted₃]
    exact hok
  · rintro raised stack' shared₂ ⟨top, rfl, hcommitted₂, herror⟩
    exact ⟨top, rfl, fun shared₃ rely₃ _ _ => ⟨rfl, herror, rely₃.alone.trans hcommitted₂⟩⟩

/-- The program, run on this database by the only worker there is, may end with this value
and leave this database. -/
def Finishes (db : Y.schema.Database) (program : Program Y α) (value : α)
    (db' : Y.schema.Database) : Prop :=
  ∃ world, ∃ config : Config Y α,
    Config.Run anyMove (Config.start db world [program]) config ∧
      config.workers[0]? = some ⟨[], .ret value⟩ ∧ config.shared.committed = db'

/-- However it ends, it ends as the rules say. -/
theorem Finishes.of_wp {db db' : Y.schema.Database} {program : Program Y α} {value : α}
    (finishes : Finishes db program value db') (unique : Schema.Unique db)
    (holds : α → Y.schema.Database → Prop)
    (h : ∀ world, wp aloneDiscipline 0 program
      (fun value _ shared => holds value shared.committed) [] ⟨db, world, []⟩) :
    holds value db' ∧ Schema.Unique db' := by
  obtain ⟨world, config, hrun, hworker, rfl⟩ := finishes
  let post (worker : Nat) (value : α) (_ : List (Session Y)) (shared : Shared Y) : Prop :=
    worker = 0 → holds value shared.committed
  have stable : StablePost aloneDiscipline post := by
    intro worker value stack shared shared' _ rely hpost hworker
    subst hworker
    rw [rely.alone]
    exact hpost rfl
  have begun : Sound aloneDiscipline post (Config.start db world [program]) := by
    refine Sound.start ⟨unique, trivial⟩ fun worker program' hprogram => ?_
    obtain ⟨hindex, rfl⟩ := List.getElem?_eq_some_iff.mp hprogram
    have hzero : worker = 0 := by simpa using hindex
    subst hzero
    exact wp_mono (h world) fun _ _ _ hvalue _ => hvalue
  have hpermitted : Config.Run (aloneDiscipline (Y := Y)).permits
      (Config.start db world [program]) config := by
    refine Relation.ReflTransGen.mono (fun before after hstep => ?_) _ _ hrun.bounded.1
    obtain ⟨action, hstep, hpermits⟩ := hstep
    refine ⟨action, hstep, fun worker stack move hmove => ?_⟩
    have hbound := (hpermits worker stack move hmove).1
    simpa [Config.start, aloneDiscipline] using hbound
  have sound := Sound.run stable begun hpermitted
  exact ⟨(sound.ready 0 _ hworker).program rfl, sound.good.1⟩

theorem Finishes.of_ends {db db' : Y.schema.Database} {program : Program Y α} {value : α}
    {holds : α → Prop} (finishes : Finishes db program value db') (unique : Schema.Unique db)
    (ends : program.Ends holds) : holds value := by
  refine (finishes.of_wp unique (fun value _ => holds value) fun world => ?_).1
  exact wp_mono (wp_ends ends (wp_alone program [] _)) fun _ _ _ h => h.1

theorem Finishes.of_wpr {db db' : Y.schema.Database} {program : Raising Y ε α}
    {result : Except ε α} (finishes : Finishes db program.run result db')
    (unique : Schema.Unique db) (holds : Except ε α → Y.schema.Database → Prop)
    (h : ∀ world, wpr aloneDiscipline 0 program
      (fun value _ shared => holds (.ok value) shared.committed)
      (fun raised _ shared => holds (.error raised) shared.committed) [] ⟨db, world, []⟩) :
    holds result db' ∧ Schema.Unique db' := by
  refine finishes.of_wp unique holds fun world => wp_mono (h world) fun result _ _ hresult => ?_
  cases result with
  | ok value => exact hresult
  | error raised => exact hresult

/-- How the program ends under a schedule, and the database that it leaves. -/
def runAlone (db : Y.schema.Database) (world : Y.World) (program : Program Y α)
    (actions : List (Action Y)) : Option (α × Y.schema.Database) :=
  ((Config.start db world [program]).schedule anyMove actions).bind fun config =>
    match config.workers with
    | [⟨[], .ret value⟩] => some (value, config.shared.committed)
    | _ => none

theorem Finishes.of_runAlone {db db' : Y.schema.Database} {world : Y.World}
    {program : Program Y α} {actions : List (Action Y)} {value : α}
    (h : runAlone db world program actions = some (value, db')) :
    Finishes db program value db' := by
  obtain ⟨config, hconfig, hends⟩ := Option.bind_eq_some_iff.mp h
  split at hends
  · rename_i value' hworkers
    cases hends
    exact ⟨world, config, Config.run_of_schedule hconfig, by rw [hworkers]; rfl, rfl⟩
  · cases hends

end PayzenoLedger.Library
