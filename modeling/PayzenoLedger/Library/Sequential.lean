import PayzenoLedger.Library.Alone
import PayzenoLedger.Library.Writes

/-!
# One worker after the other

What a program does when no other worker runs beside it.  The rules of this file
know more than those for interleaved workers: a lock that the worker does not hold
is free, and the committed database is its own doing.
-/

set_option autoImplicit false

namespace PayzenoLedger.Library

variable {Y : System} {ε α β : Type}

/-- No session below holds the lock. -/
def unheld (rest : List (Session Y)) (lock : Lock Y) : Bool :=
  !(decide (Held rest lock))

@[simp]
theorem unheld_nil (lock : Lock Y) : unheld [] lock = true := by
  simp [unheld, Held]

/-- However the only worker runs the program, it ends as the postcondition says. -/
def mustEnd : Program Y α →
    (α → List (Session Y) → Y.World → Y.schema.Database → Prop) →
    List (Session Y) → Y.World → Y.schema.Database → Prop
  | .ret value, post, stack, world, db => post value stack world db
  | .run statement next, post, stack, world, db =>
      ∀ top rest, stack = top :: rest → ∀ world' choice outcome, Drifts world world' →
        statement.exec world' choice (unheld rest) (top.view db) = some outcome →
        mustEnd (next outcome.value) post (top.extend outcome :: rest) world' db
  | .enter name next, post, stack, world, db =>
      mustEnd next post (Session.fresh name :: stack) world db
  | .leave true next, post, stack, world, db =>
      ∀ top rest, stack = top :: rest → mustEnd next post rest world (top.view db)
  | .leave false next, post, stack, world, db =>
      ∀ top rest, stack = top :: rest → mustEnd next post rest world db
  | .call request next, post, stack, world, db =>
      ∀ world' choice reply world'', Drifts world world' →
        Y.respond 0 request choice world' = some (reply, world'') →
        mustEnd (next reply) post stack world'' db
  | .mark label next, post, stack, world, db =>
      ∀ top rest, stack = top :: rest →
        mustEnd next post ({ top with marks := top.marks ++ [label] } :: rest) world db
  | .halt, _, _, _, _ => True

theorem mustEnd_bind (program : Program Y α) (next : α → Program Y β)
    (post : β → List (Session Y) → Y.World → Y.schema.Database → Prop)
    (stack : List (Session Y)) (world : Y.World) (db : Y.schema.Database) :
    mustEnd (program.bind next) post stack world db =
      mustEnd program (fun value => mustEnd (next value) post) stack world db := by
  induction program generalizing stack world db with
  | ret value => rfl
  | halt => rfl
  | run statement rest ih => simp only [Program.bind, mustEnd, ih]
  | enter name rest ih => simp only [Program.bind, mustEnd, ih]
  | leave commit rest ih => cases commit <;> simp only [Program.bind, mustEnd, ih]
  | call request rest ih => simp only [Program.bind, mustEnd, ih]
  | mark label rest ih => simp only [Program.bind, mustEnd, ih]

theorem mustEnd_mono {program : Program Y α}
    {post post' : α → List (Session Y) → Y.World → Y.schema.Database → Prop}
    {stack : List (Session Y)} {world : Y.World} {db : Y.schema.Database}
    (h : mustEnd program post stack world db)
    (himplies : ∀ value stack' world' db', post value stack' world' db' →
      post' value stack' world' db') :
    mustEnd program post' stack world db := by
  induction program generalizing stack world db with
  | ret value => exact himplies _ _ _ _ h
  | halt => trivial
  | run statement rest ih =>
      exact fun top below hstack world' choice outcome hdrifts hexec =>
        ih _ (h top below hstack world' choice outcome hdrifts hexec)
  | enter name rest ih => exact ih h
  | leave commit rest ih =>
      cases commit <;> exact fun top below hstack => ih (h top below hstack)
  | call request rest ih =>
      exact fun world' choice reply world'' hdrifts hreply =>
        ih _ (h world' choice reply world'' hdrifts hreply)
  | mark label rest ih => exact fun top below hstack => ih (h top below hstack)

/-! ## Runs of the only worker -/

/-- What remains of the program will end as the postcondition says, from the world as it
was when its last step was done. -/
def OnCourse (post : α → List (Session Y) → Y.World → Y.schema.Database → Prop)
    (config : Config Y α) : Prop :=
  ∃ stack program world, config.workers = [⟨stack, program⟩] ∧
    Drifts world config.shared.world ∧
    mustEnd program post stack world config.shared.committed

theorem OnCourse.step {post : α → List (Session Y) → Y.World → Y.schema.Database → Prop}
    {config config' : Config Y α} {action : Action Y} (course : OnCourse post config)
    (hstep : config.step action = some config') : OnCourse post config' := by
  obtain ⟨stack, program, world, hworkers, hdrifts, hends⟩ := course
  cases action with
  | drift choice =>
      obtain ⟨world', hworld, rfl⟩ := Option.map_eq_some_iff.mp hstep
      exact ⟨stack, program, world, hworkers, hdrifts.tail ⟨choice, hworld⟩, hends⟩
  | crash worker =>
      simp only [Config.step] at hstep
      split at hstep
      · rename_i hworker
        cases hstep
        have hzero : worker = 0 := by simpa [hworkers] using hworker
        subst hzero
        exact ⟨[], .halt, config.shared.world, by simp [hworkers], .refl _, trivial⟩
      · cases hstep
  | advance worker choice =>
      simp only [Config.step, Config.advance] at hstep
      split at hstep
      · cases hstep
      · rename_i stack' program' hworker
        have hzero : worker = 0 := by
          by_contra hne
          rw [hworkers, List.getElem?_cons] at hworker
          simp [hne] at hworker
        subst hzero
        have hsame : stack = stack' ∧ program = program' := by
          simpa [hworkers] using hworker
        obtain ⟨rfl, rfl⟩ := hsame
        have hfree (rest : List (Session Y)) : config.free 0 rest = unheld rest := by
          funext lock
          simp [Config.free, unheld, hworkers]
        split at hstep
        · cases hstep
        · cases hstep
        · cases hstep
        · obtain ⟨outcome, hexec, rfl⟩ := Option.map_eq_some_iff.mp hstep
          rw [hfree] at hexec
          exact ⟨_, _, config.shared.world, by simp [Config.setWorker, hworkers], .refl _,
            hends _ _ rfl _ choice outcome hdrifts hexec⟩
        · rename_i name next
          cases hstep
          exact ⟨Session.fresh name :: stack, next, world, by simp [hworkers], hdrifts, hends⟩
        · cases hstep
        · cases hstep
          exact ⟨_, _, world, by simp [hworkers], hdrifts, hends _ _ rfl⟩
        · cases hstep
          exact ⟨_, _, world, by simp [hworkers], hdrifts, hends _ _ rfl⟩
        · obtain ⟨⟨reply, world'⟩, hreply, rfl⟩ := Option.map_eq_some_iff.mp hstep
          exact ⟨_, _, world', by simp [hworkers], .refl _,
            hends _ choice reply world' hdrifts hreply⟩
        · cases hstep
        · cases hstep
          exact ⟨_, _, world, by simp [Config.setWorker, hworkers], hdrifts, hends _ _ rfl⟩

/-- However it ends alone, it ends as the rules of this file say. -/
theorem Finishes.of_mustEnd {db db' : Y.schema.Database} {program : Program Y α} {value : α}
    (finishes : Finishes db program value db') (holds : α → Y.schema.Database → Prop)
    (h : ∀ world, mustEnd program (fun value _ _ db' => holds value db') [] world db) :
    holds value db' := by
  obtain ⟨world, last, hrun, hworker, rfl⟩ := finishes
  have course (config : Config Y α)
      (hrun : Config.Run anyMove (Config.start db world [program]) config) :
      OnCourse (fun value _ _ db' => holds value db') config := by
    induction hrun with
    | refl => exact ⟨[], program, world, rfl, .refl _, h world⟩
    | tail _ hstep ih =>
        obtain ⟨action, hstep, -⟩ := hstep
        exact ih.step hstep
  obtain ⟨stack, program', world', hworkers, -, hends⟩ := course last hrun
  rw [hworkers] at hworker
  cases hworker
  exact hends

/-! ## Rules -/

/-- What a program that may raise ends with, when it returns and when it raises. -/
def must (program : Raising Y ε α)
    (ok : α → List (Session Y) → Y.World → Y.schema.Database → Prop)
    (error : ε → List (Session Y) → Y.World → Y.schema.Database → Prop)
    (stack : List (Session Y)) (world : Y.World) (db : Y.schema.Database) : Prop :=
  mustEnd program.run (fun result stack' world' db' => match result with
    | .ok value => ok value stack' world' db'
    | .error raised => error raised stack' world' db') stack world db

section Rules

variable {ok : α → List (Session Y) → Y.World → Y.schema.Database → Prop}
  {error : ε → List (Session Y) → Y.World → Y.schema.Database → Prop}
  {stack : List (Session Y)} {world : Y.World} {db : Y.schema.Database}

@[simp]
theorem must_pure (value : α) :
    must (pure value : Raising Y ε α) ok error stack world db = ok value stack world db :=
  rfl

@[simp]
theorem must_throw (raised : ε) :
    must (throw raised : Raising Y ε α) ok error stack world db =
      error raised stack world db :=
  rfl

@[simp]
theorem must_bind (program : Raising Y ε β) (next : β → Raising Y ε α) :
    must (program >>= next) ok error stack world db =
      must program (fun value => must (next value) ok error) error stack world db := by
  have hrun : (program >>= next).run =
      (program.run).bind (fun result => match result with
        | .ok value => (next value).run
        | .error raised => .ret (.error raised)) := by
    change Program.bind _ _ = Program.bind _ _
    congr 1
  unfold must
  rw [hrun, mustEnd_bind]
  congr 1
  funext result
  cases result <;> rfl

theorem must_execute {statement : Statement Y α} {top : Session Y}
    {rest : List (Session Y)} :
    must (Raising.execute statement : Raising Y ε α) ok error (top :: rest) world db ↔
      ∀ world' choice outcome, Drifts world world' →
        statement.exec world' choice (unheld rest) (top.view db) = some outcome →
        ok outcome.value (top.extend outcome :: rest) world' db := by
  constructor
  · intro h world' choice outcome hdrifts hexec
    exact h top rest rfl world' choice outcome hdrifts hexec
  · rintro h top rest ⟨⟩ world' choice outcome hdrifts hexec
    exact h world' choice outcome hdrifts hexec

theorem must_query {query : Y.World → Y.Choice → Y.schema.Database → Option α}
    {top : Session Y} {rest : List (Session Y)}
    (h : ∀ world' choice value, Drifts world world' →
      query world' choice (top.view db) = some value → ok value (top :: rest) world' db) :
    must (Raising.execute (.select query) : Raising Y ε α) ok error (top :: rest) world db := by
  refine must_execute.mpr fun world' choice outcome hdrifts hexec => ?_
  obtain ⟨value, hvalue, rfl⟩ := Option.map_eq_some_iff.mp hexec
  rw [Session.extend_nil]
  exact h world' choice value hdrifts hvalue

/-- An update of a row that is there, keeping its keys, is done. -/
theorem must_update {table : Y.schema.Table} {key : Y.schema.Key}
    {change : Y.schema.Row table → Y.schema.Row table}
    {immutable : ∀ row, Y.schema.identity table (change row) = Y.schema.identity table row}
    {ok : Updated → List (Session Y) → Y.World → Y.schema.Database → Prop}
    {top : Session Y} {rest : List (Session Y)} {row : Y.schema.Row table}
    (hhead : (Schema.holders table key (top.view db)).head? = some row)
    (hkeys : Y.schema.keys table (change row) = Y.schema.keys table row)
    (h : ∀ top' world', (∀ base, top'.view base =
        (Write.update table key change immutable).apply (top.view base)) →
      ok .done (top' :: rest) world' db) :
    must (Raising.execute (.update table key change immutable) : Raising Y ε Updated) ok error
      (top :: rest) world db := by
  refine must_execute.mpr fun world' choice outcome _ hexec => ?_
  simp only [Statement.exec, hhead, hkeys] at hexec
  split at hexec
  · rw [if_pos (List.all_eq_true.mpr fun k hk => by simp [hk])] at hexec
    cases hexec
    refine h _ world' fun base => ?_
    simp [Session.view, Session.extend]
  · cases hexec

theorem must_mark {label : Y.Mark} {ok : Unit → List (Session Y) → Y.World →
      Y.schema.Database → Prop} {top : Session Y} {rest : List (Session Y)}
    (h : ok () ({ top with marks := top.marks ++ [label] } :: rest) world db) :
    must (Raising.mark label : Raising Y ε Unit) ok error (top :: rest) world db := by
  rintro top rest ⟨⟩
  exact h

theorem must_call {request : Y.Request} {ok : Y.Reply request → List (Session Y) → Y.World →
      Y.schema.Database → Prop}
    (h : ∀ world' choice reply world'', Drifts world world' →
      Y.respond 0 request choice world' = some (reply, world'') → ok reply stack world'' db) :
    must (Raising.call request : Raising Y ε _) ok error stack world db :=
  h

theorem must_recover {body : Raising Y ε α} {handler : ε → Raising Y ε α} :
    must (Raising.recover body handler) ok error stack world db =
      must body ok (fun raised => must (handler raised) ok error) stack world db := by
  unfold must
  have hrun : (Raising.recover body handler).run =
      (body.run).bind (fun result => match result with
        | .ok value => .ret (.ok value)
        | .error raised => (handler raised).run) := by
    change Program.bind _ _ = Program.bind _ _
    congr 1
  rw [hrun, mustEnd_bind]
  congr 1
  funext result
  cases result <;> rfl

/-- A session ends with its writes, or with nothing. -/
theorem must_withSession {name : Y.Name} {body : Raising Y ε α} :
    must (Raising.withSession name body) ok error stack world db ↔
      must body
        (fun value stack' world' db' => ∀ top rest, stack' = top :: rest →
          ok value rest world' (top.view db'))
        (fun raised stack' world' db' => ∀ top rest, stack' = top :: rest →
          error raised rest world' db')
        (Session.fresh name :: stack) world db := by
  change mustEnd (Program.bind _ _) _ _ _ _ ↔ _
  rw [mustEnd_bind]
  unfold must
  refine iff_of_eq (congrArg (fun post => mustEnd body.run post _ world db) ?_)
  funext result
  cases result <;> rfl

end Rules

/-! ## The runs that end as described -/

/-- The program in the runs in which it ends as described; in the others the worker dies. -/
def Raising.endingAs (holds : Except ε α → Bool) (program : Raising Y ε α) : Raising Y ε α :=
  ExceptT.mk (program.run.bind fun result => if holds result then .ret result else .halt)

theorem must_endingAs {holds : Except ε α → Bool} {program : Raising Y ε α}
    {ok : α → List (Session Y) → Y.World → Y.schema.Database → Prop}
    {error : ε → List (Session Y) → Y.World → Y.schema.Database → Prop}
    {stack : List (Session Y)} {world : Y.World} {db : Y.schema.Database}
    (h : must program
      (fun value stack' world' db' => holds (.ok value) = true → ok value stack' world' db')
      (fun raised stack' world' db' => holds (.error raised) = true →
        error raised stack' world' db') stack world db) :
    must (program.endingAs holds) ok error stack world db := by
  change mustEnd (Program.bind _ _) _ _ _ _
  rw [mustEnd_bind]
  refine mustEnd_mono h fun result stack' world' db' hresult => ?_
  cases hholds : holds result with
  | false => trivial
  | true => cases result <;> exact hresult hholds

/-! ## Bodies that leave a table alone -/

/-- The write is to another table. -/
def Sparing (table : Y.schema.Table) (write : Write Y.schema) : Prop :=
  table ≠ write.table

/-- The session wrote no row of the table. -/
structure Spared (table : Y.schema.Table) (top top' : Session Y) : Prop where
  rows : ∀ db : Y.schema.Database,
    Y.schema.rows table (top'.view db) = Y.schema.rows table (top.view db)

theorem Spared.refl (table : Y.schema.Table) (top : Session Y) : Spared table top top :=
  ⟨fun _ => rfl⟩

theorem Spared.trans {table : Y.schema.Table} {top top' top'' : Session Y}
    (first : Spared table top top') (second : Spared table top' top'') :
    Spared table top top'' :=
  ⟨fun db => (second.rows db).trans (first.rows db)⟩

theorem Spared.extend {table : Y.schema.Table} {statement : Statement Y β}
    (confined : statement.Confined (Sparing table)) {top : Session Y} {world : Y.World}
    {choice : Y.Choice} {free : Lock Y → Bool} {view : Y.schema.Database}
    {outcome : Outcome Y β} (hexec : statement.exec world choice free view = some outcome) :
    Spared table top (top.extend outcome) := by
  refine ⟨fun db => ?_⟩
  simp only [Session.view, Session.extend, Write.applyAll_append]
  exact Write.rows_applyAll_of_ne _ table (confined.writes hexec) _

theorem Program.Confined.mustEnd {table : Y.schema.Table} {program : Program Y α}
    (confined : program.Confined (Sparing table)) {top : Session Y} {rest : List (Session Y)}
    {world : Y.World} {db : Y.schema.Database} :
    mustEnd program (fun _ stack' _ db' =>
      ∃ top', stack' = top' :: rest ∧ Spared table top top' ∧ db' = db)
      (top :: rest) world db := by
  induction program generalizing top world with
  | ret value => exact ⟨top, rfl, .refl table top, rfl⟩
  | halt => trivial
  | run statement next ih =>
      rintro top rest ⟨⟩ world' choice outcome - hexec
      refine mustEnd_mono (ih _ (confined.2 _)) ?_
      rintro value stack' world'' db' ⟨top', rfl, spared, rfl⟩
      exact ⟨top', rfl, (Spared.extend confined.1 hexec).trans spared, rfl⟩
  | enter name next _ => exact confined.elim
  | leave commit next _ => exact confined.elim
  | call request next ih =>
      intro world' choice reply world'' _ _
      exact ih reply (confined reply)
  | mark label next ih =>
      rintro top rest ⟨⟩
      refine mustEnd_mono (ih confined) ?_
      rintro value stack' world'' db' ⟨top', rfl, spared, rfl⟩
      exact ⟨top', rfl, ⟨spared.rows⟩, rfl⟩

/-- A body that spares a table leaves its rows as the session saw them. -/
theorem Raising.Confined.must {table : Y.schema.Table} {body : Raising Y ε α}
    (confined : Confined (Sparing table) body) {top : Session Y} {rest : List (Session Y)}
    {world : Y.World} {db : Y.schema.Database}
    {ok : α → List (Session Y) → Y.World → Y.schema.Database → Prop}
    {error : ε → List (Session Y) → Y.World → Y.schema.Database → Prop}
    (hok : ∀ value top' world', Spared table top top' → ok value (top' :: rest) world' db)
    (herror : ∀ raised top' world', Spared table top top' →
      error raised (top' :: rest) world' db) :
    must body ok error (top :: rest) world db := by
  refine mustEnd_mono (Program.Confined.mustEnd confined) ?_
  rintro result stack' world' db' ⟨top', rfl, spared, rfl⟩
  cases result with
  | ok value => exact hok value top' world' spared
  | error raised => exact herror raised top' world' spared

end PayzenoLedger.Library
