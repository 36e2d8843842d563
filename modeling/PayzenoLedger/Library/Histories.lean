import PayzenoLedger.Library.Rules

/-!
# The history of one worker

Whatever the other workers do, the events of a worker are its program's alone.
`historyDiscipline` asks nothing of anybody; `Stays` is a body that leaves its
transaction open, and `Turns` is the history of a loop that takes one record
after the other and ends at the first that raises.
-/

set_option autoImplicit false

namespace PayzenoLedger.Library

open Schema Write

variable {Y : System} {ε α β : Type}

/-! ## Bodies of a transaction -/

/-- The program opens no session, ends none and calls nobody. -/
def Program.Stays : Program Y α → Prop
  | .ret _ => True
  | .run _ next => ∀ value, (next value).Stays
  | .mark _ next => next.Stays
  | .halt => True
  | .enter _ _ | .leave _ _ | .call _ _ => False

theorem Program.Stays.bind {program : Program Y α} {next : α → Program Y β}
    (stays : program.Stays) (hnext : ∀ value, (next value).Stays) :
    (program.bind next).Stays := by
  induction program with
  | ret value => exact hnext value
  | halt => trivial
  | run statement rest ih => exact fun value => ih value (stays value)
  | mark label rest ih => exact ih stays
  | enter name rest _ => exact stays.elim
  | leave commit rest _ => exact stays.elim
  | call request rest _ => exact stays.elim

namespace Raising

/-- The body of a transaction, however it ends. -/
def Stays (program : Raising Y ε α) : Prop :=
  Program.Stays program.run

theorem Stays.pure (value : α) : Stays (pure value : Raising Y ε α) :=
  trivial

theorem Stays.throw (raised : ε) : Stays (throw raised : Raising Y ε α) :=
  trivial

theorem Stays.bind {program : Raising Y ε α} {next : α → Raising Y ε β}
    (stays : Stays program) (hnext : ∀ value, Stays (next value)) :
    Stays (program >>= next) := by
  refine Program.Stays.bind stays fun result => ?_
  cases result with
  | ok value => exact hnext value
  | error raised => trivial

theorem Stays.execute (statement : Statement Y α) :
    Stays (Raising.execute statement : Raising Y ε α) :=
  fun _ => trivial

theorem Stays.mark (label : Y.Mark) : Stays (Raising.mark label : Raising Y ε Unit) :=
  trivial

end Raising

/-- However its statements end and whatever it is answered, the program ends with these
calls behind it and this value. -/
def Program.Talks : Program Y α → (List (Event Y) → α → Prop) → Prop
  | .ret value, Ends => Ends [] value
  | .run _ next, Ends => ∀ value, (next value).Talks Ends
  | .mark _ next, Ends => next.Talks Ends
  | .call request next, Ends => ∀ reply,
      (next reply).Talks fun events value => Ends (.called request reply :: events) value
  | .halt, _ => True
  | .enter _ _, _ | .leave _ _, _ => False

theorem Program.Talks.bind {program : Program Y α} {next : α → Program Y β}
    {Ends : List (Event Y) → β → Prop}
    (talks : program.Talks fun events value =>
      (next value).Talks fun more value' => Ends (events ++ more) value') :
    (program.bind next).Talks Ends := by
  induction program generalizing Ends with
  | ret value => exact talks
  | halt => trivial
  | run statement rest ih => exact fun value => ih value (talks value)
  | mark label rest ih => exact ih talks
  | call request rest ih => exact fun reply => ih reply (talks reply)
  | enter name rest _ => exact talks.elim
  | leave commit rest _ => exact talks.elim

theorem Program.Talks.mono {program : Program Y α} {Ends Ends' : List (Event Y) → α → Prop}
    (talks : program.Talks Ends) (h : ∀ events value, Ends events value → Ends' events value) :
    program.Talks Ends' := by
  induction program generalizing Ends Ends' with
  | ret value => exact h [] value talks
  | halt => trivial
  | run statement rest ih => exact fun value => ih value (talks value) h
  | mark label rest ih => exact ih talks h
  | call request rest ih =>
      exact fun reply => ih reply (talks reply) fun events value => h _ value
  | enter name rest _ => exact talks.elim
  | leave commit rest _ => exact talks.elim

theorem Program.Stays.talks {program : Program Y α} (stays : program.Stays)
    {Ends : List (Event Y) → α → Prop} (h : ∀ value, Ends [] value) : program.Talks Ends := by
  induction program with
  | ret value => exact h value
  | halt => trivial
  | run statement rest ih => exact fun value => ih value (stays value)
  | mark label rest ih => exact ih stays
  | enter name rest _ => exact stays.elim
  | leave commit rest _ => exact stays.elim
  | call request rest _ => exact stays.elim

namespace Raising

/-- The conversation of a program that may raise. -/
def Talks (program : Raising Y ε α) (Ends : List (Event Y) → Except ε α → Prop) : Prop :=
  Program.Talks program.run Ends

theorem Talks.bind {program : Raising Y ε α} {next : α → Raising Y ε β}
    {Ends : List (Event Y) → Except ε β → Prop}
    (talks : Talks program fun events result => match result with
      | .ok value => Talks (next value) fun more result' => Ends (events ++ more) result'
      | .error raised => Ends events (.error raised)) :
    Talks (program >>= next) Ends := by
  refine Program.Talks.bind (Program.Talks.mono talks fun events result h => ?_)
  cases result with
  | ok value => exact h
  | error raised =>
      change Ends (events ++ []) (.error raised)
      rwa [List.append_nil]

theorem Stays.talks {program : Raising Y ε α} (stays : Stays program)
    {Ends : List (Event Y) → Except ε α → Prop} (h : ∀ result, Ends [] result) :
    Talks program Ends :=
  Program.Stays.talks stays h

end Raising

/-! ## The past -/

/-- The state is a later one: no event of the trace and no row is lost. -/
structure Since (past shared : Shared Y) : Prop where
  trace : past.trace <+: shared.trace
  grows : Extends past.committed shared.committed

section Past

variable {D : Discipline Y} {worker : Nat} {past shared shared' : Shared Y}

namespace Since

theorem refl (shared : Shared Y) : Since shared shared :=
  ⟨List.prefix_refl _, Extends.refl _⟩

theorem trans (first : Since past shared) (second : Since shared shared') :
    Since past shared' :=
  ⟨first.trace.trans second.trace, first.grows.trans second.grows⟩

theorem of_rely {held : Lock Y → Prop} (rely : D.Rely worker held shared shared') :
    Since shared shared' := by
  refine ⟨rely.trace, ?_⟩
  induction rely with
  | refl => exact Extends.refl _
  | tail _ step ih => exact ih.trans step.later.grows

theorem rely {held : Lock Y → Prop} (since : Since past shared)
    (rely : D.Rely worker held shared shared') : Since past shared' :=
  since.trans (of_rely rely)

theorem log (since : Since past shared) (event : Event Y) :
    Since past (shared.log worker event) :=
  since.trans ⟨List.prefix_append _ _, Extends.refl _⟩

theorem commit (since : Since past shared) (top : Session Y) :
    Since past (shared.commit worker top) :=
  since.trans ⟨List.prefix_append _ _, applyAll_extends _ _⟩

theorem answer (since : Since past shared) (world : Y.World) (request : Y.Request)
    (reply : Y.Reply request) : Since past (shared.answer worker world request reply) :=
  since.trans ⟨List.prefix_append _ _, Extends.refl _⟩

end Since

/-- The states that a program reaches are later than the one it began in. -/
theorem wp_since {program : Program Y α} {post : α → List (Session Y) → Shared Y → Prop}
    {stack : List (Session Y)} (h : wp D worker program post stack shared)
    (since : Since past shared) :
    wp D worker program (fun value stack' shared' =>
      Since past shared' ∧ post value stack' shared') stack shared := by
  induction program generalizing stack shared with
  | ret value => exact ⟨since, h⟩
  | halt => trivial
  | run statement rest ih =>
      intro shared' rely good top below hstack foot choice free outcome hexec
      exact ih _ (h shared' rely good top below hstack foot choice free outcome hexec)
        (since.rely rely)
  | enter name rest ih =>
      intro shared' rely good hpermits
      exact ih (h shared' rely good hpermits) ((since.rely rely).log _)
  | leave commit rest ih =>
      cases commit with
      | false =>
          intro shared' rely good top below hstack hpermits
          exact ih (h shared' rely good top below hstack hpermits) ((since.rely rely).log _)
      | true =>
          intro shared' rely good top below hstack foot hpermits
          obtain ⟨hguarantee, hinvariant, hrest⟩ :=
            h shared' rely good top below hstack foot hpermits
          exact ⟨hguarantee, hinvariant, ih hrest ((since.rely rely).commit top)⟩
  | call request rest ih =>
      intro shared' rely good choice reply world hreply hpermits
      obtain ⟨hguarantee, hinvariant, hrest⟩ :=
        h shared' rely good choice reply world hreply hpermits
      exact ⟨hguarantee, hinvariant, ih _ hrest ((since.rely rely).answer world request reply)⟩
  | mark label rest ih =>
      intro shared' rely good top below hstack
      obtain ⟨hallows, hrest⟩ := h shared' rely good top below hstack
      exact ⟨hallows, ih hrest (since.rely rely)⟩

theorem wpr_since {program : Raising Y ε α} {ok : α → List (Session Y) → Shared Y → Prop}
    {error : ε → List (Session Y) → Shared Y → Prop} {stack : List (Session Y)}
    (h : wpr D worker program ok error stack shared) (since : Since past shared) :
    wpr D worker program (fun value stack' shared' =>
        Since past shared' ∧ ok value stack' shared')
      (fun raised stack' shared' => Since past shared' ∧ error raised stack' shared')
      stack shared := by
  refine wp_mono (wp_since h since) fun result stack' shared' hend => ?_
  cases result with
  | ok value => exact hend
  | error raised => exact hend

end Past

section Both

variable {D : Discipline Y} {worker : Nat} {shared : Shared Y} {stack : List (Session Y)}

theorem wp_and {program : Program Y α} {post post' : α → List (Session Y) → Shared Y → Prop}
    (h : wp D worker program post stack shared) (h' : wp D worker program post' stack shared) :
    wp D worker program (fun value stack' shared' =>
      post value stack' shared' ∧ post' value stack' shared') stack shared := by
  induction program generalizing stack shared with
  | ret value => exact ⟨h, h'⟩
  | halt => trivial
  | run statement rest ih =>
      intro shared' rely good top below hstack foot choice free outcome hexec
      exact ih _ (h shared' rely good top below hstack foot choice free outcome hexec)
        (h' shared' rely good top below hstack foot choice free outcome hexec)
  | enter name rest ih =>
      intro shared' rely good hpermits
      exact ih (h shared' rely good hpermits) (h' shared' rely good hpermits)
  | leave commit rest ih =>
      cases commit with
      | false =>
          intro shared' rely good top below hstack hpermits
          exact ih (h shared' rely good top below hstack hpermits)
            (h' shared' rely good top below hstack hpermits)
      | true =>
          intro shared' rely good top below hstack foot hpermits
          obtain ⟨hguarantee, hinvariant, hrest⟩ :=
            h shared' rely good top below hstack foot hpermits
          obtain ⟨-, -, hrest'⟩ := h' shared' rely good top below hstack foot hpermits
          exact ⟨hguarantee, hinvariant, ih hrest hrest'⟩
  | call request rest ih =>
      intro shared' rely good choice reply world hreply hpermits
      obtain ⟨hguarantee, hinvariant, hrest⟩ :=
        h shared' rely good choice reply world hreply hpermits
      obtain ⟨-, -, hrest'⟩ := h' shared' rely good choice reply world hreply hpermits
      exact ⟨hguarantee, hinvariant, ih _ hrest hrest'⟩
  | mark label rest ih =>
      intro shared' rely good top below hstack
      obtain ⟨hallows, hrest⟩ := h shared' rely good top below hstack
      exact ⟨hallows, ih hrest (h' shared' rely good top below hstack).2⟩

theorem wpr_and {program : Raising Y ε α} {ok ok' : α → List (Session Y) → Shared Y → Prop}
    {error error' : ε → List (Session Y) → Shared Y → Prop}
    (h : wpr D worker program ok error stack shared)
    (h' : wpr D worker program ok' error' stack shared) :
    wpr D worker program
      (fun value stack' shared' => ok value stack' shared' ∧ ok' value stack' shared')
      (fun raised stack' shared' => error raised stack' shared' ∧ error' raised stack' shared')
      stack shared := by
  refine wp_mono (wp_and h h') fun result stack' shared' hend => ?_
  cases result with
  | ok value => exact hend
  | error raised => exact hend

end Both

/-! ## Anybody -/

/-- Nothing is asked of anybody; the trace tells the whole database. -/
def historyDiscipline (db : Y.schema.Database) : Discipline Y where
  permits := anyMove
  guarantee _ _ _ _ := True
  invariant shared := shared.committed = replay db shared.trace
  required _ := none
  meaning _ _ := True
  meaning_extends _ _ _ _ h := h
  drift_sound _ _ _ h _ := h
  enter_sound _ _ _ _ h _ := by
    refine ⟨trivial, ?_⟩
    simpa [Shared.log, replay_append, replay] using h
  rollback_sound _ _ _ _ h _ := by
    refine ⟨trivial, ?_⟩
    simpa [Shared.log, replay_append, replay] using h
  crash_sound _ _ _ h _ := by
    refine ⟨trivial, ?_⟩
    simpa [Shared.log, replay_append, replay] using h

section History

variable {db : Y.schema.Database} {worker : Nat} {shared : Shared Y}

theorem history_commit (h : (historyDiscipline db).invariant shared) (worker : Nat)
    (top : Session Y) : (historyDiscipline db).invariant (shared.commit worker top) := by
  have hreplay : shared.committed = replay db shared.trace := h
  simp [historyDiscipline, Shared.commit, replay_append, replay, Session.view, ← hreplay]

theorem history_answer (h : (historyDiscipline db).invariant shared) (worker : Nat)
    (world : Y.World) (request : Y.Request) (reply : Y.Reply request) :
    (historyDiscipline db).invariant (shared.answer worker world request reply) := by
  have hreplay : shared.committed = replay db shared.trace := h
  simp [historyDiscipline, Shared.answer, replay_append, replay, ← hreplay]

theorem wp_talks {program : Program Y α} {Ends : List (Event Y) → α → Prop}
    (talks : program.Talks Ends) {post : α → List (Session Y) → Shared Y → Prop}
    {top : Session Y} {rest : List (Session Y)} {history : List (Event Y)}
    (hhistory : shared.eventsOf worker = history)
    (h : ∀ value top' shared' events, Ends events value →
      shared'.eventsOf worker = history ++ events → top'.name = top.name →
      post value (top' :: rest) shared') :
    wp (historyDiscipline db) worker program post (top :: rest) shared := by
  induction program generalizing top shared history Ends with
  | ret value => exact h value top shared [] talks (by rw [hhistory, List.append_nil]) rfl
  | halt => trivial
  | run statement next ih =>
      intro shared₁ rely _ top' rest' hstack _ choice free outcome _
      obtain ⟨rfl, rfl⟩ := List.cons.inj hstack
      exact ih _ (talks _) (by rw [rely.events, hhistory]) fun value top₂ shared₂ events hends
        hevents hname => h value top₂ shared₂ events hends hevents hname
  | mark label next ih =>
      intro shared₁ rely _ top' rest' hstack
      obtain ⟨rfl, rfl⟩ := List.cons.inj hstack
      refine ⟨⟨?_, ?_, trivial⟩, ih talks (by rw [rely.events, hhistory]) fun value top₂ shared₂
        events hends hevents hname => h value top₂ shared₂ events hends hevents hname⟩
      · intro lock hlock
        cases hlock
      · intro lock hlock
        cases hlock
  | call request next ih =>
      intro shared₁ rely good choice reply world _ _
      refine ⟨trivial, history_answer good.2 worker world request reply, ?_⟩
      have hcalled : (shared₁.answer worker world request reply).eventsOf worker =
          history ++ [Event.called request reply] := by
        rw [Shared.eventsOf_answer, rely.events, hhistory]
      refine ih reply (talks reply) hcalled fun value top₂ shared₂ events hends hevents hname => ?_
      refine h value top₂ shared₂ _ hends ?_ hname
      rw [hevents, List.append_assoc]
      rfl
  | enter name next _ => exact talks.elim
  | leave commit next _ => exact talks.elim

/-- The history of the worker, with these sessions of its open. -/
def Rests (worker : Nat) (history : List (Event Y)) (names : List Y.Name)
    (stack : List (Session Y)) (shared : Shared Y) : Prop :=
  stack.map (·.name) = names ∧ shared.eventsOf worker = history

theorem Rests.stack_nil {worker : Nat} {history : List (Event Y)} {stack : List (Session Y)}
    {shared : Shared Y} (h : Rests worker history [] stack shared) : stack = [] :=
  List.map_eq_nil_iff.mp h.1

/-- A transaction leaves its beginning, its calls and its end. -/
theorem wpr_conversation {name : Y.Name} {body : Raising Y ε α}
    {Ends : List (Event Y) → Except ε α → Prop} (talks : body.Talks Ends)
    {history : List (Event Y)} {stack : List (Session Y)}
    {ok : α → List (Session Y) → Shared Y → Prop}
    {error : ε → List (Session Y) → Shared Y → Prop}
    (hhistory : shared.eventsOf worker = history)
    (hok : ∀ value calls writes shared', Ends calls (.ok value) →
      shared'.eventsOf worker =
        history ++ (Event.began name :: calls ++ [Event.committed name writes]) →
      ok value stack shared')
    (herror : ∀ raised calls shared', Ends calls (.error raised) →
      shared'.eventsOf worker = history ++ (Event.began name :: calls ++ [Event.rolledBack name]) →
      error raised stack shared') :
    wpr (historyDiscipline db) worker (Raising.withSession name body) ok error stack shared := by
  refine wpr_withSession fun shared₁ rely₁ _ _ _ => ?_
  have hbegan : (shared₁.log worker (.began name)).eventsOf worker =
      history ++ [Event.began name] := by
    rw [Shared.eventsOf_log, rely₁.events, hhistory]
  refine wp_talks talks hbegan fun result top shared₂ calls hends hopen hname => ?_
  cases result with
  | ok value =>
      refine ⟨top, rfl, fun shared₃ rely₃ good₃ _ _ => ?_⟩
      refine ⟨trivial, history_commit good₃.2 worker top, hok value calls top.writes _ hends ?_⟩
      rw [Shared.eventsOf_commit, rely₃.events, hopen, hname]
      simp [Session.fresh]
  | error raised =>
      refine ⟨top, rfl, fun shared₃ rely₃ _ _ => herror raised calls _ hends ?_⟩
      rw [Shared.eventsOf_log, rely₃.events, hopen, hname]
      simp [Session.fresh]

/-- One that calls nobody leaves its beginning and its end. -/
theorem wpr_transaction {name : Y.Name} {body : Raising Y ε α} (stays : body.Stays)
    {history : List (Event Y)} {stack : List (Session Y)}
    {ok : α → List (Session Y) → Shared Y → Prop}
    {error : ε → List (Session Y) → Shared Y → Prop}
    (hhistory : shared.eventsOf worker = history)
    (hok : ∀ value writes shared',
      shared'.eventsOf worker = history ++ [Event.began name, .committed name writes] →
      ok value stack shared')
    (herror : ∀ raised shared',
      shared'.eventsOf worker = history ++ [Event.began name, .rolledBack name] →
      error raised stack shared') :
    wpr (historyDiscipline db) worker (Raising.withSession name body) ok error stack shared := by
  have talks : body.Talks fun calls _ => calls = [] := stays.talks fun _ => rfl
  refine wpr_conversation talks hhistory
    (fun value calls writes shared' hcalls hevents => ?_) fun raised calls shared' hcalls hevents =>
      ?_
  · subst hcalls
    exact hok value writes shared' hevents
  · subst hcalls
    exact herror raised shared' hevents

/-- One that calls nobody and raises nothing is committed. -/
theorem wpr_committed {name : Y.Name} {body : Raising Y ε α} (stays : body.Stays)
    {history : List (Event Y)} {stack : List (Session Y)}
    {ok : α → List (Session Y) → Shared Y → Prop}
    {error : ε → List (Session Y) → Shared Y → Prop}
    (hhistory : shared.eventsOf worker = history)
    (hbody : ∀ shared', Since shared shared' → (historyDiscipline db).Good shared' →
      wpr (historyDiscipline db) worker body (fun _ _ _ => True) (fun _ _ _ => False)
        (Session.fresh name :: stack) shared')
    (hok : ∀ value writes shared',
      shared'.eventsOf worker = history ++ [Event.began name, .committed name writes] →
      ok value stack shared') :
    wpr (historyDiscipline db) worker (Raising.withSession name body) ok error stack shared := by
  refine wpr_withSession fun shared₁ rely₁ _ _ good₁ => ?_
  have hbegan : (shared₁.log worker (.began name)).eventsOf worker =
      history ++ [Event.began name] := by
    rw [Shared.eventsOf_log, rely₁.events, hhistory]
  have talks : body.Talks fun calls _ => calls = [] := stays.talks fun _ => rfl
  have hends : wpr (historyDiscipline db) worker body
      (fun _ stack' shared' => ∃ top, stack' = top :: stack ∧ top.name = name ∧
        shared'.eventsOf worker = history ++ [Event.began name])
      (fun _ _ _ => True) (Session.fresh name :: stack) (shared₁.log worker (.began name)) := by
    refine wp_talks talks hbegan fun result top shared₂ calls hcalls hopen hname => ?_
    cases result with
    | ok value =>
        refine ⟨top, rfl, hname, ?_⟩
        rw [hopen, hcalls, List.append_nil]
    | error raised => trivial
  have hnever := hbody _ ((Since.of_rely rely₁).log _) good₁
  refine wpr_mono (wpr_and hends hnever) ?_ ?_
  · rintro value stack' shared₂ ⟨⟨top, rfl, hname, hopen⟩, -⟩
    refine ⟨top, rfl, fun shared₃ rely₃ good₃ _ _ => ?_⟩
    refine ⟨trivial, history_commit good₃.2 worker top, hok value top.writes _ ?_⟩
    rw [Shared.eventsOf_commit, rely₃.events, hopen, hname]
    simp
  · rintro raised stack' shared₂ ⟨-, hfalse⟩
    exact hfalse.elim

/-- A moment of the run at which a query was answered. -/
structure Asked (db : Y.schema.Database) (worker : Nat) (history : List (Event Y))
    (past shared : Shared Y) : Prop where
  before : Since past shared
  events : past.eventsOf worker = history
  replayed : past.committed = replay db past.trace
  unique : Unique past.committed

/-- A transaction that only asks, and answers with its view of the rows. -/
theorem wpr_asks {name : Y.Name} {query : Y.schema.Database → β} (view : β → α)
    {body : Raising Y ε α} (hbody : body = Raising.select query >>= fun rows => pure (view rows))
    {history : List (Event Y)} {stack : List (Session Y)}
    {ok : α → List (Session Y) → Shared Y → Prop}
    {error : ε → List (Session Y) → Shared Y → Prop}
    (hhistory : shared.eventsOf worker = history)
    (hok : ∀ past shared', Asked db worker (history ++ [Event.began name]) past shared' →
      shared'.eventsOf worker = history ++ [Event.began name, .committed name []] →
      ok (view (query past.committed)) stack shared') :
    wpr (historyDiscipline db) worker (Raising.withSession name body) ok error stack shared := by
  refine wpr_withSession fun shared₁ rely₁ _ _ good₁ => ?_
  rw [hbody, wpr_bind]
  refine wpr_select fun shared₂ progress => ?_
  have hopen : shared₂.eventsOf worker = history ++ [Event.began name] := by
    rw [progress.rely.events, Shared.eventsOf_log, rely₁.events, hhistory]
  refine ⟨_, rfl, fun shared₃ rely₃ good₃ _ _ => ?_⟩
  refine ⟨trivial, history_commit good₃.2 worker _, hok shared₂ _ ?_ ?_⟩
  · exact ⟨(Since.of_rely rely₃).commit _, hopen, progress.good.2, progress.good.1⟩
  · rw [Shared.eventsOf_commit, rely₃.events, hopen]
    simp [Session.fresh]

end History

/-! ## One record after the other -/

/-- The turns of a loop over the records, and whether it ended with one that broke. -/
inductive Turns (Took : β → List (Event Y) → Prop) (Broke : List (Event Y) → Prop) :
    List β → List (List (Event Y)) → Bool → Prop where
  | done : Turns Took Broke [] [] false
  | broke {record : β} {records : List β} {turn : List (Event Y)}
      (took : Took record turn) (hbroke : Broke turn) :
      Turns Took Broke (record :: records) [turn] true
  | next {record : β} {records : List β} {turn : List (Event Y)}
      {turns : List (List (Event Y))} {raised : Bool} (took : Took record turn)
      (hkept : ¬ Broke turn) (rest : Turns Took Broke records turns raised) :
      Turns Took Broke (record :: records) (turn :: turns) raised

namespace Turns

variable {Took : β → List (Event Y) → Prop} {Broke : List (Event Y) → Prop} {records : List β}
  {turns : List (List (Event Y))} {raised : Bool}

end Turns

section Loop

variable {db : Y.schema.Database} {worker : Nat} {shared : Shared Y}
  {Took : β → List (Event Y) → Prop} {Broke : List (Event Y) → Prop} {names : List Y.Name}

/-- The worker had a turn at the record after what it had done before. -/
def TookTurn (Took : β → List (Event Y) → Prop) (worker : Nat) (history : List (Event Y))
    (names : List Y.Name) (record : β) (Ending : List (Event Y) → Prop)
    (stack : List (Session Y)) (shared : Shared Y) : Prop :=
  ∃ turn, Took record turn ∧ Ending turn ∧ Rests worker (history ++ turn) names stack shared

/-- The worker took turns at the records. -/
def TookTurns (Took : β → List (Event Y) → Prop) (Broke : List (Event Y) → Prop) (worker : Nat)
    (history : List (Event Y)) (names : List Y.Name) (records : List β) (raised : Bool)
    (stack : List (Session Y)) (shared : Shared Y) : Prop :=
  ∃ turns, Turns Took Broke records turns raised ∧
    Rests worker (history ++ turns.flatten) names stack shared

theorem TookTurns.nil {history : List (Event Y)} {stack : List (Session Y)}
    (h : Rests worker history names stack shared) :
    TookTurns Took Broke worker history names [] false stack shared := by
  refine ⟨[], .done, ?_⟩
  simpa using h

theorem TookTurns.cons {history turn : List (Event Y)} {record : β} {records : List β}
    {raised : Bool} {stack : List (Session Y)} (took : Took record turn) (hkept : ¬ Broke turn)
    (h : TookTurns Took Broke worker (history ++ turn) names records raised stack shared) :
    TookTurns Took Broke worker history names (record :: records) raised stack shared := by
  obtain ⟨turns, hturns, hrests⟩ := h
  refine ⟨turn :: turns, .next took hkept hturns, ?_⟩
  rw [List.flatten_cons, ← List.append_assoc]
  exact hrests

theorem TookTurn.broke {history : List (Event Y)} {record : β} {records : List β}
    {stack : List (Session Y)} (h : TookTurn Took worker history names record Broke stack shared) :
    TookTurns Took Broke worker history names (record :: records) true stack shared := by
  obtain ⟨turn, took, hbroke, hrests⟩ := h
  refine ⟨[turn], .broke took hbroke, ?_⟩
  rw [List.flatten_cons, List.flatten_nil, List.append_nil]
  exact hrests

/-- The next record's turn, then those of the others. -/
theorem wpr_turns {γ δ : Type} {record : β} {records : List β} {history : List (Event Y)}
    {stack : List (Session Y)} {turn : Raising Y ε γ} {next : γ → Raising Y ε δ}
    (hturn : wpr (historyDiscipline db) worker turn
      (fun _ => TookTurn Took worker history names record fun turn => ¬ Broke turn)
      (fun _ => TookTurn Took worker history names record Broke) stack shared)
    (hnext : ∀ value history' stack' shared', Since shared shared' →
      Rests worker history' names stack' shared' →
      wpr (historyDiscipline db) worker (next value)
        (fun _ => TookTurns Took Broke worker history' names records false)
        (fun _ => TookTurns Took Broke worker history' names records true) stack' shared') :
    wpr (historyDiscipline db) worker (turn >>= next)
      (fun _ => TookTurns Took Broke worker history names (record :: records) false)
      (fun _ => TookTurns Took Broke worker history names (record :: records) true)
      stack shared := by
  rw [wpr_bind]
  refine wpr_mono (wpr_since hturn (Since.refl shared)) ?_ ?_
  · rintro value stack' shared' ⟨since, events, took, hkept, hrests⟩
    refine wpr_mono (hnext value _ stack' shared' since hrests) ?_ ?_
    · intro _ stack later h
      exact h.cons took hkept
    · intro _ stack later h
      exact h.cons took hkept
  · rintro raised stack' shared' ⟨-, h⟩
    exact h.broke

end Loop

end PayzenoLedger.Library
