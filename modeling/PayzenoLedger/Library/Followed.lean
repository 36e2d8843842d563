import PayzenoLedger.Library.Assured
import PayzenoLedger.Library.Histories

/-!
# What the runs of a lone worker leave

Partial correctness for one worker under an assumption, with the trace.  `follows` asks that
every run which keeps to the assumption and ends, ends as the postcondition says of all that
is shared; what the body of a session attains is carried over to what it commits.
-/

set_option autoImplicit false

namespace PayzenoLedger.Library

open Schema Write

variable {Y : System} {ε α β : Type}

def Shared.drifted (shared : Shared Y) (world : Y.World) : Shared Y :=
  { shared with world := world }

/-- Where the program ends, having kept to the assumption, it ends as the postcondition says. -/
def follows (fair : Assumption Y) : Program Y α →
    (α → List Y.Choice → List (Session Y) → Shared Y → Prop) →
    List Y.Choice → List (Session Y) → Shared Y → Prop
  | .ret value, post, past, stack, shared => post value past stack shared
  | .run statement next, post, past, stack, shared =>
      ∀ top rest, stack = top :: rest → ∀ world choice outcome, Drifts shared.world world →
        fair past world (top.view shared.committed) choice →
        statement.exec world choice (unheld rest) (top.view shared.committed) = some outcome →
        follows fair (next outcome.value) post (past ++ [choice]) (top.extend outcome :: rest)
          (shared.drifted world)
  | .enter name next, post, past, stack, shared =>
      ∀ world choice, Drifts shared.world world →
        fair past world (seenBy stack shared.committed) choice →
        follows fair next post (past ++ [choice]) (Session.fresh name :: stack)
          ((shared.drifted world).log 0 (.began name))
  | .leave true next, post, past, stack, shared =>
      ∀ top rest, stack = top :: rest → ∀ world choice, Drifts shared.world world →
        fair past world (top.view shared.committed) choice →
        follows fair next post (past ++ [choice]) rest ((shared.drifted world).commit 0 top)
  | .leave false next, post, past, stack, shared =>
      ∀ top rest, stack = top :: rest → ∀ world choice, Drifts shared.world world →
        fair past world (top.view shared.committed) choice →
        follows fair next post (past ++ [choice]) rest
          ((shared.drifted world).log 0 (.rolledBack top.name))
  | .call request next, post, past, stack, shared =>
      ∀ world choice answer, Drifts shared.world world →
        fair past world (seenBy stack shared.committed) choice →
        Y.respond 0 request choice world = some answer →
        follows fair (next answer.1) post (past ++ [choice]) stack
          ((shared.drifted world).answer 0 answer.2 request answer.1)
  | .mark label next, post, past, stack, shared =>
      ∀ top rest, stack = top :: rest → ∀ world choice, Drifts shared.world world →
        fair past world (top.view shared.committed) choice →
        follows fair next post (past ++ [choice])
          ({ top with marks := top.marks ++ [label] } :: rest) (shared.drifted world)
  | .halt, _, _, _, _ => True

section

variable {fair : Assumption Y} {past : List Y.Choice} {stack : List (Session Y)}
  {shared : Shared Y}

theorem follows_bind (program : Program Y α) (next : α → Program Y β)
    (post : β → List Y.Choice → List (Session Y) → Shared Y → Prop) (past : List Y.Choice)
    (stack : List (Session Y)) (shared : Shared Y) :
    follows fair (program.bind next) post past stack shared =
      follows fair program (fun value => follows fair (next value) post) past stack shared := by
  induction program generalizing past stack shared with
  | ret value => rfl
  | halt => rfl
  | run statement rest ih => simp only [Program.bind, follows, ih]
  | enter name rest ih => simp only [Program.bind, follows, ih]
  | leave commit rest ih => cases commit <;> simp only [Program.bind, follows, ih]
  | call request rest ih => simp only [Program.bind, follows, ih]
  | mark label rest ih => simp only [Program.bind, follows, ih]

theorem follows_mono {program : Program Y α}
    {post post' : α → List Y.Choice → List (Session Y) → Shared Y → Prop}
    (h : follows fair program post past stack shared)
    (himplies : ∀ value past' stack' shared', post value past' stack' shared' →
      post' value past' stack' shared') :
    follows fair program post' past stack shared := by
  induction program generalizing past stack shared with
  | ret value => exact himplies _ _ _ _ h
  | halt => trivial
  | run statement rest ih =>
      exact fun top below hstack world choice outcome hdrifts hfair hexec =>
        ih _ (h top below hstack world choice outcome hdrifts hfair hexec)
  | enter name rest ih =>
      exact fun world choice hdrifts hfair => ih (h world choice hdrifts hfair)
  | leave commit rest ih =>
      cases commit <;>
        exact fun top below hstack world choice hdrifts hfair =>
          ih (h top below hstack world choice hdrifts hfair)
  | call request rest ih =>
      exact fun world choice answer hdrifts hfair hanswer =>
        ih _ (h world choice answer hdrifts hfair hanswer)
  | mark label rest ih =>
      exact fun top below hstack world choice hdrifts hfair =>
        ih (h top below hstack world choice hdrifts hfair)

/-! ## Runs -/

/-- The lone worker is where its run can only end as the postcondition says. -/
def Following (fair : Assumption Y)
    (post : α → List Y.Choice → List (Session Y) → Shared Y → Prop) (past : List Y.Choice)
    (config : Config Y α) : Prop :=
  ∃ stack program shared world, config = .lone stack program shared ∧
    Drifts world shared.world ∧ follows fair program post past stack (shared.drifted world)

theorem Following.advance {post : α → List Y.Choice → List (Session Y) → Shared Y → Prop}
    {choice : Y.Choice} {config config' : Config Y α} (following : Following fair post past config)
    (hfair : ∀ stack program shared, config = .lone stack program shared →
      fair past shared.world (seenBy stack shared.committed) choice)
    (hstep : config.advance 0 choice = some config') :
    Following fair post (past ++ [choice]) config' := by
  obtain ⟨stack, program, shared, world, rfl, hdrifts, h⟩ := following
  have hchoice := hfair stack program shared rfl
  cases program with
  | ret value => cases hstep
  | halt => cases hstep
  | run statement rest =>
      cases stack with
      | nil => cases hstep
      | cons top below =>
          obtain ⟨outcome, hexec, rfl⟩ := Option.map_eq_some_iff.mp hstep
          rw [Config.lone_free] at hexec
          exact ⟨_, _, shared, _, rfl, .refl _,
            h top below rfl _ choice outcome hdrifts hchoice hexec⟩
  | enter name rest =>
      cases hstep
      exact ⟨_, _, shared.log 0 (.began name), _, rfl, .refl _, h _ choice hdrifts hchoice⟩
  | leave commit rest =>
      cases stack with
      | nil => cases hstep
      | cons top below =>
          cases commit with
          | true =>
              cases hstep
              exact ⟨_, _, shared.commit 0 top, _, rfl, .refl _,
                h top below rfl _ choice hdrifts hchoice⟩
          | false =>
              cases hstep
              exact ⟨_, _, shared.log 0 (.rolledBack top.name), _, rfl, .refl _,
                h top below rfl _ choice hdrifts hchoice⟩
  | call request rest =>
      obtain ⟨answer, hanswer, rfl⟩ := Option.map_eq_some_iff.mp hstep
      exact ⟨_, _, shared.answer 0 answer.2 request answer.1, _, rfl, .refl _,
        h _ choice answer hdrifts hchoice hanswer⟩
  | mark label rest =>
      cases stack with
      | nil => cases hstep
      | cons top below =>
          cases hstep
          exact ⟨_, _, shared, _, rfl, .refl _, h top below rfl _ choice hdrifts hchoice⟩

/-- Every fair run that ends does so as the postcondition says, but for the time that has
passed since. -/
theorem follows.every {program : Program Y α}
    {post : α → List Y.Choice → List (Session Y) → Shared Y → Prop} {value : α}
    (h : follows fair program post [] stack shared) {stack' : List (Session Y)}
    {shared' : Shared Y}
    (fairRun : FairRun fair (.lone stack program shared) past
      (.lone stack' (.ret value) shared')) :
    ∃ world, post value past stack' (shared'.drifted world) := by
  have hfollowing {past : List Y.Choice} {config : Config Y α}
      (fairRun : FairRun fair (.lone stack program shared) past config) :
      Following fair post past config := by
    induction fairRun with
    | start => exact ⟨stack, program, shared, _, rfl, .refl _, h⟩
    | advance choice _ hfair hstep ih =>
        refine ih.advance ?_ hstep
        rintro stack program shared ⟨⟩
        exact hfair
    | @drift _ stack₁ program₁ shared₁ world' choice _ hdrift ih =>
        obtain ⟨_, _, _, world₁, ⟨⟩, hdrifts, h₁⟩ := ih
        exact ⟨stack₁, program₁, { shared₁ with world := world' }, world₁, rfl,
          hdrifts.tail ⟨choice, hdrift⟩, h₁⟩
  obtain ⟨stack, program, shared, world, ⟨⟩, -, hpost⟩ := hfollowing fairRun
  exact ⟨world, hpost⟩

theorem Config.lone_of_advance {program : Program Y α} {choice : Y.Choice} {config : Config Y α}
    (hstep : (Config.lone stack program shared).advance 0 choice = some config) :
    ∃ stack' program' shared', config = .lone stack' program' shared' := by
  cases program with
  | ret value => cases hstep
  | halt => cases hstep
  | run statement rest =>
      cases stack with
      | nil => cases hstep
      | cons top below =>
          obtain ⟨outcome, -, rfl⟩ := Option.map_eq_some_iff.mp hstep
          exact ⟨_, _, _, rfl⟩
  | enter name rest =>
      cases hstep
      exact ⟨_, _, _, rfl⟩
  | leave commit rest =>
      cases stack with
      | nil => cases hstep
      | cons top below => cases commit <;> cases hstep <;> exact ⟨_, _, _, rfl⟩
  | call request rest =>
      obtain ⟨answer, -, rfl⟩ := Option.map_eq_some_iff.mp hstep
      exact ⟨_, _, _, rfl⟩
  | mark label rest =>
      cases stack with
      | nil => cases hstep
      | cons top below =>
          cases hstep
          exact ⟨_, _, _, rfl⟩

theorem FairRun.lone {program : Program Y α} {config : Config Y α}
    (fairRun : FairRun fair (.lone stack program shared) past config) :
    ∃ stack' program' shared', config = .lone stack' program' shared' := by
  cases fairRun with
  | start => exact ⟨_, _, _, rfl⟩
  | advance => exact ⟨_, _, _, rfl⟩
  | drift => exact ⟨_, _, _, rfl⟩

/-- A schedule of decisions that the assumption allows anywhere is a fair run. -/
theorem FairRun.of_schedule {first : Config Y α} {choices : List Y.Choice}
    (hfair : ∀ choice ∈ choices, ∀ past world db, fair past world db choice)
    {program : Program Y α} (fairRun : FairRun fair first past (.lone stack program shared))
    {config : Config Y α}
    (h : (Config.lone stack program shared).schedule anyMove (choices.map (.advance 0)) =
      some config) :
    FairRun fair first (past ++ choices) config := by
  induction choices generalizing past stack program shared with
  | nil =>
      cases h
      rw [List.append_nil]
      exact fairRun
  | cons choice choices ih =>
      obtain ⟨hchoice, hchoices⟩ := List.forall_mem_cons.mp hfair
      rw [List.map_cons] at h
      unfold Config.schedule at h
      split at h
      · obtain ⟨next, hstep, hrest⟩ := Option.bind_eq_some_iff.mp h
        obtain ⟨stack', program', shared', rfl⟩ := Config.lone_of_advance hstep
        have hnext := ih hchoices (fairRun.advance choice (hchoice _ _ _) hstep) hrest
        rw [List.append_assoc] at hnext
        exact hnext
      · cases h

/-! ## Bodies of a transaction -/

/-- The transaction is open as it was, and its writes have kept the indexes. -/
structure Opened (top : Session Y) (shared : Shared Y) (stack' : List (Session Y))
    (shared' : Shared Y) (top' : Session Y) : Prop where
  stack : stack' = [top']
  name : top'.name = top.name
  committed : shared'.committed = shared.committed
  trace : shared'.trace = shared.trace
  unique : Unique (top'.view shared.committed)

theorem exec_unique {statement : Statement Y β} {world : Y.World} {choice : Y.Choice}
    {free : Lock Y → Bool} {view : Y.schema.Database} {outcome : Outcome Y β}
    (unique : Unique view) (hexec : statement.exec world choice free view = some outcome) :
    Unique (applyAll outcome.writes view) := by
  have footprint : Footprint (fun _ => True) outcome.writes view :=
    statement.exec_footprint unique hexec fun _ _ => trivial
  exact footprint.unique view (Agree.refl _ view) unique

/-- What is sure of a body is so of every run of it, with the trace as it was. -/
theorem surely.follows {program : Program Y α} (stays : program.Stays)
    {post : α → Situation Y → Prop} {top : Session Y}
    (unique : Unique (top.view shared.committed))
    (h : surely fair program post ⟨past, [top], shared.world, shared.committed⟩) :
    Library.follows fair program (fun value past' stack' shared' => ∃ top',
      Opened top shared stack' shared' top' ∧
        post value ⟨past', stack', shared'.world, shared'.committed⟩) past [top] shared := by
  induction program generalizing past top shared with
  | ret value => exact ⟨top, ⟨rfl, rfl, rfl, rfl, unique⟩, h⟩
  | halt => trivial
  | run statement rest ih =>
      obtain ⟨_, _, ⟨⟩, -, hevery⟩ := h
      rintro _ _ ⟨⟩ world choice outcome hdrifts hfair hexec
      have hview : Unique ((top.extend outcome).view (shared.drifted world).committed) := by
        rw [Session.view_extend]
        exact exec_unique unique hexec
      refine follows_mono (ih _ (stays _) hview
        (hevery world choice outcome hdrifts hfair hexec)) ?_
      rintro value past' stack' shared' ⟨top', opened, hpost⟩
      exact ⟨top', ⟨opened.stack, opened.name, opened.committed, opened.trace, opened.unique⟩,
        hpost⟩
  | enter name rest _ => exact stays.elim
  | leave commit rest _ => exact stays.elim
  | call request rest _ => exact stays.elim
  | mark label rest ih =>
      obtain ⟨_, _, ⟨⟩, hevery⟩ := h
      rintro _ _ ⟨⟩ world choice hdrifts hfair
      refine follows_mono (ih stays unique (hevery world choice hdrifts hfair)) ?_
      rintro value past' stack' shared' ⟨top', opened, hpost⟩
      exact ⟨top', ⟨opened.stack, opened.name, opened.committed, opened.trace, opened.unique⟩,
        hpost⟩

end

/-! ## Programs that may raise -/

def tells (fair : Assumption Y) (program : Raising Y ε α)
    (ok : α → List Y.Choice → List (Session Y) → Shared Y → Prop)
    (error : ε → List Y.Choice → List (Session Y) → Shared Y → Prop)
    (past : List Y.Choice) (stack : List (Session Y)) (shared : Shared Y) : Prop :=
  follows fair program.run (fun result past' stack' shared' => match result with
    | .ok value => ok value past' stack' shared'
    | .error raised => error raised past' stack' shared') past stack shared

section Rules

variable {fair : Assumption Y} {past : List Y.Choice} {stack : List (Session Y)}
  {shared : Shared Y} {ok : α → List Y.Choice → List (Session Y) → Shared Y → Prop}
  {error : ε → List Y.Choice → List (Session Y) → Shared Y → Prop}

theorem tells_pure {value : α} (h : ok value past stack shared) :
    tells fair (pure value : Raising Y ε α) ok error past stack shared :=
  h

theorem tells_throw {raised : ε} (h : error raised past stack shared) :
    tells fair (throw raised : Raising Y ε α) ok error past stack shared :=
  h

theorem tells_bind {program : Raising Y ε β} {next : β → Raising Y ε α}
    (h : tells fair program (fun value => tells fair (next value) ok error) error
      past stack shared) :
    tells fair (program >>= next) ok error past stack shared := by
  have hrun : (program >>= next).run =
      (program.run).bind (fun result => match result with
        | .ok value => (next value).run
        | .error raised => .ret (.error raised)) := by
    change Program.bind _ _ = Program.bind _ _
    congr 1
  unfold tells
  rw [hrun, follows_bind]
  refine follows_mono h fun result past' stack' shared' hresult => ?_
  cases result with
  | ok value => exact hresult
  | error raised => exact hresult

theorem tells_mono {program : Raising Y ε α}
    {ok' : α → List Y.Choice → List (Session Y) → Shared Y → Prop}
    {error' : ε → List Y.Choice → List (Session Y) → Shared Y → Prop}
    (h : tells fair program ok error past stack shared)
    (hok : ∀ value past' stack' shared', ok value past' stack' shared' →
      ok' value past' stack' shared')
    (herror : ∀ raised past' stack' shared', error raised past' stack' shared' →
      error' raised past' stack' shared') :
    tells fair program ok' error' past stack shared := by
  refine follows_mono h fun result past' stack' shared' hresult => ?_
  cases result with
  | ok value => exact hok _ _ _ _ hresult
  | error raised => exact herror _ _ _ _ hresult

theorem tells_call {request : Y.Request}
    {ok : Y.Reply request → List Y.Choice → List (Session Y) → Shared Y → Prop}
    (h : ∀ world choice reply world', fair past world (seenBy stack shared.committed) choice →
      Y.respond 0 request choice world = some (reply, world') →
      ok reply (past ++ [choice]) stack (shared.answer 0 world' request reply)) :
    tells fair (Raising.call request : Raising Y ε _) ok error past stack shared :=
  fun world choice answer _ hfair hanswer => h world choice answer.1 answer.2 hfair hanswer

/-- The transaction of this name committed these writes. -/
structure LoneCommit (name : Y.Name) (writes : List (Write Y.schema))
    (before after : Shared Y) : Prop where
  unique : Unique after.committed
  committed : after.committed = applyAll writes before.committed
  trace : after.trace = before.trace ++ [(0, .began name), (0, .committed name writes)]

/-- The transaction of this name was rolled back. -/
structure LoneRollback (name : Y.Name) (before after : Shared Y) : Prop where
  committed : after.committed = before.committed
  trace : after.trace = before.trace ++ [(0, .began name), (0, .rolledBack name)]

/-- A session commits what its body attains, or is rolled back where it raises. -/
theorem tells_session {name : Y.Name} {body : Raising Y ε α} (stays : body.Stays)
    (unique : Unique shared.committed) {attained : α → Y.schema.Database → Prop}
    {failed : ε → Prop}
    (h : ∀ choice, attains fair body (fun value _ view => attained value view)
      (fun raised _ _ => failed raised) (past ++ [choice]) shared.committed)
    (hok : ∀ value writes past' shared', LoneCommit name writes shared shared' →
      attained value shared'.committed → ok value past' [] shared')
    (herror : ∀ raised past' shared', LoneRollback name shared shared' → failed raised →
      error raised past' [] shared') :
    tells fair (Raising.withSession name body) ok error past [] shared := by
  intro world choice _ _
  rw [follows_bind]
  let begun := (shared.drifted world).log 0 (.began name)
  have hview : Unique ((Session.fresh name).view begun.committed) := unique
  refine follows_mono ((h choice (Session.fresh name) world shared.committed rfl).follows stays
    hview) ?_
  rintro result past₁ stack₁ shared₁ ⟨top, opened, hresult⟩
  cases result with
  | ok value =>
      obtain ⟨top', hstack', -, hattained⟩ := hresult
      have hsame : top = top' := by simpa using opened.stack.symm.trans hstack'
      subst hsame
      intro _ _ hstack world' choice' _ _
      rw [opened.stack] at hstack
      cases hstack
      have hcommitted : ((shared₁.drifted world').commit 0 top).committed =
          top.view shared.committed := congrArg top.view opened.committed
      refine hok value top.writes _ _ ⟨?_, hcommitted, ?_⟩ ?_
      · rw [hcommitted]
        exact opened.unique
      · change shared₁.trace ++ [(0, .committed top.name top.writes)] = _
        rw [opened.trace, opened.name]
        exact List.append_assoc _ _ _
      · rw [hcommitted]
        exact hattained
  | error raised =>
      obtain ⟨top', hstack', -, hfailed⟩ := hresult
      intro _ _ hstack world' choice' _ _
      rw [opened.stack] at hstack
      cases hstack
      refine herror raised _ _ ⟨opened.committed, ?_⟩ hfailed
      change shared₁.trace ++ [(0, .rolledBack top.name)] = _
      rw [opened.trace, opened.name]
      exact List.append_assoc _ _ _

end Rules

end PayzenoLedger.Library
