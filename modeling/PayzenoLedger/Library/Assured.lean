import PayzenoLedger.Library.Sequential

/-!
# What a lone worker is sure to do

Total correctness for one worker under an assumption on what the environment decides at
each step, given what it decided before and how the world stands.  `surely` asks that every
run that keeps to the assumption goes on and ends as the postcondition says, and that
wherever the decision matters some decision keeps to it; so the program ends, and it ends so.
-/

set_option autoImplicit false

namespace PayzenoLedger.Library

variable {Y : System} {ε α β : Type}

/-- What the environment may decide, by what it decided before, the world and the database
that the worker sees. -/
abbrev Assumption (Y : System) : Type :=
  List Y.Choice → Y.World → Y.schema.Database → Y.Choice → Prop

/-- Sooner or later the assumption leaves the environment a decision. -/
def Assumption.Live (fair : Assumption Y) : Prop :=
  ∀ past world db, ∃ world' choice, Drifts world world' ∧ fair past world' db choice

/-- The database that the top session sees. -/
def seenBy (stack : List (Session Y)) (db : Y.schema.Database) : Y.schema.Database :=
  match stack with
  | [] => db
  | top :: _ => top.view db

/-- Where a lone worker stands: the decisions so far, its sessions, the world and the
committed database. -/
structure Situation (Y : System) where
  past : List Y.Choice
  stack : List (Session Y)
  world : Y.World
  db : Y.schema.Database

/-- The database that the worker sees. -/
def Situation.seen (situation : Situation Y) : Y.schema.Database :=
  seenBy situation.stack situation.db

/-- Under the assumption the program goes on to its end, and ends as the postcondition says. -/
def surely (fair : Assumption Y) : Program Y α → (α → Situation Y → Prop) →
    Situation Y → Prop
  | .ret value, post, situation => post value situation
  | .run statement next, post, situation =>
      ∃ top rest, situation.stack = top :: rest ∧
        (∃ world choice outcome, Drifts situation.world world ∧
          fair situation.past world situation.seen choice ∧
          statement.exec world choice (unheld rest) (top.view situation.db) = some outcome) ∧
        ∀ world choice outcome, Drifts situation.world world →
          fair situation.past world situation.seen choice →
          statement.exec world choice (unheld rest) (top.view situation.db) = some outcome →
          surely fair (next outcome.value) post
            ⟨situation.past ++ [choice], top.extend outcome :: rest, world, situation.db⟩
  | .enter name next, post, situation =>
      ∀ world choice, Drifts situation.world world →
        fair situation.past world situation.seen choice →
        surely fair next post
          { situation with
            past := situation.past ++ [choice]
            stack := Session.fresh name :: situation.stack
            world }
  | .leave true next, post, situation =>
      ∃ top rest, situation.stack = top :: rest ∧
        ∀ world choice, Drifts situation.world world →
          fair situation.past world situation.seen choice →
          surely fair next post
            { situation with
              past := situation.past ++ [choice]
              stack := rest
              world
              db := top.view situation.db }
  | .leave false next, post, situation =>
      ∃ top rest, situation.stack = top :: rest ∧
        ∀ world choice, Drifts situation.world world →
          fair situation.past world situation.seen choice →
          surely fair next post
            { situation with past := situation.past ++ [choice], stack := rest, world }
  | .call request next, post, situation =>
      (∃ world choice answer, Drifts situation.world world ∧
        fair situation.past world situation.seen choice ∧
        Y.respond 0 request choice world = some answer) ∧
      ∀ world choice answer, Drifts situation.world world →
        fair situation.past world situation.seen choice →
        Y.respond 0 request choice world = some answer →
        surely fair (next answer.1) post
          { situation with past := situation.past ++ [choice], world := answer.2 }
  | .mark label next, post, situation =>
      ∃ top rest, situation.stack = top :: rest ∧
        ∀ world choice, Drifts situation.world world →
          fair situation.past world situation.seen choice →
          surely fair next post
            { situation with
              past := situation.past ++ [choice]
              world
              stack := { top with marks := top.marks ++ [label] } :: rest }
  | .halt, _, _ => False

section

variable {fair : Assumption Y} {situation : Situation Y}

theorem surely_bind (program : Program Y α) (next : α → Program Y β)
    (post : β → Situation Y → Prop) (situation : Situation Y) :
    surely fair (program.bind next) post situation =
      surely fair program (fun value => surely fair (next value) post) situation := by
  induction program generalizing situation with
  | ret value => rfl
  | halt => rfl
  | run statement rest ih => simp only [Program.bind, surely, ih]
  | enter name rest ih => simp only [Program.bind, surely, ih]
  | leave commit rest ih => cases commit <;> simp only [Program.bind, surely, ih]
  | call request rest ih => simp only [Program.bind, surely, ih]
  | mark label rest ih => simp only [Program.bind, surely, ih]

theorem surely_mono {program : Program Y α} {post post' : α → Situation Y → Prop}
    (h : surely fair program post situation)
    (himplies : ∀ value situation', post value situation' → post' value situation') :
    surely fair program post' situation := by
  induction program generalizing situation with
  | ret value => exact himplies _ _ h
  | halt => exact h
  | run statement rest ih =>
      obtain ⟨top, below, hstack, hsome, hevery⟩ := h
      exact ⟨top, below, hstack, hsome, fun world choice outcome hdrifts hfair hexec =>
        ih _ (hevery world choice outcome hdrifts hfair hexec)⟩
  | enter name rest ih =>
      exact fun world choice hdrifts hfair => ih (h world choice hdrifts hfair)
  | leave commit rest ih =>
      cases commit with
      | true =>
          obtain ⟨top, below, hstack, hevery⟩ := h
          exact ⟨top, below, hstack, fun world choice hdrifts hfair =>
            ih (hevery world choice hdrifts hfair)⟩
      | false =>
          obtain ⟨top, below, hstack, hevery⟩ := h
          exact ⟨top, below, hstack, fun world choice hdrifts hfair =>
            ih (hevery world choice hdrifts hfair)⟩
  | call request rest ih =>
      obtain ⟨hsome, hevery⟩ := h
      exact ⟨hsome, fun world choice answer hdrifts hfair hanswer =>
        ih _ (hevery world choice answer hdrifts hfair hanswer)⟩
  | mark label rest ih =>
      obtain ⟨top, below, hstack, hevery⟩ := h
      exact ⟨top, below, hstack, fun world choice hdrifts hfair =>
            ih (hevery world choice hdrifts hfair)⟩

end

/-! ## What may happen -/

/-- The environment, keeping to the assumption, can bring the program to its end as the
postcondition says. -/
def possibly (fair : Assumption Y) : Program Y α → (α → Situation Y → Prop) →
    Situation Y → Prop
  | .ret value, post, situation => post value situation
  | .run statement next, post, situation =>
      ∃ top rest, situation.stack = top :: rest ∧
        ∃ world choice outcome, Drifts situation.world world ∧
          fair situation.past world situation.seen choice ∧
          statement.exec world choice (unheld rest) (top.view situation.db) = some outcome ∧
          possibly fair (next outcome.value) post
            ⟨situation.past ++ [choice], top.extend outcome :: rest, world, situation.db⟩
  | .enter name next, post, situation =>
      ∃ world choice, Drifts situation.world world ∧
        fair situation.past world situation.seen choice ∧
        possibly fair next post
          ⟨situation.past ++ [choice], Session.fresh name :: situation.stack, world,
            situation.db⟩
  | .leave commit next, post, situation =>
      ∃ top rest, situation.stack = top :: rest ∧
        ∃ world choice, Drifts situation.world world ∧
          fair situation.past world situation.seen choice ∧
          possibly fair next post
            ⟨situation.past ++ [choice], rest, world,
              if commit then top.view situation.db else situation.db⟩
  | .call request next, post, situation =>
      ∃ world choice answer, Drifts situation.world world ∧
        fair situation.past world situation.seen choice ∧
        Y.respond 0 request choice world = some answer ∧
        possibly fair (next answer.1) post
          ⟨situation.past ++ [choice], situation.stack, answer.2, situation.db⟩
  | .mark label next, post, situation =>
      ∃ top rest, situation.stack = top :: rest ∧
        ∃ world choice, Drifts situation.world world ∧
          fair situation.past world situation.seen choice ∧
          possibly fair next post
            ⟨situation.past ++ [choice], { top with marks := top.marks ++ [label] } :: rest,
              world, situation.db⟩
  | .halt, _, _ => False

section

variable {fair : Assumption Y} {situation : Situation Y}

theorem possibly_bind (program : Program Y α) (next : α → Program Y β)
    (post : β → Situation Y → Prop) (situation : Situation Y) :
    possibly fair (program.bind next) post situation =
      possibly fair program (fun value => possibly fair (next value) post) situation := by
  induction program generalizing situation with
  | ret value => rfl
  | halt => rfl
  | run statement rest ih => simp only [Program.bind, possibly, ih]
  | enter name rest ih => simp only [Program.bind, possibly, ih]
  | leave commit rest ih => simp only [Program.bind, possibly, ih]
  | call request rest ih => simp only [Program.bind, possibly, ih]
  | mark label rest ih => simp only [Program.bind, possibly, ih]

theorem possibly_mono {program : Program Y α} {post post' : α → Situation Y → Prop}
    (h : possibly fair program post situation)
    (himplies : ∀ value situation', post value situation' → post' value situation') :
    possibly fair program post' situation := by
  induction program generalizing situation with
  | ret value => exact himplies _ _ h
  | halt => exact h
  | run statement rest ih =>
      obtain ⟨top, below, hstack, world, choice, outcome, hdrifts, hfair, hexec, hnext⟩ := h
      exact ⟨top, below, hstack, world, choice, outcome, hdrifts, hfair, hexec, ih _ hnext⟩
  | enter name rest ih =>
      obtain ⟨world, choice, hdrifts, hfair, hnext⟩ := h
      exact ⟨world, choice, hdrifts, hfair, ih hnext⟩
  | leave commit rest ih =>
      obtain ⟨top, below, hstack, world, choice, hdrifts, hfair, hnext⟩ := h
      exact ⟨top, below, hstack, world, choice, hdrifts, hfair, ih hnext⟩
  | call request rest ih =>
      obtain ⟨world, choice, answer, hdrifts, hfair, hanswer, hnext⟩ := h
      exact ⟨world, choice, answer, hdrifts, hfair, hanswer, ih _ hnext⟩
  | mark label rest ih =>
      obtain ⟨top, below, hstack, world, choice, hdrifts, hfair, hnext⟩ := h
      exact ⟨top, below, hstack, world, choice, hdrifts, hfair, ih hnext⟩

/-- What is sure may happen. -/
theorem surely.possibly (live : fair.Live) {program : Program Y α}
    {post : α → Situation Y → Prop} (h : surely fair program post situation) :
    possibly fair program post situation := by
  induction program generalizing situation with
  | ret value => exact h
  | halt => exact h
  | run statement rest ih =>
      obtain ⟨top, below, hstack, ⟨world, choice, outcome, hdrifts, hfair, hexec⟩, hevery⟩ := h
      exact ⟨top, below, hstack, world, choice, outcome, hdrifts, hfair, hexec,
        ih _ (hevery world choice outcome hdrifts hfair hexec)⟩
  | enter name rest ih =>
      obtain ⟨world, choice, hdrifts, hfair⟩ := live situation.past situation.world situation.seen
      exact ⟨world, choice, hdrifts, hfair, ih (h world choice hdrifts hfair)⟩
  | leave commit rest ih =>
      obtain ⟨world, choice, hdrifts, hfair⟩ := live situation.past situation.world situation.seen
      cases commit with
      | true =>
          obtain ⟨top, below, hstack, hevery⟩ := h
          exact ⟨top, below, hstack, world, choice, hdrifts, hfair,
            ih (hevery world choice hdrifts hfair)⟩
      | false =>
          obtain ⟨top, below, hstack, hevery⟩ := h
          exact ⟨top, below, hstack, world, choice, hdrifts, hfair,
            ih (hevery world choice hdrifts hfair)⟩
  | call request rest ih =>
      obtain ⟨⟨world, choice, answer, hdrifts, hfair, hanswer⟩, hevery⟩ := h
      exact ⟨world, choice, answer, hdrifts, hfair, hanswer,
        ih _ (hevery world choice answer hdrifts hfair hanswer)⟩
  | mark label rest ih =>
      obtain ⟨world, choice, hdrifts, hfair⟩ := live situation.past situation.world situation.seen
      obtain ⟨top, below, hstack, hevery⟩ := h
      exact ⟨top, below, hstack, world, choice, hdrifts, hfair,
        ih (hevery world choice hdrifts hfair)⟩

/-- What is sure of every end holds of one that may come about. -/
theorem surely.meets {program : Program Y α} {post post' : α → Situation Y → Prop}
    (h : surely fair program post situation) (h' : Library.possibly fair program post' situation) :
    ∃ value situation', post value situation' ∧ post' value situation' := by
  induction program generalizing situation with
  | ret value => exact ⟨value, situation, h, h'⟩
  | halt => exact h.elim
  | run statement rest ih =>
      obtain ⟨top, below, hstack, -, hevery⟩ := h
      obtain ⟨top', below', hstack', world, choice, outcome, hdrifts, hfair, hexec, hnext⟩ := h'
      rw [hstack] at hstack'
      cases hstack'
      exact ih _ (hevery world choice outcome hdrifts hfair hexec) hnext
  | enter name rest ih =>
      obtain ⟨world, choice, hdrifts, hfair, hnext⟩ := h'
      exact ih (h world choice hdrifts hfair) hnext
  | leave commit rest ih =>
      obtain ⟨top', below', hstack', world, choice, hdrifts, hfair, hnext⟩ := h'
      cases commit with
      | true =>
          obtain ⟨top, below, hstack, hevery⟩ := h
          rw [hstack] at hstack'
          cases hstack'
          exact ih (hevery world choice hdrifts hfair) hnext
      | false =>
          obtain ⟨top, below, hstack, hevery⟩ := h
          rw [hstack] at hstack'
          cases hstack'
          exact ih (hevery world choice hdrifts hfair) hnext
  | call request rest ih =>
      obtain ⟨-, hevery⟩ := h
      obtain ⟨world, choice, answer, hdrifts, hfair, hanswer, hnext⟩ := h'
      exact ih _ (hevery world choice answer hdrifts hfair hanswer) hnext
  | mark label rest ih =>
      obtain ⟨top, below, hstack, hevery⟩ := h
      obtain ⟨top', below', hstack', world, choice, hdrifts, hfair, hnext⟩ := h'
      rw [hstack] at hstack'
      cases hstack'
      exact ih (hevery world choice hdrifts hfair) hnext

/-- A program that spares a table ends with its rows as they were. -/
theorem surely.spared {table : Y.schema.Table} {program : Program Y α}
    (confined : program.Confined (Sparing table)) {post : α → Situation Y → Prop}
    {top : Session Y} {rest : List (Session Y)} (hstack : situation.stack = top :: rest)
    (h : surely fair program post situation) :
    surely fair program (fun value situation' => post value situation' ∧
      ∃ top', situation'.stack = top' :: rest ∧ Spared table top top') situation := by
  induction program generalizing situation top with
  | ret value => exact ⟨h, top, hstack, .refl table top⟩
  | halt => exact h
  | run statement next ih =>
      obtain ⟨top', below, hstack', hsome, hevery⟩ := h
      rw [hstack] at hstack'
      cases hstack'
      refine ⟨top, rest, hstack, hsome, fun world choice outcome hdrifts hfair hexec => ?_⟩
      refine surely_mono (ih _ (confined.2 _) rfl
        (hevery world choice outcome hdrifts hfair hexec)) ?_
      rintro value situation' ⟨hpost, top', hstack', spared⟩
      exact ⟨hpost, top', hstack', (Spared.extend confined.1 hexec).trans spared⟩
  | enter name next _ => exact confined.elim
  | leave commit next _ => exact confined.elim
  | call request next ih =>
      obtain ⟨hsome, hevery⟩ := h
      exact ⟨hsome, fun world choice answer hdrifts hfair hanswer =>
        ih _ (confined _) hstack (hevery world choice answer hdrifts hfair hanswer)⟩
  | mark label next ih =>
      obtain ⟨top', below, hstack', hevery⟩ := h
      rw [hstack] at hstack'
      cases hstack'
      refine ⟨top, rest, hstack, fun world choice hdrifts hfair => ?_⟩
      refine surely_mono (ih confined rfl (hevery world choice hdrifts hfair)) ?_
      rintro value situation' ⟨hpost, top', hstack', spared⟩
      exact ⟨hpost, top', hstack', ⟨spared.rows⟩⟩

end

/-! ## Runs -/

/-- The only worker of a configuration. -/
def Config.lone (stack : List (Session Y)) (program : Program Y α) (shared : Shared Y) :
    Config Y α :=
  ⟨shared, [⟨stack, program⟩]⟩

theorem Config.lone_free {stack : List (Session Y)} {program : Program Y α} {shared : Shared Y}
    (rest : List (Session Y)) : (Config.lone stack program shared).free 0 rest = unheld rest := by
  funext lock
  simp [Config.free, Config.lone, unheld]

/-- A run of a lone worker in which every decision keeps to the assumption. -/
inductive FairRun (fair : Assumption Y) (first : Config Y α) :
    List Y.Choice → Config Y α → Prop where
  | start : FairRun fair first [] first
  | advance {past : List Y.Choice} {stack stack' : List (Session Y)}
      {program program' : Program Y α} {shared shared' : Shared Y} (choice : Y.Choice)
      (run : FairRun fair first past (.lone stack program shared))
      (hfair : fair past shared.world (seenBy stack shared.committed) choice)
      (hstep : (Config.lone stack program shared).advance 0 choice =
        some (.lone stack' program' shared')) :
      FairRun fair first (past ++ [choice]) (.lone stack' program' shared')
  | drift {past : List Y.Choice} {stack : List (Session Y)} {program : Program Y α}
      {shared : Shared Y} {world : Y.World} (choice : Y.Choice)
      (run : FairRun fair first past (.lone stack program shared))
      (hdrift : Y.drift choice shared.world = some world) :
      FairRun fair first past (.lone stack program { shared with world := world })

section

variable {fair : Assumption Y} {first : Config Y α} {past : List Y.Choice}
  {stack stack' : List (Session Y)} {program program' : Program Y α} {shared : Shared Y}

theorem FairRun.drifts {world : Y.World} (h : Drifts shared.world world)
    (fairRun : FairRun fair first past (.lone stack program shared)) :
    FairRun fair first past (.lone stack program { shared with world := world }) := by
  induction h with
  | refl => exact fairRun
  | tail _ hstep ih =>
      obtain ⟨choice, hchoice⟩ := hstep
      have hrun := FairRun.drift choice ih hchoice
      exact hrun

/-- The lone worker is where it is sure to end well. -/
def OnWay (fair : Assumption Y) (post : α → Situation Y → Prop) (past : List Y.Choice)
    (config : Config Y α) : Prop :=
  ∃ stack program shared world, config = .lone stack program shared ∧
    Drifts world shared.world ∧
    surely fair program post ⟨past, stack, world, shared.committed⟩

theorem OnWay.advance {post : α → Situation Y → Prop} {choice : Y.Choice}
    {config config' : Config Y α} (way : OnWay fair post past config)
    (hfair : ∀ stack program shared, config = .lone stack program shared →
      fair past shared.world (seenBy stack shared.committed) choice)
    (hstep : config.advance 0 choice = some config') :
    OnWay fair post (past ++ [choice]) config' := by
  obtain ⟨stack, program, shared, world, rfl, hdrifts, h⟩ := way
  have hchoice := hfair stack program shared rfl
  cases program with
  | ret value => cases hstep
  | halt => exact h.elim
  | run statement rest =>
      obtain ⟨top, below, rfl, -, hevery⟩ := h
      obtain ⟨outcome, hexec, rfl⟩ := Option.map_eq_some_iff.mp hstep
      rw [Config.lone_free] at hexec
      exact ⟨_, _, shared, _, rfl, .refl _, hevery _ choice outcome hdrifts hchoice hexec⟩
  | enter name rest =>
      cases hstep
      exact ⟨_, _, shared.log 0 (.began name), _, rfl, .refl _,
        h _ choice hdrifts hchoice⟩
  | leave commit rest =>
      cases commit with
      | true =>
          obtain ⟨top, below, rfl, hevery⟩ := h
          cases hstep
          exact ⟨_, _, shared.commit 0 top, _, rfl, .refl _,
            hevery _ choice hdrifts hchoice⟩
      | false =>
          obtain ⟨top, below, rfl, hevery⟩ := h
          cases hstep
          exact ⟨_, _, shared.log 0 (.rolledBack top.name), _, rfl, .refl _,
            hevery _ choice hdrifts hchoice⟩
  | call request rest =>
      obtain ⟨-, hevery⟩ := h
      obtain ⟨answer, hanswer, rfl⟩ := Option.map_eq_some_iff.mp hstep
      exact ⟨_, _, shared.answer 0 answer.2 request answer.1, _, rfl, .refl _,
        hevery _ choice answer hdrifts hchoice hanswer⟩
  | mark label rest =>
      obtain ⟨top, below, rfl, hevery⟩ := h
      cases hstep
      exact ⟨_, _, shared, _, rfl, .refl _,
            hevery _ choice hdrifts hchoice⟩

/-- Every fair run that ends does so well. -/
theorem surely.every {post : α → Situation Y → Prop} {value : α}
    (h : surely fair program post ⟨[], stack, shared.world, shared.committed⟩)
    {shared' : Shared Y}
    (fairRun : FairRun fair (.lone stack program shared) past
      (.lone stack' (.ret value) shared')) :
    ∃ world, Drifts world shared'.world ∧
      post value ⟨past, stack', world, shared'.committed⟩ := by
  have hway {past : List Y.Choice} {config : Config Y α}
      (fairRun : FairRun fair (.lone stack program shared) past config) :
      OnWay fair post past config := by
    induction fairRun with
    | start => exact ⟨stack, program, shared, _, rfl, .refl _, h⟩
    | advance choice _ hfair hstep ih =>
        refine ih.advance ?_ hstep
        rintro stack program shared ⟨⟩
        exact hfair
    | @drift _ stack₁ program₁ shared₁ world' choice _ hdrift ih =>
        obtain ⟨_, _, _, world₁, ⟨⟩, hdrifts, h₁⟩ := ih
        exact ⟨stack₁, program₁, { shared₁ with world := world' }, world₁, rfl,
          hdrifts.tail ⟨choice, hdrift⟩, h₁⟩
  obtain ⟨stack, program, shared, world, ⟨⟩, hdrifts, hpost⟩ := hway fairRun
  exact ⟨world, hdrifts, hpost⟩

/-- What may happen does in some fair run. -/
theorem possibly.ends {post : α → Situation Y → Prop}
    (h : possibly fair program post ⟨past, stack, shared.world, shared.committed⟩)
    (fairRun : FairRun fair first past (.lone stack program shared)) :
    ∃ value past' stack' shared',
      FairRun fair first past' (.lone stack' (.ret value) shared') ∧
      post value ⟨past', stack', shared'.world, shared'.committed⟩ := by
  induction program generalizing past stack shared with
  | ret value => exact ⟨value, past, stack, shared, fairRun, h⟩
  | halt => exact h.elim
  | run statement rest ih =>
      obtain ⟨top, below, rfl, world, choice, outcome, hdrifts, hfair, hexec, hnext⟩ := h
      have hstep : (Config.lone (top :: below) (.run statement rest)
          { shared with world := world }).advance 0 choice =
          some (.lone (top.extend outcome :: below) (rest outcome.value)
            { shared with world := world }) := by
        refine Option.map_eq_some_iff.mpr ⟨outcome, ?_, rfl⟩
        rw [Config.lone_free]
        exact hexec
      exact ih outcome.value hnext ((fairRun.drifts hdrifts).advance choice hfair hstep)
  | enter name rest ih =>
      obtain ⟨world, choice, hdrifts, hfair, hnext⟩ := h
      let drifted : Shared Y := { shared with world := world }
      have hrun : FairRun fair first (past ++ [choice])
          (.lone (Session.fresh name :: stack) rest (drifted.log 0 (.began name))) :=
        (fairRun.drifts hdrifts).advance choice hfair rfl
      have hrest : possibly fair rest post
          ⟨past ++ [choice], Session.fresh name :: stack, (drifted.log 0 (.began name)).world,
            (drifted.log 0 (.began name)).committed⟩ := hnext
      exact ih hrest hrun
  | leave commit rest ih =>
      obtain ⟨top, below, rfl, world, choice, hdrifts, hfair, hnext⟩ := h
      let drifted : Shared Y := { shared with world := world }
      cases commit with
      | true =>
          have hrun : FairRun fair first (past ++ [choice])
              (.lone below rest (drifted.commit 0 top)) :=
            (fairRun.drifts hdrifts).advance choice hfair rfl
          exact ih hnext hrun
      | false =>
          have hrun : FairRun fair first (past ++ [choice])
              (.lone below rest (drifted.log 0 (.rolledBack top.name))) :=
            (fairRun.drifts hdrifts).advance choice hfair rfl
          have hrest : possibly fair rest post
              ⟨past ++ [choice], below, (drifted.log 0 (.rolledBack top.name)).world,
                (drifted.log 0 (.rolledBack top.name)).committed⟩ := hnext
          exact ih hrest hrun
  | call request rest ih =>
      obtain ⟨world, choice, answer, hdrifts, hfair, hanswer, hnext⟩ := h
      have hstep : (Config.lone stack (.call request rest)
          { shared with world := world }).advance 0 choice =
          some (.lone stack (rest answer.1) (({ shared with world := world } : Shared Y).answer 0
            answer.2 request answer.1)) :=
        Option.map_eq_some_iff.mpr ⟨answer, hanswer, rfl⟩
      exact ih answer.1 hnext ((fairRun.drifts hdrifts).advance choice hfair hstep)
  | mark label rest ih =>
      obtain ⟨top, below, rfl, world, choice, hdrifts, hfair, hnext⟩ := h
      let drifted : Shared Y := { shared with world := world }
      have hrun : FairRun fair first (past ++ [choice])
          (.lone ({ top with marks := top.marks ++ [label] } :: below) rest drifted) :=
        (fairRun.drifts hdrifts).advance choice hfair rfl
      exact ih hnext hrun

/-- Some fair run ends. -/
theorem surely.ends (live : fair.Live) {post : α → Situation Y → Prop}
    (h : surely fair program post ⟨past, stack, shared.world, shared.committed⟩)
    (fairRun : FairRun fair first past (.lone stack program shared)) :
    ∃ value past' stack' shared',
      FairRun fair first past' (.lone stack' (.ret value) shared') ∧
      post value ⟨past', stack', shared'.world, shared'.committed⟩ :=
  (h.possibly live).ends fairRun

end

/-- The program, run by a lone worker under the assumption, may end with this value and
leave this database. -/
def FairlyFinishes (fair : Assumption Y) (db : Y.schema.Database) (program : Program Y α)
    (value : α) (db' : Y.schema.Database) : Prop :=
  ∃ world past shared, FairRun fair (.lone [] program ⟨db, world, []⟩) past
    (.lone [] (.ret value) shared) ∧ shared.committed = db'

/-! ## Programs that may raise -/

/-- What a program that may raise is sure to end with. -/
def sure (fair : Assumption Y) (program : Raising Y ε α) (ok : α → Situation Y → Prop)
    (error : ε → Situation Y → Prop) (situation : Situation Y) : Prop :=
  surely fair program.run (fun result situation' => match result with
    | .ok value => ok value situation'
    | .error raised => error raised situation') situation

section Rules

variable {fair : Assumption Y} {ok : α → Situation Y → Prop} {error : ε → Situation Y → Prop}
  {situation : Situation Y} {past : List Y.Choice} {top : Session Y} {rest : List (Session Y)}
  {world : Y.World} {db : Y.schema.Database}

@[simp]
theorem sure_pure (value : α) :
    sure fair (pure value : Raising Y ε α) ok error situation = ok value situation :=
  rfl

@[simp]
theorem sure_throw (raised : ε) :
    sure fair (throw raised : Raising Y ε α) ok error situation = error raised situation :=
  rfl

@[simp]
theorem sure_bind (program : Raising Y ε β) (next : β → Raising Y ε α) :
    sure fair (program >>= next) ok error situation =
      sure fair program (fun value => sure fair (next value) ok error) error situation := by
  have hrun : (program >>= next).run =
      (program.run).bind (fun result => match result with
        | .ok value => (next value).run
        | .error raised => .ret (.error raised)) := by
    change Program.bind _ _ = Program.bind _ _
    congr 1
  unfold sure
  rw [hrun, surely_bind]
  congr 1
  funext result
  cases result <;> rfl

theorem sure_mono {program : Raising Y ε α} {ok' : α → Situation Y → Prop}
    {error' : ε → Situation Y → Prop} (h : sure fair program ok error situation)
    (hok : ∀ value situation', ok value situation' → ok' value situation')
    (herror : ∀ raised situation', error raised situation' → error' raised situation') :
    sure fair program ok' error' situation := by
  refine surely_mono h fun result situation' hresult => ?_
  cases result with
  | ok value => exact hok value situation' hresult
  | error raised => exact herror raised situation' hresult

theorem sure_execute {statement : Statement Y α}
    (hsome : ∃ world' choice outcome, Drifts world world' ∧
      fair past world' (top.view db) choice ∧
      statement.exec world' choice (unheld rest) (top.view db) = some outcome)
    (hevery : ∀ world' choice outcome, Drifts world world' →
      fair past world' (top.view db) choice →
      statement.exec world' choice (unheld rest) (top.view db) = some outcome →
      ok outcome.value ⟨past ++ [choice], top.extend outcome :: rest, world', db⟩) :
    sure fair (Raising.execute statement : Raising Y ε α) ok error
      ⟨past, top :: rest, world, db⟩ :=
  ⟨top, rest, rfl, hsome, hevery⟩

theorem sure_query {query : Y.World → Y.Choice → Y.schema.Database → Option α}
    (hsome : ∃ world' choice value, Drifts world world' ∧
      fair past world' (top.view db) choice ∧ query world' choice (top.view db) = some value)
    (hevery : ∀ world' choice value, Drifts world world' →
      fair past world' (top.view db) choice → query world' choice (top.view db) = some value →
      ok value ⟨past ++ [choice], top :: rest, world', db⟩) :
    sure fair (Raising.execute (.select query) : Raising Y ε α) ok error
      ⟨past, top :: rest, world, db⟩ := by
  refine sure_execute ?_ fun world' choice outcome hdrifts hfair hexec => ?_
  · obtain ⟨world', choice, value, hdrifts, hfair, hvalue⟩ := hsome
    exact ⟨world', choice, ⟨value, [], []⟩, hdrifts, hfair,
      Option.map_eq_some_iff.mpr ⟨value, hvalue, rfl⟩⟩
  · obtain ⟨value, hvalue, rfl⟩ := Option.map_eq_some_iff.mp hexec
    rw [Session.extend_nil]
    exact hevery world' choice value hdrifts hfair hvalue

theorem sure_mark {label : Y.Mark} {ok : Unit → Situation Y → Prop}
    (h : ∀ world' choice, Drifts world world' → fair past world' (top.view db) choice →
      ok () ⟨past ++ [choice], { top with marks := top.marks ++ [label] } :: rest, world', db⟩) :
    sure fair (Raising.mark label : Raising Y ε Unit) ok error ⟨past, top :: rest, world, db⟩ :=
  ⟨top, rest, rfl, h⟩

theorem sure_call {request : Y.Request} {ok : Y.Reply request → Situation Y → Prop}
    (hsome : ∃ world choice answer, Drifts situation.world world ∧
      fair situation.past world situation.seen choice ∧
        Y.respond 0 request choice world = some answer)
    (hevery : ∀ world choice answer, Drifts situation.world world →
      fair situation.past world situation.seen choice →
      Y.respond 0 request choice world = some answer →
      ok answer.1 { situation with past := situation.past ++ [choice], world := answer.2 }) :
    sure fair (Raising.call request : Raising Y ε _) ok error situation :=
  ⟨hsome, hevery⟩

theorem sure_recover {body : Raising Y ε α} {handler : ε → Raising Y ε α} :
    sure fair (Raising.recover body handler) ok error situation =
      sure fair body ok (fun raised => sure fair (handler raised) ok error) situation := by
  unfold sure
  have hrun : (Raising.recover body handler).run =
      (body.run).bind (fun result => match result with
        | .ok value => .ret (.ok value)
        | .error raised => (handler raised).run) := by
    change Program.bind _ _ = Program.bind _ _
    congr 1
  rw [hrun, surely_bind]
  congr 1
  funext result
  cases result <;> rfl

/-- A session ends with its writes, or with nothing. -/
theorem sure_withSession {name : Y.Name} {body : Raising Y ε α}
    (h : ∀ world choice, Drifts situation.world world →
      fair situation.past world situation.seen choice →
      sure fair body
        (fun value situation' => ∃ top rest, situation'.stack = top :: rest ∧
          ∀ world' choice, ok value ⟨situation'.past ++ [choice], rest, world',
            top.view situation'.db⟩)
        (fun raised situation' => ∃ top rest, situation'.stack = top :: rest ∧
          ∀ world' choice, error raised ⟨situation'.past ++ [choice], rest, world',
            situation'.db⟩)
        ⟨situation.past ++ [choice], Session.fresh name :: situation.stack, world,
          situation.db⟩) :
    sure fair (Raising.withSession name body) ok error situation := by
  intro world choice hdrifts hfair
  rw [surely_bind]
  refine surely_mono (h world choice hdrifts hfair) fun result situation' hresult => ?_
  cases result with
  | ok value =>
      obtain ⟨top, rest, hstack, hend⟩ := hresult
      exact ⟨top, rest, hstack, fun world' choice _ _ => hend world' choice⟩
  | error raised =>
      obtain ⟨top, rest, hstack, hend⟩ := hresult
      exact ⟨top, rest, hstack, fun world' choice _ _ => hend world' choice⟩

/-! ## What may happen -/

/-- What a program that may raise can be brought to end with. -/
def maybe (fair : Assumption Y) (program : Raising Y ε α) (ok : α → Situation Y → Prop)
    (error : ε → Situation Y → Prop) (situation : Situation Y) : Prop :=
  possibly fair program.run (fun result situation' => match result with
    | .ok value => ok value situation'
    | .error raised => error raised situation') situation

theorem sure.maybe (live : fair.Live) {program : Raising Y ε α}
    (h : sure fair program ok error situation) : maybe fair program ok error situation :=
  surely.possibly live h

@[simp]
theorem maybe_bind (program : Raising Y ε β) (next : β → Raising Y ε α) :
    maybe fair (program >>= next) ok error situation =
      maybe fair program (fun value => maybe fair (next value) ok error) error situation := by
  have hrun : (program >>= next).run =
      (program.run).bind (fun result => match result with
        | .ok value => (next value).run
        | .error raised => .ret (.error raised)) := by
    change Program.bind _ _ = Program.bind _ _
    congr 1
  unfold maybe
  rw [hrun, possibly_bind]
  congr 1
  funext result
  cases result <;> rfl

theorem maybe_mono {program : Raising Y ε α} {ok' : α → Situation Y → Prop}
    {error' : ε → Situation Y → Prop} (h : maybe fair program ok error situation)
    (hok : ∀ value situation', ok value situation' → ok' value situation')
    (herror : ∀ raised situation', error raised situation' → error' raised situation') :
    maybe fair program ok' error' situation := by
  refine possibly_mono h fun result situation' hresult => ?_
  cases result with
  | ok value => exact hok value situation' hresult
  | error raised => exact herror raised situation' hresult

/-- A session can end with its writes, or with nothing. -/
theorem maybe_withSession (live : fair.Live) {name : Y.Name} {body : Raising Y ε α}
    (h : ∀ world choice, fair situation.past world situation.seen choice →
      maybe fair body
        (fun value situation' => ∃ top rest, situation'.stack = top :: rest ∧
          ∀ world' choice, ok value ⟨situation'.past ++ [choice], rest, world',
            top.view situation'.db⟩)
        (fun raised situation' => ∃ top rest, situation'.stack = top :: rest ∧
          ∀ world' choice, error raised ⟨situation'.past ++ [choice], rest, world',
            situation'.db⟩)
        ⟨situation.past ++ [choice], Session.fresh name :: situation.stack, world,
          situation.db⟩) :
    maybe fair (Raising.withSession name body) ok error situation := by
  obtain ⟨world, choice, hdrifts, hfair⟩ := live situation.past situation.world situation.seen
  refine ⟨world, choice, hdrifts, hfair, ?_⟩
  rw [possibly_bind]
  refine possibly_mono (h world choice hfair) fun result situation' hresult => ?_
  obtain ⟨world', choice', hdrifts', hfair'⟩ :=
    live situation'.past situation'.world situation'.seen
  cases result with
  | ok value =>
      obtain ⟨top, rest, hstack, hend⟩ := hresult
      exact ⟨top, rest, hstack, world', choice', hdrifts', hfair', hend world' choice'⟩
  | error raised =>
      obtain ⟨top, rest, hstack, hend⟩ := hresult
      exact ⟨top, rest, hstack, world', choice', hdrifts', hfair', hend world' choice'⟩

/-- Some run under the assumption ends as the rules allow. -/
theorem maybe.finishes [Nonempty Y.World] {program : Raising Y ε α}
    (holds : Except ε α → Y.schema.Database → Prop)
    (h : ∀ world, maybe fair program
      (fun value situation => situation.stack = [] ∧ holds (.ok value) situation.db)
      (fun raised situation => situation.stack = [] ∧ holds (.error raised) situation.db)
      ⟨[], [], world, db⟩) :
    ∃ result db', FairlyFinishes fair db program.run result db' ∧ holds result db' := by
  obtain ⟨world⟩ := ‹Nonempty Y.World›
  have begun : possibly fair program.run
      (fun result situation => situation.stack = [] ∧ holds result situation.db)
      ⟨[], [], (⟨db, world, []⟩ : Shared Y).world, (⟨db, world, []⟩ : Shared Y).committed⟩ := by
    refine possibly_mono (h world) fun result situation hresult => ?_
    cases result with
    | ok value => exact hresult
    | error raised => exact hresult
  obtain ⟨result, past, stack, shared, fairRun, rfl, hholds⟩ := begun.ends .start
  exact ⟨result, shared.committed, ⟨world, past, shared, fairRun, rfl⟩, hholds⟩

/-- Under the assumption the program ends, and always as the rules say. -/
theorem sure.finishes [Nonempty Y.World] (live : fair.Live) {program : Raising Y ε α}
    (holds : Except ε α → Y.schema.Database → Prop)
    (h : ∀ world, sure fair program
      (fun value situation => situation.stack = [] ∧ holds (.ok value) situation.db)
      (fun raised situation => situation.stack = [] ∧ holds (.error raised) situation.db)
      ⟨[], [], world, db⟩) :
    (∃ result db', FairlyFinishes fair db program.run result db' ∧ holds result db') ∧
      ∀ result db', FairlyFinishes fair db program.run result db' → holds result db' := by
  have hsurely (world : Y.World) : surely fair program.run
      (fun result situation => situation.stack = [] ∧ holds result situation.db)
      ⟨[], [], world, db⟩ := by
    refine surely_mono (h world) fun result situation hresult => ?_
    cases result with
    | ok value => exact hresult
    | error raised => exact hresult
  constructor
  · obtain ⟨world⟩ := ‹Nonempty Y.World›
    have begun : surely fair program.run
      (fun result situation => situation.stack = [] ∧ holds result situation.db)
      ⟨[], [], (⟨db, world, []⟩ : Shared Y).world, (⟨db, world, []⟩ : Shared Y).committed⟩ :=
      hsurely world
    obtain ⟨result, past, stack, shared, fairRun, rfl, hholds⟩ := begun.ends live .start
    exact ⟨result, shared.committed, ⟨world, past, shared, fairRun, rfl⟩, hholds⟩
  · rintro result db' ⟨world, past, shared, fairRun, rfl⟩
    have begun : surely fair program.run
      (fun result situation => situation.stack = [] ∧ holds result situation.db)
      ⟨[], [], (⟨db, world, []⟩ : Shared Y).world, (⟨db, world, []⟩ : Shared Y).committed⟩ :=
      hsurely world
    obtain ⟨world', -, -, hholds⟩ := begun.every fairRun
    exact hholds

end Rules

/-! ## One session -/

/-- What the body of a lone worker's only session is sure to end with, by the decisions so
far and the database that the session sees. -/
def attains (fair : Assumption Y) (body : Raising Y ε α)
    (ok : α → List Y.Choice → Y.schema.Database → Prop)
    (error : ε → List Y.Choice → Y.schema.Database → Prop)
    (past : List Y.Choice) (view : Y.schema.Database) : Prop :=
  ∀ (top : Session Y) world db, top.view db = view →
    sure fair body
      (fun value situation => ∃ top' : Session Y, situation.stack = [top'] ∧
        situation.db = db ∧ ok value situation.past (top'.view db))
      (fun raised situation => ∃ top' : Session Y, situation.stack = [top'] ∧
        situation.db = db ∧ error raised situation.past (top'.view db))
      ⟨past, [top], world, db⟩

section Bodies

variable {fair : Assumption Y} {ok : α → List Y.Choice → Y.schema.Database → Prop}
  {error : ε → List Y.Choice → Y.schema.Database → Prop} {past : List Y.Choice}
  {view : Y.schema.Database}

theorem attains_pure {value : α} (h : ok value past view) :
    attains fair (pure value : Raising Y ε α) ok error past view := by
  rintro top world db rfl
  exact ⟨top, rfl, rfl, h⟩

theorem attains_throw {raised : ε} (h : error raised past view) :
    attains fair (throw raised : Raising Y ε α) ok error past view := by
  rintro top world db rfl
  exact ⟨top, rfl, rfl, h⟩

theorem attains_bind {program : Raising Y ε β} {next : β → Raising Y ε α}
    (h : attains fair program (fun value => attains fair (next value) ok error) error
      past view) :
    attains fair (program >>= next) ok error past view := by
  intro top world db hview
  rw [sure_bind]
  refine sure_mono (h top world db hview) ?_ fun _ _ herror => herror
  rintro value ⟨past', stack', world', db'⟩ ⟨top', hstack, hdb, hnext⟩
  cases hstack
  cases hdb
  exact hnext top' world' db' rfl

theorem attains_mono {body : Raising Y ε α}
    {ok' : α → List Y.Choice → Y.schema.Database → Prop}
    {error' : ε → List Y.Choice → Y.schema.Database → Prop}
    (h : attains fair body ok error past view)
    (hok : ∀ value past' view', ok value past' view' → ok' value past' view')
    (herror : ∀ raised past' view', error raised past' view' → error' raised past' view') :
    attains fair body ok' error' past view := by
  intro top world db hview
  refine sure_mono (h top world db hview) ?_ ?_
  · rintro value situation ⟨top', hstack, hdb, hvalue⟩
    exact ⟨top', hstack, hdb, hok _ _ _ hvalue⟩
  · rintro raised situation ⟨top', hstack, hdb, hraised⟩
    exact ⟨top', hstack, hdb, herror _ _ _ hraised⟩

/-- A read that some decision lets through. -/
theorem attains_query {query : Y.World → Y.Choice → Y.schema.Database → Option α}
    (hsome : ∀ world, ∃ world' choice value, Drifts world world' ∧
      fair past world' view choice ∧ query world' choice view = some value)
    (hevery : ∀ world choice value, fair past world view choice →
      query world choice view = some value → ok value (past ++ [choice]) view) :
    attains fair (Raising.execute (.select query) : Raising Y ε α) ok error past view := by
  rintro top world db rfl
  refine sure_query ?_ fun world' choice value _ hfair hvalue =>
    ⟨top, rfl, rfl, hevery world' choice value hfair hvalue⟩
  exact hsome world

theorem attains_select (live : fair.Live) {query : Y.schema.Database → α}
    (h : ∀ choice, ok (query view) (past ++ [choice]) view) :
    attains fair (Raising.select query : Raising Y ε α) ok error past view := by
  refine attains_query (fun world => ?_) fun world choice value _ hvalue => ?_
  · obtain ⟨world', choice, hdrifts, hfair⟩ := live past world view
    exact ⟨world', choice, _, hdrifts, hfair, rfl⟩
  · cases hvalue
    exact h choice

/-- The session sees its own writes. -/
theorem Session.view_extend (session : Session Y) (outcome : Outcome Y β)
    (db : Y.schema.Database) :
    (session.extend outcome).view db = Write.applyAll outcome.writes (session.view db) := by
  simp [Session.view, Session.extend]

theorem attains_insert (live : fair.Live) {table : Y.schema.Table} {row : Y.schema.Row table}
    {ok : List Y.schema.Key → List Y.Choice → Y.schema.Database → Prop}
    (hfree : ∀ key ∈ Y.schema.keys table row, Schema.holders table key view = [])
    (h : ∀ choice, ok [] (past ++ [choice]) ((Write.insert table row).apply view)) :
    attains fair (Raising.execute (.insert table row) : Raising Y ε _) ok error past view := by
  rintro top world db rfl
  have hexec (world' : Y.World) (choice : Y.Choice) :
      (Statement.insert table row).exec world' choice (unheld []) (top.view db) =
        some ⟨[], [.insert table row], (Y.schema.keys table row).map Lock.key⟩ := by
    have hnone : (Y.schema.keys table row).filter
        (fun key => !(Schema.holders table key (top.view db)).isEmpty) = [] :=
      List.filter_eq_nil_iff.mpr fun key hkey => by simp [hfree key hkey]
    simp only [Statement.exec, hnone]
    simp
  refine sure_execute ?_ fun world' choice outcome _ _ houtcome => ?_
  · obtain ⟨world', choice, hdrifts, hfair⟩ := live past world (top.view db)
    exact ⟨world', choice, _, hdrifts, hfair, hexec world' choice⟩
  · rw [hexec] at houtcome
    cases houtcome
    refine ⟨_, rfl, rfl, ?_⟩
    rw [Session.view_extend]
    exact h choice

theorem attains_insert_taken (live : fair.Live) {table : Y.schema.Table}
    {row : Y.schema.Row table}
    {ok : List Y.schema.Key → List Y.Choice → Y.schema.Database → Prop}
    {key : Y.schema.Key} (hkey : key ∈ Y.schema.keys table row)
    (hheld : Schema.holders table key view ≠ [])
    (h : ∀ choice taken, (∀ key, key ∈ taken ↔ key ∈ Y.schema.keys table row ∧
      Schema.holders table key view ≠ []) → ok taken (past ++ [choice]) view) :
    attains fair (Raising.execute (.insert table row) : Raising Y ε _) ok error past view := by
  rintro top world db rfl
  have htaken (other : Y.schema.Key) : other ∈ (Y.schema.keys table row).filter
      (fun key => !(Schema.holders table key (top.view db)).isEmpty) ↔
      other ∈ Y.schema.keys table row ∧ Schema.holders table other (top.view db) ≠ [] := by
    rw [List.mem_filter]
    simp
  have hexec (world' : Y.World) (choice : Y.Choice) :
      (Statement.insert table row).exec world' choice (unheld []) (top.view db) =
        some ⟨(Y.schema.keys table row).filter
          (fun key => !(Schema.holders table key (top.view db)).isEmpty), [], []⟩ := by
    have hsome : ((Y.schema.keys table row).filter
        (fun key => !(Schema.holders table key (top.view db)).isEmpty)).isEmpty = false := by
      rw [List.isEmpty_eq_false_iff]
      exact List.ne_nil_of_mem ((htaken key).mpr ⟨hkey, hheld⟩)
    simp only [Statement.exec, hsome]
    simp
  refine sure_execute ?_ fun world' choice outcome _ _ houtcome => ?_
  · obtain ⟨world', choice, hdrifts, hfair⟩ := live past world (top.view db)
    exact ⟨world', choice, _, hdrifts, hfair, hexec world' choice⟩
  · rw [hexec] at houtcome
    cases houtcome
    refine ⟨_, rfl, rfl, ?_⟩
    rw [Session.view_extend]
    exact h choice _ htaken

/-- An update of a row that is there, keeping its keys, is done. -/
theorem attains_update (live : fair.Live) {table : Y.schema.Table} {key : Y.schema.Key}
    {change : Y.schema.Row table → Y.schema.Row table}
    {immutable : ∀ row, Y.schema.identity table (change row) = Y.schema.identity table row}
    {ok : Updated → List Y.Choice → Y.schema.Database → Prop} {row : Y.schema.Row table}
    (hhead : (Schema.holders table key view).head? = some row)
    (hkeys : Y.schema.keys table (change row) = Y.schema.keys table row)
    (h : ∀ choice, ok .done (past ++ [choice])
      ((Write.update table key change immutable).apply view)) :
    attains fair (Raising.execute (.update table key change immutable) : Raising Y ε _) ok error
      past view := by
  rintro top world db rfl
  have hexec (world' : Y.World) (choice : Y.Choice) :
      (Statement.update table key change immutable).exec world' choice (unheld [])
        (top.view db) = some ⟨.done, [.update table key change immutable],
          (Y.schema.keys table row ++ Y.schema.keys table row).map Lock.key⟩ := by
    simp only [Statement.exec, hhead, hkeys]
    rw [if_pos (by simp), if_pos (List.all_eq_true.mpr fun k hk => by simp [hk])]
  refine sure_execute ?_ fun world' choice outcome _ _ houtcome => ?_
  · obtain ⟨world', choice, hdrifts, hfair⟩ := live past world (top.view db)
    exact ⟨world', choice, _, hdrifts, hfair, hexec world' choice⟩
  · rw [hexec] at houtcome
    cases houtcome
    refine ⟨_, rfl, rfl, ?_⟩
    rw [Session.view_extend]
    exact h choice

theorem attains_mark {label : Y.Mark}
    {ok : Unit → List Y.Choice → Y.schema.Database → Prop}
    (h : ∀ choice, ok () (past ++ [choice]) view) :
    attains fair (Raising.mark label : Raising Y ε Unit) ok error past view := by
  rintro top world db rfl
  exact sure_mark fun world' choice _ _ => ⟨_, rfl, rfl, h choice⟩

theorem attains_call {request : Y.Request}
    {ok : Y.Reply request → List Y.Choice → Y.schema.Database → Prop}
    (hsome : ∀ world, ∃ world' choice answer, Drifts world world' ∧
      fair past world' view choice ∧ Y.respond 0 request choice world' = some answer)
    (hevery : ∀ world choice answer, fair past world view choice →
      Y.respond 0 request choice world = some answer → ok answer.1 (past ++ [choice]) view) :
    attains fair (Raising.call request : Raising Y ε _) ok error past view := by
  rintro top world db rfl
  refine sure_call ?_ fun world' choice answer _ hfair hanswer =>
    ⟨top, rfl, rfl, hevery world' choice answer hfair hanswer⟩
  exact hsome world

/-- What the body of a lone worker's only session can be brought to end with. -/
def mayAttain (fair : Assumption Y) (body : Raising Y ε α)
    (ok : α → List Y.Choice → Y.schema.Database → Prop)
    (error : ε → List Y.Choice → Y.schema.Database → Prop)
    (past : List Y.Choice) (view : Y.schema.Database) : Prop :=
  ∀ (top : Session Y) world db, top.view db = view →
    maybe fair body
      (fun value situation => ∃ top' : Session Y, situation.stack = [top'] ∧
        situation.db = db ∧ ok value situation.past (top'.view db))
      (fun raised situation => ∃ top' : Session Y, situation.stack = [top'] ∧
        situation.db = db ∧ error raised situation.past (top'.view db))
      ⟨past, [top], world, db⟩

theorem attains.mayAttain (live : fair.Live) {body : Raising Y ε α}
    (h : attains fair body ok error past view) : mayAttain fair body ok error past view :=
  fun top world db hview => (h top world db hview).maybe live

theorem mayAttain_bind {program : Raising Y ε β} {next : β → Raising Y ε α}
    (h : mayAttain fair program (fun value => mayAttain fair (next value) ok error) error
      past view) :
    mayAttain fair (program >>= next) ok error past view := by
  intro top world db hview
  rw [maybe_bind]
  refine maybe_mono (h top world db hview) ?_ fun _ _ herror => herror
  rintro value ⟨past', stack', world', db'⟩ ⟨top', hstack, hdb, hnext⟩
  cases hstack
  cases hdb
  exact hnext top' world' db' rfl

/-- A read that some decision lets go on well. -/
theorem mayAttain_query {query : Y.World → Y.Choice → Y.schema.Database → Option α}
    (h : ∀ world, ∃ world' choice value, Drifts world world' ∧ fair past world' view choice ∧
      query world' choice view = some value ∧ ok value (past ++ [choice]) view) :
    mayAttain fair (Raising.execute (.select query) : Raising Y ε α) ok error past view := by
  rintro top world db rfl
  obtain ⟨world', choice, value, hdrifts, hfair, hvalue, hok⟩ := h world
  refine ⟨top, [], rfl, world', choice, ⟨value, [], []⟩, hdrifts, hfair,
    Option.map_eq_some_iff.mpr ⟨value, hvalue, rfl⟩, ?_⟩
  rw [Session.extend_nil]
  exact ⟨top, rfl, rfl, hok⟩

/-- Not both can be attained when no end is as both say. -/
theorem attains.exclusive [Nonempty Y.World] (live : fair.Live) (name : Y.Name)
    {body : Raising Y ε α} {ok' : α → List Y.Choice → Y.schema.Database → Prop}
    {error' : ε → List Y.Choice → Y.schema.Database → Prop}
    (h : attains fair body ok error past view) (h' : attains fair body ok' error' past view)
    (hok : ∀ value past' view', ok value past' view' → ¬ ok' value past' view')
    (herror : ∀ raised past' view', error raised past' view' → ¬ error' raised past' view') :
    False := by
  obtain ⟨world⟩ := ‹Nonempty Y.World›
  have first := h (Session.fresh name) world view rfl
  have second := (h' (Session.fresh name) world view rfl).maybe live
  obtain ⟨result, situation, hfirst, hsecond⟩ := surely.meets first second
  cases result with
  | ok value =>
      obtain ⟨top, hstack, hdb, hvalue⟩ := hfirst
      obtain ⟨top', hstack', hdb', hvalue'⟩ := hsecond
      rw [hstack] at hstack'
      cases hstack'
      exact hok _ _ _ hvalue hvalue'
  | error raised =>
      obtain ⟨top, hstack, hdb, hraised⟩ := hfirst
      obtain ⟨top', hstack', hdb', hraised'⟩ := hsecond
      rw [hstack] at hstack'
      cases hstack'
      exact herror _ _ _ hraised hraised'

/-- A body that spares a table ends with its rows as they were. -/
theorem attains.spared {table : Y.schema.Table} {body : Raising Y ε α}
    (confined : Raising.Confined (Sparing table) body)
    (h : attains fair body ok error past view) :
    attains fair body
      (fun value past' view' => ok value past' view' ∧
        Y.schema.rows table view' = Y.schema.rows table view) error past view := by
  rintro top world db rfl
  refine surely_mono (surely.spared confined rfl (h top world db rfl)) ?_
  rintro result situation ⟨hresult, top', hstack, spared⟩
  cases result with
  | ok value =>
      obtain ⟨top'', hstack', hdb, hvalue⟩ := hresult
      rw [hstack] at hstack'
      cases hstack'
      exact ⟨top', hstack, hdb, hvalue, spared.rows db⟩
  | error raised => exact hresult

/-- A session begun by an idle worker can end as its body can. -/
theorem maybe_session (live : fair.Live) {name : Y.Name} {body : Raising Y ε α}
    {done : α → Situation Y → Prop} {failed : ε → Situation Y → Prop} {world : Y.World}
    {db : Y.schema.Database}
    (h : ∀ choice, mayAttain fair body
      (fun value past' view' => ∀ world' choice',
        done value ⟨past' ++ [choice'], [], world', view'⟩)
      (fun raised past' _ => ∀ world' choice', failed raised ⟨past' ++ [choice'], [], world', db⟩)
      (past ++ [choice]) db) :
    maybe fair (Raising.withSession name body) done failed ⟨past, [], world, db⟩ := by
  refine maybe_withSession live fun begun choice _ => ?_
  refine maybe_mono (h choice (Session.fresh name) begun db rfl) ?_ ?_
  · rintro value ⟨past', stack', world', db'⟩ ⟨top', hstack, hdb, hok⟩
    cases hdb
    exact ⟨top', [], hstack, hok⟩
  · rintro raised ⟨past', stack', world', db'⟩ ⟨top', hstack, hdb, herror⟩
    cases hdb
    exact ⟨top', [], hstack, herror⟩

/-- A session begun by an idle worker commits what its body sees, or leaves all as it was. -/
theorem sure_session {name : Y.Name} {body : Raising Y ε α} {done : α → Situation Y → Prop}
    {failed : ε → Situation Y → Prop} {world : Y.World} {db : Y.schema.Database}
    (h : ∀ choice, attains fair body
      (fun value past' view' => ∀ world' choice',
        done value ⟨past' ++ [choice'], [], world', view'⟩)
      (fun raised past' _ => ∀ world' choice', failed raised ⟨past' ++ [choice'], [], world', db⟩)
      (past ++ [choice]) db) :
    sure fair (Raising.withSession name body) done failed ⟨past, [], world, db⟩ := by
  refine sure_withSession fun begun choice _ _ => ?_
  refine sure_mono (h choice (Session.fresh name) begun db rfl) ?_ ?_
  · rintro value ⟨past', stack', world', db'⟩ ⟨top', hstack, hdb, hok⟩
    cases hdb
    exact ⟨top', [], hstack, hok⟩
  · rintro raised ⟨past', stack', world', db'⟩ ⟨top', hstack, hdb, herror⟩
    cases hdb
    exact ⟨top', [], hstack, herror⟩

end Bodies

end PayzenoLedger.Library
