import PayzenoLedger.Library.Histories
import PayzenoLedger.Library.Writes

/-!
# A system among others

Two groups of tables in one database, and a program that was written for one of them run
beside programs of the other.  Whatever such a program does, it writes no table of the other
group.  `Leaves` says what a body can have written when it returns.
-/

set_option autoImplicit false

namespace PayzenoLedger.Library

open Schema Write

/-- Two groups of tables in one database. -/
@[reducible]
def Schema.beside (S T : Schema) : Schema where
  Database := S.Database × T.Database
  Table := S.Table ⊕ T.Table
  Row := Sum.elim S.Row T.Row
  Key := S.Key ⊕ T.Key
  Identity := Sum.elim S.Identity T.Identity
  decKey := inferInstance
  decTable := inferInstance
  rows
    | .inl table, db => S.rows table db.1
    | .inr table, db => T.rows table db.2
  setRows
    | .inl table, rows, db => (S.setRows table rows db.1, db.2)
    | .inr table, rows, db => (db.1, T.setRows table rows db.2)
  keys
    | .inl table, row => (S.keys table row).map .inl
    | .inr table, row => (T.keys table row).map .inr
  identity
    | .inl table, row => S.identity table row
    | .inr table, row => T.identity table row
  rows_setRows_self
    | .inl table, rows, db => S.rows_setRows_self table rows db.1
    | .inr table, rows, db => T.rows_setRows_self table rows db.2
  rows_setRows_of_ne
    | .inl table, .inl other, rows, db, h =>
        S.rows_setRows_of_ne table other rows db.1 fun heq => h (congrArg _ heq)
    | .inr table, .inr other, rows, db, h =>
        T.rows_setRows_of_ne table other rows db.2 fun heq => h (congrArg _ heq)
    | .inl _, .inr _, _, _, _ | .inr _, .inl _, _, _, _ => rfl

/-- What a system is put among: tables, sessions, requests and a world of their own. -/
structure Annex where
  schema : Schema
  Name : Type
  Choice : Type
  World : Type
  Request : Type
  Reply : Request → Type
  respond : (worker : Nat) → (request : Request) → Choice → World →
    Option (Reply request × World)
  drift : Choice → World → Option World

/-- The system and its annex. -/
@[reducible]
def System.among (Y : System) (E : Annex) : System where
  schema := E.schema.beside Y.schema
  Advisory := Y.Advisory
  Mark := Y.Mark
  Name := E.Name ⊕ Y.Name
  Choice := E.Choice ⊕ Y.Choice
  World := E.World × Y.World
  Request := E.Request ⊕ Y.Request
  Reply := Sum.elim E.Reply Y.Reply
  decAdvisory := Y.decAdvisory
  respond
    | worker, .inl request, .inl choice, world =>
        (E.respond worker request choice world.1).map fun answer =>
          (answer.1, answer.2, world.2)
    | worker, .inr request, .inr choice, world =>
        (Y.respond worker request choice world.2).map fun answer =>
          (answer.1, world.1, answer.2)
    | _, .inl _, .inr _, _ | _, .inr _, .inl _, _ => none
  drift
    | .inl choice, world => (E.drift choice world.1).map fun next => (next, world.2)
    | .inr choice, world => (Y.drift choice world.2).map fun next => (world.1, next)

section Among

variable {Y : System} (E : Annex) {ε α β : Type}

/-- A statement among the others, and what the program does with its result. -/
def Statement.among {β : Type} (statement : Statement Y β)
    (next : β → Program (Y.among E) α) : Program (Y.among E) α :=
  match statement, next with
  | .select query, next =>
      .run (.select fun world choice db => match choice with
        | .inr choice => query world.2 choice db.2
        | .inl _ => none) next
  | .selectForUpdate table key condition skipLocked, next =>
      .run (.selectForUpdate (Y := Y.among E) (.inr table) (.inr key) condition skipLocked) next
  | .insert table row, next =>
      .run (.insert (Y := Y.among E) (.inr table) row) fun taken =>
        next (taken.filterMap Sum.getRight?)
  | .update table key change immutable, next =>
      .run (.update (Y := Y.among E) (.inr table) (.inr key) change immutable) next
  | .acquire advisory, next => .run (.acquire (Y := Y.among E) advisory) next
  | .tryAcquire advisory, next => .run (.tryAcquire (Y := Y.among E) advisory) next

/-- A program of the system among the others. -/
def Program.among : Program Y α → Program (Y.among E) α
  | .ret value => .ret value
  | .run statement next => statement.among E fun value => (next value).among
  | .enter name next => .enter (.inr name) next.among
  | .leave commit next => .leave commit next.among
  | .call request next => .call (.inr request) fun reply => (next reply).among
  | .mark label next => .mark label next.among
  | .halt => .halt

/-- A program that may raise among the others. -/
def Raising.among (program : Raising Y ε α) : Raising (Y.among E) ε α :=
  ExceptT.mk (Program.among E program.run)

/-- The write is to a table of the system, not of the annex. -/
def Write.Inner {E : Annex} (write : Write (Y.among E).schema) : Prop :=
  ∃ table, write.table = Sum.inr table

variable {E}

/-- The rows of the annex are none of its business. -/
theorem Write.Inner.rows {writes : List (Write (Y.among E).schema)}
    (inner : ∀ write ∈ writes, Inner write) (table : E.schema.Table)
    (db : (Y.among E).schema.Database) :
    (Y.among E).schema.rows (.inl table) (applyAll writes db) =
      (Y.among E).schema.rows (.inl table) db := by
  refine rows_applyAll_of_ne writes (Sum.inl table) (fun write hwrite => ?_) db
  obtain ⟨other, hother⟩ := inner write hwrite
  rw [hother]
  exact Sum.inl_ne_inr

theorem Write.Inner.added {writes : List (Write (Y.among E).schema)}
    (inner : ∀ write ∈ writes, Inner write) (table : E.schema.Table) :
    Write.added (S := (Y.among E).schema) (.inl table) writes = [] := by
  induction writes with
  | nil => rfl
  | cons write writes ih =>
      have hrest := ih fun other hother => inner other (List.mem_cons_of_mem _ hother)
      obtain ⟨other, hother⟩ := inner write List.mem_cons_self
      cases write with
      | insert place row =>
          change place = .inr other at hother
          subst hother
          simp only [Write.added, hrest, reduceCtorEq, dif_neg, not_false_eq_true]
          rfl
      | update place key change immutable => exact hrest

theorem Program.Stays.among {program : Program Y α} (stays : program.Stays) :
    (program.among E).Inward Write.Inner := by
  induction program with
  | ret value => trivial
  | halt => trivial
  | run statement rest ih =>
      cases statement <;> refine ⟨?_, fun value => ih _ (stays _)⟩ <;>
        first | trivial | exact ⟨_, rfl⟩
  | enter name rest ih => exact stays
  | leave commit rest ih => exact stays
  | call request rest ih => exact stays
  | mark label rest ih => exact ih stays

theorem Raising.Stays.among {program : Raising Y ε α} (stays : program.Stays) :
    (program.among E).Inward Write.Inner :=
  Program.Stays.among stays

end Among

/-! ## What a body leaves -/

section Leaves

variable {Y : System} {ε α β : Type}

/-- The body can have made these writes when it returns this value. -/
def Program.Leaves : Program Y α → List (Write Y.schema) → α → Prop
  | .ret value, writes, result => writes = [] ∧ value = result
  | .run statement next, writes, result => ∃ world choice free view outcome rest,
      statement.exec world choice free view = some outcome ∧
        writes = outcome.writes ++ rest ∧ (next outcome.value).Leaves rest result
  | .mark _ next, writes, result => next.Leaves writes result
  | .enter _ _, _, _ | .leave _ _, _, _ | .call _ _, _, _ | .halt, _, _ => False

/-- Marks are ghost notes, nothing else. -/
def Discipline.Unmarked (D : Discipline Y) : Prop :=
  ∀ label, D.required label = none ∧ ∀ db, D.meaning label db

variable {D : Discipline Y} {worker : Nat} {top : Session Y} {rest : List (Session Y)}
  {shared : Shared Y}

theorem Discipline.Unmarked.allows (unmarked : D.Unmarked) (label : Y.Mark)
    (stack rest : List (Session Y)) (db : Y.schema.Database) : D.Allows label stack rest db := by
  obtain ⟨hnone, hmeans⟩ := unmarked label
  refine ⟨fun lock hlock => ?_, fun lock hlock => ?_, hmeans db⟩
  · rw [hnone] at hlock
    cases hlock
  · rw [hnone] at hlock
    cases hlock

theorem Program.Inward.leaves_writes {allowed : Write Y.schema → Prop} {program : Program Y α}
    (inward : program.Inward allowed) {writes : List (Write Y.schema)} {value : α}
    (leaves : program.Leaves writes value) : ∀ write ∈ writes, allowed write := by
  induction program generalizing writes with
  | ret value =>
      obtain ⟨rfl, -⟩ := leaves
      nofun
  | halt => cases leaves
  | run statement next ih =>
      obtain ⟨world, choice, free, view, outcome, rest, hexec, rfl, hrest⟩ := leaves
      intro write hwrite
      rcases List.mem_append.mp hwrite with hnow | hlater
      · exact inward.1.writes hexec write hnow
      · exact ih _ (inward.2 _) hrest write hlater
  | enter name next ih => cases leaves
  | leave commit next ih => cases leaves
  | call request next ih => cases leaves
  | mark label next ih => exact ih inward leaves

/-- What a body adds to its session is what it leaves. -/
theorem wp_leaves {allowed : Write Y.schema → Prop} {program : Program Y α}
    (inward : program.Inward allowed) (unmarked : D.Unmarked)
    (start : Progress D worker rest top shared top shared)
    {post : α → List (Session Y) → Shared Y → Prop}
    (h : ∀ value top' shared' writes, Onward D worker rest top shared top' shared' →
      top'.writes = top.writes ++ writes → program.Leaves writes value →
      post value (top' :: rest) shared') :
    wp D worker program post (top :: rest) shared := by
  induction program generalizing top shared with
  | ret value => exact h value top shared [] start.onward (List.append_nil _).symm ⟨rfl, rfl⟩
  | halt => trivial
  | run statement next ih =>
      intro shared₁ rely good top₁ rest₁ hstack foot choice free outcome hexec
      obtain ⟨rfl, rfl⟩ := List.cons.inj hstack
      have progress : Progress D worker rest top shared (top.extend outcome) shared₁ := by
        refine ⟨rely, good, ?_, rfl, rfl, fun lock hlock => List.mem_append_left _ hlock,
          fun write hwrite => List.mem_append_left _ hwrite⟩
        refine foot.append (fun key hkey => List.mem_append_left _ hkey) good.1 ?_
        exact statement.exec_footprint (foot.unique _ (Agree.refl _ _) good.1) hexec
          fun key hkey => List.mem_append_right _ hkey
      refine ih outcome.value (inward.2 _) progress.here
        fun value top' shared' writes onward hwrites leaves => ?_
      refine h value top' shared' (outcome.writes ++ writes) (progress.onward.trans onward) ?_
        ⟨_, _, _, _, outcome, writes, hexec, rfl, leaves⟩
      rw [hwrites, ← List.append_assoc]
      rfl
  | enter name next ih => cases inward
  | leave commit next ih => cases inward
  | call request next ih => cases inward
  | mark label next ih =>
      intro shared₁ rely good top₁ rest₁ hstack
      obtain ⟨rfl, rfl⟩ := List.cons.inj hstack
      refine ⟨unmarked.allows label _ _ _, ?_⟩
      have onward := (Progress.of_rely start.good start.foot rely).onward.mark label
      refine ih inward onward.here fun value top' shared' writes onward' hwrites leaves => ?_
      exact h value top' shared' writes (onward.trans onward') hwrites leaves

end Leaves

/-! ## Whole programs among the others -/

/-- A session that a program of the system opened. -/
def Session.Inner {Y : System} {E : Annex} (session : Session (Y.among E)) : Prop :=
  (∃ name, session.name = Sum.inr name) ∧ ∀ write ∈ session.writes, Write.Inner write

/-- A discipline that every program of the system keeps to. -/
structure Discipline.Hosts {Y : System} {E : Annex} (D : Discipline (Y.among E)) : Prop where
  unmarked : D.Unmarked
  commit : ∀ {worker stack shared top}, D.Good shared → top.Inner →
    D.guarantee worker (Held stack) shared (shared.commit worker top) ∧
      D.invariant (shared.commit worker top)
  call : ∀ {worker stack shared choice request reply world}, D.Good shared →
    (Y.among E).respond worker (.inr request) choice shared.world = some (reply, world) →
    D.guarantee worker (Held stack) shared (shared.answer worker world (.inr request) reply) ∧
      D.invariant (shared.answer worker world (.inr request) reply)

/-- Any program of the system may run beside the others. -/
theorem wp_among {Y : System} {E : Annex} {α : Type} {D : Discipline (Y.among E)}
    (hosts : D.Hosts) {worker : Nat} (program : Program Y α)
    {stack : List (Session (Y.among E))} {shared : Shared (Y.among E)}
    (inner : ∀ session ∈ stack, session.Inner) :
    wp D worker (program.among E) (fun _ _ _ => True) stack shared := by
  induction program generalizing stack shared with
  | ret value => trivial
  | halt => trivial
  | run statement next ih =>
      have hrun {β : Type} {statement : Statement (Y.among E) β} {next : β → Program (Y.among E) α}
          (confined : statement.Confined Write.Inner)
          (hnext : ∀ value {stack : List (Session (Y.among E))} {shared : Shared (Y.among E)},
            (∀ session ∈ stack, session.Inner) →
            wp D worker (next value) (fun _ _ _ => True) stack shared) :
          wp D worker (.run statement next) (fun _ _ _ => True) stack shared := by
        intro shared₁ _ _ top rest hstack _ choice free outcome hexec
        subst hstack
        refine hnext _ fun session hsession => ?_
        rcases List.mem_cons.mp hsession with rfl | hbelow
        · refine ⟨(inner top List.mem_cons_self).1, fun write hwrite => ?_⟩
          rcases List.mem_append.mp hwrite with hold | hnew
          · exact (inner top List.mem_cons_self).2 write hold
          · exact confined.writes hexec write hnew
        · exact inner session (List.mem_cons_of_mem _ hbelow)
      cases statement <;> refine hrun ?_ fun value => ih _ <;> first | trivial | exact ⟨_, rfl⟩
  | enter name next ih =>
      intro shared₁ _ _ _
      refine ih fun session hsession => ?_
      rcases List.mem_cons.mp hsession with rfl | hbelow
      · exact ⟨⟨name, rfl⟩, nofun⟩
      · exact inner session hbelow
  | leave commit next ih =>
      have hrest {top : Session (Y.among E)} {rest : List (Session (Y.among E))}
          (hstack : stack = top :: rest) : ∀ session ∈ rest, session.Inner := by
        subst hstack
        exact fun session hsession => inner session (List.mem_cons_of_mem _ hsession)
      cases commit with
      | true =>
          intro shared₁ _ good top rest hstack _ _
          have htop : top.Inner := by
            subst hstack
            exact inner top List.mem_cons_self
          have hcommit : D.guarantee worker (Held stack) shared₁ (shared₁.commit worker top) ∧
            D.invariant (shared₁.commit worker top) := hosts.commit good htop
          exact ⟨hcommit.1, hcommit.2, ih (hrest hstack)⟩
      | false =>
          intro shared₁ _ _ top rest hstack _
          exact ih (hrest hstack)
  | call request next ih =>
      intro shared₁ _ good choice reply world hreply _
      have hanswer : D.guarantee worker (Held stack) shared₁
          (shared₁.answer worker world (.inr request) reply) ∧
          D.invariant (shared₁.answer worker world (.inr request) reply) := hosts.call good hreply
      exact ⟨hanswer.1, hanswer.2, ih reply inner⟩
  | mark label next ih =>
      intro shared₁ _ _ top rest hstack
      subst hstack
      refine ⟨hosts.unmarked.allows label _ _ _, ih fun session hsession => ?_⟩
      rcases List.mem_cons.mp hsession with rfl | hbelow
      · exact inner top List.mem_cons_self
      · exact inner session (List.mem_cons_of_mem _ hbelow)

end PayzenoLedger.Library
