import PayzenoLedger.Library.Transaction

/-!
# What the body of a transaction may write

`Confined` bounds the writes of a body, however its statements end and whatever it
is answered.  It is read off the text of the body alone.
-/

set_option autoImplicit false

namespace PayzenoLedger.Library

variable {Y : System} {ε α β : Type}

/-- The writes that the statement may add to its session are allowed. -/
def Statement.Confined (allowed : Write Y.schema → Prop) : Statement Y β → Prop
  | .insert table row => allowed (.insert table row)
  | .update table key change immutable => allowed (.update table key change immutable)
  | .select _ | .selectForUpdate .. | .acquire _ | .tryAcquire _ => True

theorem Statement.Confined.mono {allowed allowed' : Write Y.schema → Prop}
    {statement : Statement Y β} (confined : statement.Confined allowed)
    (h : ∀ write, allowed write → allowed' write) : statement.Confined allowed' := by
  cases statement with
  | insert table row => exact h _ confined
  | update table key change immutable => exact h _ confined
  | _ => trivial

/-- The writes of a statement are among those that it may add. -/
theorem Statement.Confined.writes {allowed : Write Y.schema → Prop}
    {statement : Statement Y β} (confined : statement.Confined allowed) {world : Y.World}
    {choice : Y.Choice} {free : Lock Y → Bool} {view : Y.schema.Database}
    {outcome : Outcome Y β} (hexec : statement.exec world choice free view = some outcome) :
    ∀ write ∈ outcome.writes, allowed write := by
  cases statement with
  | select query =>
      obtain ⟨value, -, rfl⟩ := Option.map_eq_some_iff.mp hexec
      simp
  | selectForUpdate other key condition skipLocked =>
      simp only [Statement.exec] at hexec
      split at hexec
      · cases hexec
        simp
      · split at hexec
        · cases hexec
          simp
        · split at hexec
          · cases hexec
            simp
          · cases hexec
  | insert other row =>
      simp only [Statement.exec] at hexec
      split at hexec
      · split at hexec
        · cases hexec
          intro write hwrite
          rw [List.mem_singleton.mp hwrite]
          exact confined
        · cases hexec
      · cases hexec
        simp
  | update other key change immutable =>
      simp only [Statement.exec] at hexec
      split at hexec
      · cases hexec
        simp
      · split at hexec
        · split at hexec
          · cases hexec
            intro write hwrite
            rw [List.mem_singleton.mp hwrite]
            exact confined
          · cases hexec
            simp
        · cases hexec
  | acquire advisory =>
      simp only [Statement.exec] at hexec
      split at hexec
      · cases hexec
        simp
      · cases hexec
  | tryAcquire advisory =>
      simp only [Statement.exec] at hexec
      split at hexec <;> cases hexec <;> simp

/-- The body of a transaction makes only allowed writes, and opens no other session. -/
def Program.Confined (allowed : Write Y.schema → Prop) : Program Y α → Prop
  | .ret _ | .halt => True
  | .run statement next => statement.Confined allowed ∧ ∀ value, (next value).Confined allowed
  | .enter _ _ | .leave _ _ => False
  | .call _ next => ∀ reply, (next reply).Confined allowed
  | .mark _ next => next.Confined allowed

theorem Program.Confined.mono {allowed allowed' : Write Y.schema → Prop}
    {program : Program Y α} (confined : program.Confined allowed)
    (h : ∀ write, allowed write → allowed' write) : program.Confined allowed' := by
  induction program with
  | ret value => trivial
  | halt => trivial
  | run statement rest ih => exact ⟨confined.1.mono h, fun value => ih value (confined.2 value)⟩
  | enter name rest _ => exact confined.elim
  | leave commit rest _ => exact confined.elim
  | call request rest ih => exact fun reply => ih reply (confined reply)
  | mark label rest ih => exact ih confined

theorem Program.Confined.bind {allowed : Write Y.schema → Prop} {program : Program Y α}
    {next : α → Program Y β} (confined : program.Confined allowed)
    (hnext : ∀ value, (next value).Confined allowed) : (program.bind next).Confined allowed := by
  induction program with
  | ret value => exact hnext value
  | halt => trivial
  | run statement rest ih => exact ⟨confined.1, fun value => ih value (confined.2 value)⟩
  | enter name rest _ => exact confined.elim
  | leave commit rest _ => exact confined.elim
  | call request rest ih => exact fun reply => ih reply (confined reply)
  | mark label rest ih => exact ih confined

namespace Raising

def Confined (allowed : Write Y.schema → Prop) (body : Raising Y ε α) : Prop :=
  Program.Confined allowed body.run

variable {allowed allowed' : Write Y.schema → Prop}

theorem Confined.execute {statement : Statement Y α} (h : statement.Confined allowed) :
    Confined allowed (Raising.execute statement : Raising Y ε α) :=
  ⟨h, fun _ => trivial⟩

theorem Confined.call (request : Y.Request) :
    Confined allowed (Raising.call request : Raising Y ε _) :=
  fun _ => trivial

theorem Confined.mark (label : Y.Mark) :
    Confined allowed (Raising.mark label : Raising Y ε Unit) :=
  trivial

theorem Confined.mono {body : Raising Y ε α} (confined : Confined allowed body)
    (h : ∀ write, allowed write → allowed' write) : Confined allowed' body :=
  Program.Confined.mono confined h

theorem Confined.bind {body : Raising Y ε α} {next : α → Raising Y ε β}
    (confined : Confined allowed body) (hnext : ∀ value, Confined allowed (next value)) :
    Confined allowed (body >>= next) := by
  refine Program.Confined.bind confined fun result => ?_
  cases result with
  | ok value => exact hnext value
  | error raised => trivial

end Raising

/-! ## Bodies that call nobody -/

/-- The body of a transaction makes only allowed writes and no call. -/
def Program.Inward (allowed : Write Y.schema → Prop) : Program Y α → Prop
  | .ret _ | .halt => True
  | .run statement next => statement.Confined allowed ∧ ∀ value, (next value).Inward allowed
  | .enter _ _ | .leave _ _ | .call _ _ => False
  | .mark _ next => next.Inward allowed

theorem Program.Inward.confined {allowed : Write Y.schema → Prop} {program : Program Y α}
    (inward : program.Inward allowed) : program.Confined allowed := by
  induction program with
  | ret value => trivial
  | halt => trivial
  | run statement rest ih => exact ⟨inward.1, fun value => ih value (inward.2 value)⟩
  | enter name rest _ => exact inward.elim
  | leave commit rest _ => exact inward.elim
  | call request rest _ => exact inward.elim
  | mark label rest ih => exact ih inward

theorem Program.Inward.bind {allowed : Write Y.schema → Prop} {program : Program Y α}
    {next : α → Program Y β} (inward : program.Inward allowed)
    (hnext : ∀ value, (next value).Inward allowed) : (program.bind next).Inward allowed := by
  induction program with
  | ret value => exact hnext value
  | halt => trivial
  | run statement rest ih => exact ⟨inward.1, fun value => ih value (inward.2 value)⟩
  | enter name rest _ => exact inward.elim
  | leave commit rest _ => exact inward.elim
  | call request rest _ => exact inward.elim
  | mark label rest ih => exact ih inward

namespace Raising

def Inward (allowed : Write Y.schema → Prop) (body : Raising Y ε α) : Prop :=
  Program.Inward allowed body.run

variable {allowed allowed' : Write Y.schema → Prop}

theorem Inward.confined {body : Raising Y ε α} (inward : Inward allowed body) :
    Confined allowed body :=
  Program.Inward.confined inward

theorem Inward.execute {statement : Statement Y α} (h : statement.Confined allowed) :
    Inward allowed (Raising.execute statement : Raising Y ε α) :=
  ⟨h, fun _ => trivial⟩

theorem Inward.mark (label : Y.Mark) : Inward allowed (Raising.mark label : Raising Y ε Unit) :=
  trivial

theorem Inward.bind {body : Raising Y ε α} {next : α → Raising Y ε β}
    (inward : Inward allowed body) (hnext : ∀ value, Inward allowed (next value)) :
    Inward allowed (body >>= next) := by
  refine Program.Inward.bind inward fun result => ?_
  cases result with
  | ok value => exact hnext value
  | error raised => trivial

/-- A property of programs that follows from their sessions: it is closed under the ways
of composing them, and holds of what makes routine writes only and no call. -/
structure Composes (routine : Write Y.schema → Prop)
    (holds : {α : Type} → Raising Y ε α → Prop) : Prop where
  inward : ∀ {α : Type} {body : Raising Y ε α}, Inward routine body → holds body
  bind : ∀ {α β : Type} {program : Raising Y ε α} {next : α → Raising Y ε β},
    holds program → (∀ value, holds (next value)) → holds (program >>= next)
  recover : ∀ {α : Type} {body : Raising Y ε α} {handler : ε → Raising Y ε α},
    holds body → (∀ raised, holds (handler raised)) → holds (recover body handler)
  session : ∀ {α : Type} {name : Y.Name} {body : Raising Y ε α},
    holds body → holds (withSession name body)

end Raising

end PayzenoLedger.Library
