import PayzenoLedger.Library.RelyGuarantee
import PayzenoLedger.Library.Writes

/-!
# Writes that never become durable

A session may make a write that it is sure to roll back.  `Program.Withholds` follows
the sessions that a program has open and the flags of those that may carry a write
that is not allowed; such a session must not commit.  In every run of such programs,
however they are interleaved and wherever they crash, only allowed writes reach the
database.
-/

set_option autoImplicit false

namespace PayzenoLedger.Library

variable {Y : System} {ε α β : Type}

/-- The program commits no session that may carry a write that is not allowed.  The flags
are those of the open sessions, the innermost first. -/
def Program.Withholds (allowed : Write Y.schema → Prop) : Program Y α →
    (α → List Prop → Prop) → List Prop → Prop
  | .ret value, post, flags => post value flags
  | .halt, _, _ => True
  | .run statement next, post, flags => ∀ flag rest, flags = flag :: rest →
      ∀ value, (next value).Withholds allowed post
        ((flag ∨ ¬ statement.Confined allowed) :: rest)
  | .enter _ next, post, flags => next.Withholds allowed post (False :: flags)
  | .leave true next, post, flags => ∀ flag rest, flags = flag :: rest →
      ¬ flag ∧ next.Withholds allowed post rest
  | .leave false next, post, flags => ∀ flag rest, flags = flag :: rest →
      next.Withholds allowed post rest
  | .call _ next, post, flags => ∀ reply, (next reply).Withholds allowed post flags
  | .mark _ next, post, flags => next.Withholds allowed post flags

theorem Program.Withholds.bind {allowed : Write Y.schema → Prop} {program : Program Y α}
    {next : α → Program Y β} {post : β → List Prop → Prop} {flags : List Prop}
    (withholds : program.Withholds allowed
      (fun value flags' => (next value).Withholds allowed post flags') flags) :
    (program.bind next).Withholds allowed post flags := by
  induction program generalizing flags with
  | ret value => exact withholds
  | halt => trivial
  | run statement rest ih =>
      exact fun flag below hflags value => ih value (withholds flag below hflags value)
  | enter name rest ih => exact ih withholds
  | leave commit rest ih =>
      cases commit with
      | true =>
          intro flag below hflags
          obtain ⟨hflag, hrest⟩ := withholds flag below hflags
          exact ⟨hflag, ih hrest⟩
      | false => exact fun flag below hflags => ih (withholds flag below hflags)
  | call request rest ih => exact fun reply => ih reply (withholds reply)
  | mark label rest ih => exact ih withholds

theorem Program.Withholds.mono {allowed : Write Y.schema → Prop} {program : Program Y α}
    {post post' : α → List Prop → Prop} {flags : List Prop}
    (withholds : program.Withholds allowed post flags)
    (h : ∀ value flags', post value flags' → post' value flags') :
    program.Withholds allowed post' flags := by
  induction program generalizing flags with
  | ret value => exact h value flags withholds
  | halt => trivial
  | run statement rest ih =>
      exact fun flag below hflags value => ih value (withholds flag below hflags value)
  | enter name rest ih => exact ih withholds
  | leave commit rest ih =>
      cases commit with
      | true =>
          intro flag below hflags
          obtain ⟨hflag, hrest⟩ := withholds flag below hflags
          exact ⟨hflag, ih hrest⟩
      | false => exact fun flag below hflags => ih (withholds flag below hflags)
  | call request rest ih => exact fun reply => ih reply (withholds reply)
  | mark label rest ih => exact ih withholds

/-! ## Runs -/

/-- A session without a flag carries allowed writes only. -/
def Carries (allowed : Write Y.schema → Prop) (session : Session Y) (flag : Prop) : Prop :=
  ¬ flag → ∀ write ∈ session.writes, allowed write

/-- The worker will commit no session that carries a write that is not allowed. -/
def Worker.Withholds (allowed : Write Y.schema → Prop) (worker : Worker Y α) : Prop :=
  ∃ flags post, List.Forall₂ (Carries allowed) worker.stack flags ∧
    worker.program.Withholds allowed post flags

/-- The invariant of a run. -/
structure Config.Withholds (allowed : Write Y.schema → Prop)
    (holds : Y.schema.Database → Prop) (config : Config Y α) : Prop where
  workers : ∀ worker ∈ config.workers, worker.Withholds allowed
  committed : holds config.shared.committed

theorem holds_applyAll {allowed : Write Y.schema → Prop} {holds : Y.schema.Database → Prop}
    (keeps : ∀ write db, allowed write → holds db → holds (write.apply db))
    {writes : List (Write Y.schema)} (hwrites : ∀ write ∈ writes, allowed write)
    {db : Y.schema.Database} (h : holds db) : holds (Write.applyAll writes db) := by
  induction writes generalizing db with
  | nil => exact h
  | cons write writes ih =>
      obtain ⟨hwrite, hrest⟩ := List.forall_mem_cons.mp hwrites
      exact ih hrest (keeps write db hwrite h)

section Steps

variable {allowed : Write Y.schema → Prop} {holds : Y.schema.Database → Prop}
  {config config' : Config Y α}

theorem Config.Withholds.set (withholds : config.Withholds allowed holds)
    {worker : Nat} {state : Worker Y α} {shared : Shared Y}
    (hstate : state.Withholds allowed) (hcommitted : holds shared.committed) :
    Config.Withholds allowed holds ⟨shared, config.workers.set worker state⟩ where
  workers other hother := by
    rcases List.mem_or_eq_of_mem_set hother with hold | rfl
    · exact withholds.workers other hold
    · exact hstate
  committed := hcommitted

theorem Config.Withholds.advance
    (keeps : ∀ write db, allowed write → holds db → holds (write.apply db))
    (withholds : config.Withholds allowed holds) {worker : Nat} {choice : Y.Choice}
    (hstep : config.advance worker choice = some config') :
    config'.Withholds allowed holds := by
  unfold Config.advance at hstep
  split at hstep
  · cases hstep
  · rename_i stack program hworker
    obtain ⟨flags, post, hcarries, hprogram⟩ :=
      withholds.workers _ (List.mem_of_getElem? hworker)
    have hcommitted := withholds.committed
    split at hstep
    · cases hstep
    · cases hstep
    · cases hstep
    · rename_i statement next top rest
      obtain ⟨outcome, hexec, rfl⟩ := Option.map_eq_some_iff.mp hstep
      obtain _ | ⟨htop, hrest⟩ := hcarries
      refine withholds.set ⟨_, post, .cons (fun hflag write hwrite => ?_) hrest,
        hprogram _ _ rfl _⟩ hcommitted
      obtain ⟨hclean, hconfined⟩ := not_or.mp hflag
      rcases List.mem_append.mp hwrite with hold | hnew
      · exact htop hclean write hold
      · exact (not_not.mp hconfined).writes hexec write hnew
    · rename_i name next
      cases hstep
      exact withholds.set ⟨_, post, .cons (fun _ write hwrite => by cases hwrite) hcarries,
        hprogram⟩ hcommitted
    · cases hstep
    · rename_i next top rest
      cases hstep
      obtain _ | ⟨htop, hrest⟩ := hcarries
      obtain ⟨hflag, hnext⟩ := hprogram _ _ rfl
      exact withholds.set ⟨_, post, hrest, hnext⟩
        (holds_applyAll keeps (htop hflag) hcommitted)
    · rename_i next top rest
      cases hstep
      obtain _ | ⟨htop, hrest⟩ := hcarries
      exact withholds.set ⟨_, post, hrest, hprogram _ _ rfl⟩ hcommitted
    · rename_i request next
      obtain ⟨⟨reply, world⟩, hreply, rfl⟩ := Option.map_eq_some_iff.mp hstep
      exact withholds.set ⟨_, post, hcarries, hprogram reply⟩ hcommitted
    · cases hstep
    · rename_i label next top rest
      cases hstep
      obtain _ | ⟨htop, hrest⟩ := hcarries
      exact withholds.set ⟨_, post, .cons (fun hflag write hwrite => htop hflag write hwrite)
        hrest, hprogram⟩ hcommitted

theorem Config.Withholds.step
    (keeps : ∀ write db, allowed write → holds db → holds (write.apply db))
    (withholds : config.Withholds allowed holds) {action : Action Y}
    (hstep : config.step action = some config') : config'.Withholds allowed holds := by
  cases action with
  | advance worker choice => exact withholds.advance keeps hstep
  | crash worker =>
      simp only [Config.step] at hstep
      split at hstep
      · cases hstep
        exact withholds.set ⟨[], fun _ _ => True, .nil, trivial⟩ withholds.committed
      · cases hstep
  | drift choice =>
      obtain ⟨world, -, rfl⟩ := Option.map_eq_some_iff.mp hstep
      exact ⟨withholds.workers, withholds.committed⟩

/-- What allowed writes keep is kept in every run. -/
theorem Config.Run.withholds {permits : Condition Y}
    (keeps : ∀ write db, allowed write → holds db → holds (write.apply db))
    {db : Y.schema.Database} {world : Y.World} {programs : List (Program Y α)}
    (hprograms : ∀ program ∈ programs, ∃ post, program.Withholds allowed post [])
    (hholds : holds db) (hrun : Config.Run permits (Config.start db world programs) config) :
    holds config.shared.committed := by
  have withholds : config.Withholds allowed holds := by
    induction hrun with
    | refl =>
        refine ⟨fun worker hworker => ?_, hholds⟩
        obtain ⟨program, hprogram, rfl⟩ := List.mem_map.mp hworker
        obtain ⟨post, hpost⟩ := hprograms program hprogram
        exact ⟨[], post, .nil, hpost⟩
    | tail _ hstep ih =>
        obtain ⟨action, hstep, -⟩ := hstep
        exact ih.step keeps hstep
  exact withholds.committed

end Steps

/-! ## Programs that may raise -/

/-- The innermost session has not gained a flag, where `counts` says so. -/
def Unflagged (counts : Prop) : List Prop → List Prop → Prop
  | [], [] => True
  | flag :: rest, flag' :: rest' => rest' = rest ∧ (counts → flag' → flag)
  | _, _ => False

theorem Unflagged.refl (counts : Prop) (flags : List Prop) : Unflagged counts flags flags := by
  cases flags with
  | nil => trivial
  | cons flag rest => exact ⟨rfl, fun _ h => h⟩

theorem Unflagged.weaken {counts counts' : Prop} {flags flags' : List Prop}
    (unflagged : Unflagged counts flags flags') (h : counts' → counts) :
    Unflagged counts' flags flags' := by
  cases flags with
  | nil =>
      cases flags' with
      | nil => trivial
      | cons flag' rest' => exact unflagged.elim
  | cons flag rest =>
      cases flags' with
      | nil => exact unflagged.elim
      | cons flag' rest' => exact ⟨unflagged.1, fun hcounts => unflagged.2 (h hcounts)⟩

theorem Unflagged.trans {counts : Prop} {flags flags' flags'' : List Prop}
    (first : Unflagged counts flags flags') (second : Unflagged counts flags' flags'') :
    Unflagged counts flags flags'' := by
  cases flags with
  | nil =>
      cases flags' with
      | nil => exact second
      | cons flag' rest' => exact first.elim
  | cons flag rest =>
      cases flags' with
      | nil => exact first.elim
      | cons flag' rest' =>
          cases flags'' with
          | nil => exact second.elim
          | cons flag'' rest'' =>
              exact ⟨second.1.trans first.1, fun hcounts hflag =>
                first.2 hcounts (second.2 hcounts hflag)⟩

namespace Raising

/-- What the program has written when it returns is allowed; when it raises, it may carry
more. -/
def Withholds (allowed : Write Y.schema → Prop) (program : Raising Y ε α) : Prop :=
  ∀ flags, Program.Withholds allowed program.run
    (fun result flags' => Unflagged (∃ value, result = .ok value) flags flags') flags

/-- What the program has written is allowed however it ends. -/
def Keeps (allowed : Write Y.schema → Prop) (program : Raising Y ε α) : Prop :=
  ∀ flags, Program.Withholds allowed program.run
    (fun _ flags' => Unflagged True flags flags') flags

variable {allowed : Write Y.schema → Prop}

theorem Keeps.withholds {program : Raising Y ε α} (keeps : Keeps allowed program) :
    Withholds allowed program := fun flags =>
  (keeps flags).mono fun _ _ h => h.weaken fun _ => trivial

theorem Keeps.throw (raised : ε) : Keeps allowed (throw raised : Raising Y ε α) :=
  fun flags => .refl True flags

/-- The body of a transaction that makes only allowed writes. -/
theorem Keeps.of_confined {body : Raising Y ε α} (confined : Confined allowed body) :
    Keeps allowed body := by
  intro flags
  have hbody {program : Program Y (Except ε α)} (confined : program.Confined allowed)
      {flags' : List Prop} (unflagged : Unflagged True flags flags') :
      program.Withholds allowed (fun _ flags' => Unflagged True flags flags') flags' := by
    induction program generalizing flags' with
    | ret value => exact unflagged
    | halt => trivial
    | run statement rest ih =>
        rintro flag below rfl value
        refine ih value (confined.2 value) (unflagged.trans ⟨rfl, fun _ hflag => ?_⟩)
        exact hflag.resolve_right (not_not.mpr confined.1)
    | enter name rest _ => exact confined.elim
    | leave commit rest _ => exact confined.elim
    | call request rest ih => exact fun reply => ih reply (confined reply) unflagged
    | mark label rest ih => exact ih confined unflagged
  exact hbody confined (.refl True flags)

theorem Keeps.bind {program : Raising Y ε α} {next : α → Raising Y ε β}
    (keeps : Keeps allowed program) (hnext : ∀ value, Keeps allowed (next value)) :
    Keeps allowed (program >>= next) := by
  intro flags
  refine Program.Withholds.bind ((keeps flags).mono fun result flags' unflagged => ?_)
  cases result with
  | ok value => exact (hnext value flags').mono fun _ _ h => unflagged.trans h
  | error raised => exact unflagged

theorem Keeps.recover {body : Raising Y ε α} {handler : ε → Raising Y ε α}
    (keeps : Keeps allowed body) (hhandler : ∀ raised, Keeps allowed (handler raised)) :
    Keeps allowed (recover body handler) := by
  intro flags
  refine Program.Withholds.bind ((keeps flags).mono fun result flags' unflagged => ?_)
  cases result with
  | ok value => exact unflagged
  | error raised => exact (hhandler raised flags').mono fun _ _ h => unflagged.trans h

/-- A session that commits only what is allowed. -/
theorem Keeps.withSession {name : Y.Name} {body : Raising Y ε α}
    (withholds : Withholds allowed body) : Keeps allowed (withSession name body) := by
  intro flags
  refine Program.Withholds.bind ((withholds (False :: flags)).mono
    fun result flags' unflagged => ?_)
  cases flags' with
  | nil => exact unflagged.elim
  | cons flag rest =>
      obtain ⟨rfl, hflag⟩ := unflagged
      cases result with
      | ok value =>
          rintro flag' rest' ⟨⟩
          exact ⟨hflag ⟨value, rfl⟩, .refl True rest⟩
      | error raised =>
          rintro flag' rest' ⟨⟩
          exact .refl True rest

theorem Withholds.bind {program : Raising Y ε α} {next : α → Raising Y ε β}
    (withholds : Withholds allowed program) (hnext : ∀ value, Withholds allowed (next value)) :
    Withholds allowed (program >>= next) := by
  intro flags
  refine Program.Withholds.bind ((withholds flags).mono fun result flags' unflagged => ?_)
  cases result with
  | ok value =>
      exact (hnext value flags').mono fun _ _ h =>
        (unflagged.weaken fun _ => ⟨value, rfl⟩).trans h
  | error raised =>
      exact unflagged.weaken fun ⟨_, h⟩ => nomatch h

theorem Keeps.composes {routine : Write Y.schema → Prop}
    (h : ∀ write, routine write → allowed write) :
    Composes routine fun program => Keeps (ε := ε) allowed program where
  inward hbody := .of_confined (hbody.confined.mono h)
  bind := .bind
  recover := .recover
  session hbody := .withSession hbody.withholds

/-- A body that is sure to raise may write anything. -/
theorem Withholds.doomed {body : Raising Y ε α} {raised : α → ε}
    (confined : Confined (fun _ => True) body) :
    Withholds allowed (body >>= fun value => (throw (raised value) : Raising Y ε β)) := by
  intro flags
  have hbody {program : Program Y (Except ε α)} (confined : program.Confined fun _ => True)
      {flags' : List Prop} (unflagged : Unflagged False flags flags') :
      program.Withholds allowed (fun _ flags' => Unflagged False flags flags') flags' := by
    induction program generalizing flags' with
    | ret value => exact unflagged
    | halt => trivial
    | run statement rest ih =>
        rintro flag below rfl value
        exact ih value (confined.2 value) (unflagged.trans ⟨rfl, False.elim⟩)
    | enter name rest _ => exact confined.elim
    | leave commit rest _ => exact confined.elim
    | call request rest ih => exact fun reply => ih reply (confined reply) unflagged
    | mark label rest ih => exact ih confined unflagged
  refine Program.Withholds.bind ((hbody confined (.refl False flags)).mono
    fun result flags' unflagged => ?_)
  cases result with
  | ok value => exact unflagged.weaken fun ⟨_, h⟩ => nomatch h
  | error raised => exact unflagged.weaken fun ⟨_, h⟩ => nomatch h

end Raising

end PayzenoLedger.Library
