import PayzenoLedger.Library.Soundness

/-!
# Proof rules for raising programs

`wpr` is the weakest precondition of a program that may raise, with one
postcondition for each way to end.  A statement leaves the shared state alone,
so a run of statements is summed up by `Progress`.  What is known of the
session's view at its commit is stated by `Seen`.
-/

set_option autoImplicit false

namespace PayzenoLedger.Library

open Schema Write

variable {Y : System} {ε α β : Type}

/-- The postcondition of a program that may raise, from its two halves. -/
def ending (ok : α → List (Session Y) → Shared Y → Prop)
    (error : ε → List (Session Y) → Shared Y → Prop) :
    Except ε α → List (Session Y) → Shared Y → Prop
  | .ok value => ok value
  | .error raised => error raised

/-- The weakest precondition of a program that may raise. -/
def wpr (D : Discipline Y) (worker : Nat) (program : Raising Y ε α)
    (ok : α → List (Session Y) → Shared Y → Prop)
    (error : ε → List (Session Y) → Shared Y → Prop)
    (stack : List (Session Y)) (shared : Shared Y) : Prop :=
  wp D worker program.run (ending ok error) stack shared

variable {D : Discipline Y} {worker : Nat}
  {ok : α → List (Session Y) → Shared Y → Prop}
  {error : ε → List (Session Y) → Shared Y → Prop}
  {stack : List (Session Y)} {shared : Shared Y}

@[simp]
theorem wpr_pure (value : α) :
    wpr D worker (pure value : Raising Y ε α) ok error stack shared = ok value stack shared :=
  rfl

@[simp]
theorem wpr_throw (raised : ε) :
    wpr D worker (throw raised : Raising Y ε α) ok error stack shared =
      error raised stack shared :=
  rfl

@[simp]
theorem wpr_bind (program : Raising Y ε β) (next : β → Raising Y ε α) :
    wpr D worker (program >>= next) ok error stack shared =
      wpr D worker program (fun value => wpr D worker (next value) ok error) error
        stack shared := by
  have hrun : (program >>= next).run =
      (program.run).bind (fun result => match result with
        | .ok value => (next value).run
        | .error raised => .ret (.error raised)) := by
    change Program.bind _ _ = Program.bind _ _
    congr 1
  unfold wpr
  rw [hrun, wp_bind]
  congr 1
  funext result
  cases result <;> rfl

theorem wpr_mono {program : Raising Y ε α}
    {ok' : α → List (Session Y) → Shared Y → Prop}
    {error' : ε → List (Session Y) → Shared Y → Prop}
    (h : wpr D worker program ok error stack shared)
    (hok : ∀ value stack' shared', ok value stack' shared' → ok' value stack' shared')
    (herror : ∀ raised stack' shared', error raised stack' shared' →
      error' raised stack' shared') :
    wpr D worker program ok' error' stack shared :=
  wp_mono h fun result stack' shared' => by
    cases result with
    | ok value => exact hok value stack' shared'
    | error raised => exact herror raised stack' shared'

theorem wpr_recover (body : Raising Y ε α) (handler : ε → Raising Y ε α) :
    wpr D worker (Raising.recover body handler) ok error stack shared =
      wpr D worker body ok (fun raised => wpr D worker (handler raised) ok error)
        stack shared := by
  have hrun : (Raising.recover body handler).run =
      (body.run).bind (fun result => match result with
        | .ok value => .ret (.ok value)
        | .error raised => (handler raised).run) := by
    change Program.bind _ _ = Program.bind _ _
    congr 1
  unfold wpr
  rw [hrun, wp_bind]
  congr 1
  funext result
  cases result <;> rfl

/-! ## Statements -/

/-- A run of statements in the top session: the environment moved along `Rely`,
and the session gained locks that cover its writes. -/
structure Progress (D : Discipline Y) (worker : Nat) (rest : List (Session Y))
    (top : Session Y) (shared : Shared Y) (top' : Session Y) (shared' : Shared Y) :
    Prop where
  rely : D.Rely worker (Held (top :: rest)) shared shared'
  good : D.Good shared'
  foot : Footprint top'.keys top'.writes shared'.committed
  name : top'.name = top.name
  marks : top'.marks = top.marks
  locks : ∀ lock ∈ top.locks, lock ∈ top'.locks
  writes : ∀ write ∈ top.writes, write ∈ top'.writes

namespace Progress

variable {rest : List (Session Y)} {top top' top'' : Session Y}
  {shared' shared'' : Shared Y}

theorem start {name : Y.Name} (good : D.Good shared) :
    Progress D worker rest (Session.fresh name) shared (Session.fresh name) shared where
  rely := Discipline.Rely.refl _ _ _
  good := good
  foot := Footprint.nil _ _
  name := rfl
  marks := rfl
  locks _ h := h
  writes _ h := h

theorem here (progress : Progress D worker rest top shared top' shared') :
    Progress D worker rest top' shared' top' shared' where
  rely := Discipline.Rely.refl _ _ _
  good := progress.good
  foot := progress.foot
  name := rfl
  marks := rfl
  locks _ h := h
  writes _ h := h

/-- The environment moves before the next statement. -/
theorem of_rely (good : D.Good shared)
    (foot : Footprint top.keys top.writes shared.committed)
    (rely : D.Rely worker (Held (top :: rest)) shared shared') :
    Progress D worker rest top shared top shared' where
  rely := rely
  good := rely.good good
  foot := by
    have hkeys (key : Y.schema.Key) (hkey : top.keys key) : Held (top :: rest) (.key key) :=
      held_cons.mpr (.inl hkey)
    exact foot.of_agree ((rely.later good).agree.mono hkeys) (rely.good good).1
  name := rfl
  marks := rfl
  locks _ h := h
  writes _ h := h

theorem held (progress : Progress D worker rest top shared top' shared')
    {lock : Lock Y} (hlock : Held (top :: rest) lock) : Held (top' :: rest) lock :=
  held_cons.mpr ((held_cons.mp hlock).imp_left (progress.locks lock))

theorem trans (first : Progress D worker rest top shared top' shared')
    (second : Progress D worker rest top' shared' top'' shared'') :
    Progress D worker rest top shared top'' shared'' where
  rely := first.rely.trans (second.rely.mono fun _ => first.held)
  good := second.good
  foot := second.foot
  name := second.name.trans first.name
  marks := second.marks.trans first.marks
  locks lock h := second.locks lock (first.locks lock h)
  writes write h := second.writes write (first.writes write h)

theorem keys (progress : Progress D worker rest top shared top' shared')
    (key : Y.schema.Key) (hkey : top.keys key) : top'.keys key :=
  progress.locks _ hkey

/-- What the session's own keys allow the environment to have done. -/
theorem later (progress : Progress D worker rest top shared top' shared')
    (good : D.Good shared) : Later top.keys shared.committed shared'.committed :=
  (progress.rely.later good).mono fun _ hkey => held_cons.mpr (.inl hkey)

theorem unique (progress : Progress D worker rest top shared top' shared') :
    Unique (top'.view shared'.committed) :=
  progress.foot.unique _ (Agree.refl _ _) progress.good.1

end Progress

theorem Session.extend_nil (session : Session Y) (value : β) :
    session.extend ⟨value, [], []⟩ = session := by
  simp [Session.extend]

/-- The session after it inserted a row. -/
def Session.insert (session : Session Y) (table : Y.schema.Table)
    (row : Y.schema.Row table) : Session Y :=
  { session with
    writes := session.writes ++ [.insert table row]
    locks := session.locks ++ (Y.schema.keys table row).map Lock.key }

/-- The session after it rewrote a row. -/
def Session.rewrite (session : Session Y) (table : Y.schema.Table) (key : Y.schema.Key)
    (change : Y.schema.Row table → Y.schema.Row table)
    (immutable : ∀ row, Y.schema.identity table (change row) = Y.schema.identity table row)
    (row : Y.schema.Row table) : Session Y :=
  { session with
    writes := session.writes ++ [.update table key change immutable]
    locks := session.locks ++
      (Y.schema.keys table row ++ Y.schema.keys table (change row)).map Lock.key }

/-- The session after it took a lock without writing. -/
def Session.lock (session : Session Y) (locks : List (Lock Y)) : Session Y :=
  { session with locks := session.locks ++ locks }

section Statements

variable {top : Session Y} {rest : List (Session Y)}

theorem wpr_execute {statement : Statement Y α}
    (h : ∀ shared' choice free outcome,
      Progress D worker rest top shared top shared' →
      statement.exec shared'.world choice free (top.view shared'.committed) = some outcome →
      ok outcome.value (top.extend outcome :: rest) shared') :
    wpr D worker (Raising.execute statement : Raising Y ε α) ok error (top :: rest)
      shared := by
  intro shared' hrely hgood top' rest' hstack hfoot choice free outcome hexec
  obtain ⟨rfl, rfl⟩ := List.cons.inj hstack
  exact h shared' choice free outcome
    ⟨hrely, hgood, hfoot, rfl, rfl, fun _ h => h, fun _ h => h⟩ hexec

theorem wpr_query {query : Y.World → Y.Choice → Y.schema.Database → Option α}
    (h : ∀ shared' choice value, Progress D worker rest top shared top shared' →
      query shared'.world choice (top.view shared'.committed) = some value →
      ok value (top :: rest) shared') :
    wpr D worker (Raising.execute (.select query) : Raising Y ε α) ok error (top :: rest)
      shared := by
  refine wpr_execute fun shared' choice free outcome progress hexec => ?_
  obtain ⟨value, hvalue, rfl⟩ := Option.map_eq_some_iff.mp hexec
  rw [Session.extend_nil]
  exact h shared' choice value progress hvalue

theorem wpr_select {query : Y.schema.Database → α}
    (h : ∀ shared', Progress D worker rest top shared top shared' →
      ok (query (top.view shared'.committed)) (top :: rest) shared') :
    wpr D worker (Raising.select query : Raising Y ε α) ok error (top :: rest) shared := by
  refine wpr_query fun shared' choice value progress hvalue => ?_
  cases hvalue
  exact h shared' progress

theorem wpr_selectForUpdate {table : Y.schema.Table} {key : Y.schema.Key}
    {condition : Y.schema.Row table → Bool} {skipLocked : Bool}
    {ok : Option (Y.schema.Row table) → List (Session Y) → Shared Y → Prop}
    (hfound : ∀ shared' row, Progress D worker rest top shared top shared' →
      row ∈ holders table key (top.view shared'.committed) → condition row = true →
      Progress D worker rest top shared
        (top.lock ((Y.schema.keys table row).map Lock.key)) shared' →
      ok (some row) (top.lock ((Y.schema.keys table row).map Lock.key) :: rest) shared')
    (hnone : ∀ shared', Progress D worker rest top shared top shared' →
      ok none (top :: rest) shared') :
    wpr D worker (Raising.execute (.selectForUpdate table key condition skipLocked) :
      Raising Y ε _) ok error (top :: rest) shared := by
  refine wpr_execute fun shared' choice free outcome progress hexec => ?_
  simp only [Statement.exec] at hexec
  split at hexec
  · cases hexec
    rw [Session.extend_nil]
    exact hnone shared' progress
  · next row hfind =>
      have hextend : top.extend
          ⟨some row, [], (Y.schema.keys table row).map Lock.key⟩ =
            top.lock ((Y.schema.keys table row).map Lock.key) := by
        simp [Session.extend, Session.lock]
      split at hexec
      · cases hexec
        rw [hextend]
        refine hfound shared' row progress (List.mem_of_find?_eq_some hfind)
          (List.find?_some hfind) ⟨progress.rely, progress.good, ?_, rfl, rfl, ?_, fun _ h => h⟩
        · exact progress.foot.widen (fun key hkey => List.mem_append_left _ hkey)
            progress.good.1
        · exact fun lock hlock => List.mem_append_left _ hlock
      · split at hexec <;> cases hexec
        rw [Session.extend_nil]
        exact hnone shared' progress

theorem wpr_insert {table : Y.schema.Table} {row : Y.schema.Row table}
    {ok : List Y.schema.Key → List (Session Y) → Shared Y → Prop}
    (hdone : ∀ shared', Progress D worker rest top shared top shared' →
      (∀ key ∈ Y.schema.keys table row, holders table key (top.view shared'.committed) = []) →
      Progress D worker rest top shared (top.insert table row) shared' →
      ok [] (top.insert table row :: rest) shared')
    (htaken : ∀ shared' taken, Progress D worker rest top shared top shared' → taken ≠ [] →
      (∀ key, key ∈ taken ↔ key ∈ Y.schema.keys table row ∧
        holders table key (top.view shared'.committed) ≠ []) →
      ok taken (top :: rest) shared') :
    wpr D worker (Raising.execute (.insert table row) : Raising Y ε _) ok error
      (top :: rest) shared := by
  refine wpr_execute fun shared' choice free outcome progress hexec => ?_
  simp only [Statement.exec] at hexec
  split at hexec
  · next hnone =>
      split at hexec
      · cases hexec
        have hfree : ∀ key ∈ Y.schema.keys table row,
            holders table key (top.view shared'.committed) = [] := by
          intro key hkey
          simpa using List.filter_eq_nil_iff.mp (List.isEmpty_iff.mp hnone) key hkey
        refine hdone shared' progress hfree
          ⟨progress.rely, progress.good, ?_, rfl, rfl, ?_, fun _ h => List.mem_append_left _ h⟩
        · exact progress.foot.append (fun key hkey => List.mem_append_left _ hkey)
            progress.good.1 (Footprint.insert
              (fun key hkey => List.mem_append_right _ (List.mem_map_of_mem hkey)) hfree)
        · exact fun lock hlock => List.mem_append_left _ hlock
      · cases hexec
  · next hsome =>
      cases hexec
      rw [Session.extend_nil]
      refine htaken shared' _ progress ?_ fun key => ?_
      · simpa using hsome
      · simp

theorem wpr_update {table : Y.schema.Table} {key : Y.schema.Key}
    {change : Y.schema.Row table → Y.schema.Row table}
    {immutable : ∀ row, Y.schema.identity table (change row) = Y.schema.identity table row}
    {ok : Updated → List (Session Y) → Shared Y → Prop}
    (hdone : ∀ shared' row, Progress D worker rest top shared top shared' →
      row ∈ holders table key (top.view shared'.committed) →
      Progress D worker rest top shared (top.rewrite table key change immutable row) shared' →
      ok .done (top.rewrite table key change immutable row :: rest) shared')
    (hmissing : ∀ shared', Progress D worker rest top shared top shared' →
      holders table key (top.view shared'.committed) = [] →
      ok .missing (top :: rest) shared')
    (hconflict : ∀ shared' row, Progress D worker rest top shared top shared' →
      row ∈ holders table key (top.view shared'.committed) →
      (∃ k ∈ Y.schema.keys table (change row), k ∉ Y.schema.keys table row ∧
        holders table k (top.view shared'.committed) ≠ []) →
      ok .conflict (top :: rest) shared') :
    wpr D worker (Raising.execute (.update table key change immutable) : Raising Y ε _)
      ok error (top :: rest) shared := by
  refine wpr_execute fun shared' choice free outcome progress hexec => ?_
  simp only [Statement.exec] at hexec
  split at hexec
  · next hhead =>
      cases hexec
      rw [Session.extend_nil]
      exact hmissing shared' progress (List.head?_eq_none_iff.mp hhead)
  · next row hhead =>
      have hmem : row ∈ holders table key (top.view shared'.committed) :=
        List.mem_of_head? hhead
      obtain ⟨hrow, hkey⟩ := mem_holders.mp hmem
      split at hexec
      · split at hexec
        · next hfree =>
            cases hexec
            have hfree' : ∀ k ∈ Y.schema.keys table (change row),
                k ∈ Y.schema.keys table row ∨
                  holders table k (top.view shared'.committed) = [] := by
              intro k hk
              simpa using List.all_eq_true.mp hfree k hk
            refine hdone shared' row progress hmem
              ⟨progress.rely, progress.good, ?_, rfl, rfl, ?_, fun _ h => List.mem_append_left _ h⟩
            · exact progress.foot.append (fun k hk => List.mem_append_left _ hk)
                progress.good.1 (Footprint.update progress.unique hrow hkey
                  (fun k hk => List.mem_append_right _ (List.mem_map_of_mem hk)) hfree')
            · exact fun lock hlock => List.mem_append_left _ hlock
        · next hclash =>
            cases hexec
            rw [Session.extend_nil]
            refine hconflict shared' row progress hmem ?_
            simpa [List.all_eq_true] using hclash
      · cases hexec

theorem wpr_acquire {advisory : Y.Advisory}
    {ok : Unit → List (Session Y) → Shared Y → Prop}
    (h : ∀ shared', Progress D worker rest top shared (top.lock [.advisory advisory]) shared' →
      ok () (top.lock [.advisory advisory] :: rest) shared') :
    wpr D worker (Raising.execute (.acquire advisory) : Raising Y ε _) ok error
      (top :: rest) shared := by
  refine wpr_execute fun shared' choice free outcome progress hexec => ?_
  simp only [Statement.exec] at hexec
  split at hexec <;> cases hexec
  have hextend : top.extend ⟨(), [], [.advisory advisory]⟩ =
      top.lock [.advisory advisory] := by
    simp [Session.extend, Session.lock]
  rw [hextend]
  refine h shared' ⟨progress.rely, progress.good, ?_, rfl, rfl, ?_, fun _ h => h⟩
  · exact progress.foot.widen (fun key hkey => List.mem_append_left _ hkey) progress.good.1
  · exact fun lock hlock => List.mem_append_left _ hlock

theorem wpr_tryAcquire {advisory : Y.Advisory}
    {ok : Bool → List (Session Y) → Shared Y → Prop}
    (htaken : ∀ shared',
      Progress D worker rest top shared (top.lock [.advisory advisory]) shared' →
      ok true (top.lock [.advisory advisory] :: rest) shared')
    (hbusy : ∀ shared', Progress D worker rest top shared top shared' →
      ok false (top :: rest) shared') :
    wpr D worker (Raising.execute (.tryAcquire advisory) : Raising Y ε _) ok error
      (top :: rest) shared := by
  refine wpr_execute fun shared' choice free outcome progress hexec => ?_
  simp only [Statement.exec] at hexec
  split at hexec <;> cases hexec
  · have hextend : top.extend ⟨true, [], [.advisory advisory]⟩ =
        top.lock [.advisory advisory] := by
      simp [Session.extend, Session.lock]
    rw [hextend]
    refine htaken shared' ⟨progress.rely, progress.good, ?_, rfl, rfl, ?_, fun _ h => h⟩
    · exact progress.foot.widen (fun key hkey => List.mem_append_left _ hkey)
        progress.good.1
    · exact fun lock hlock => List.mem_append_left _ hlock
  · rw [Session.extend_nil]
    exact hbusy shared' progress

/-- The session with one more mark. -/
def Session.mark (session : Session Y) (label : Y.Mark) : Session Y :=
  { session with marks := session.marks ++ [label] }

/-- The mark of the current transaction, where it is allowed. -/
theorem wpr_mark {label : Y.Mark} {ok : Unit → List (Session Y) → Shared Y → Prop}
    (h : ∀ shared', D.Rely worker (Held (top :: rest)) shared shared' → D.Good shared' →
      D.Allows label (top :: rest) rest shared'.committed ∧
        ok () (top.mark label :: rest) shared') :
    wpr D worker (Raising.mark label : Raising Y ε _) ok error (top :: rest) shared := by
  intro shared' hrely hgood top' rest' hstack
  obtain ⟨rfl, rfl⟩ := List.cons.inj hstack
  exact h shared' hrely hgood

end Statements

/-- A stretch of one session in which it may have set marks. -/
structure Onward (D : Discipline Y) (worker : Nat) (rest : List (Session Y))
    (top : Session Y) (shared : Shared Y) (top' : Session Y) (shared' : Shared Y) :
    Prop where
  rely : D.Rely worker (Held (top :: rest)) shared shared'
  good : D.Good shared'
  foot : Footprint top'.keys top'.writes shared'.committed
  name : top'.name = top.name
  marks : ∀ label ∈ top.marks, label ∈ top'.marks
  locks : ∀ lock ∈ top.locks, lock ∈ top'.locks
  writes : ∀ write ∈ top.writes, write ∈ top'.writes

theorem Progress.onward {rest : List (Session Y)} {top top' : Session Y}
    {shared' : Shared Y} (progress : Progress D worker rest top shared top' shared') :
    Onward D worker rest top shared top' shared' where
  rely := progress.rely
  good := progress.good
  foot := progress.foot
  name := progress.name
  marks label h := by
    rw [progress.marks]
    exact h
  locks := progress.locks
  writes := progress.writes

namespace Onward

variable {rest : List (Session Y)} {top top' top'' : Session Y}
  {shared' shared'' : Shared Y}

theorem held (onward : Onward D worker rest top shared top' shared') {lock : Lock Y}
    (hlock : Held (top :: rest) lock) : Held (top' :: rest) lock :=
  held_cons.mpr ((held_cons.mp hlock).imp_left (onward.locks lock))

theorem trans (first : Onward D worker rest top shared top' shared')
    (second : Onward D worker rest top' shared' top'' shared'') :
    Onward D worker rest top shared top'' shared'' where
  rely := first.rely.trans (second.rely.mono fun _ => first.held)
  good := second.good
  foot := second.foot
  name := second.name.trans first.name
  marks label h := second.marks label (first.marks label h)
  locks lock h := second.locks lock (first.locks lock h)
  writes write h := second.writes write (first.writes write h)

theorem mark (onward : Onward D worker rest top shared top' shared') (label : Y.Mark) :
    Onward D worker rest top shared (top'.mark label) shared' :=
  { onward with marks := fun other h => List.mem_append_left _ (onward.marks other h) }

theorem later (onward : Onward D worker rest top shared top' shared') (good : D.Good shared) :
    Later top.keys shared.committed shared'.committed :=
  (onward.rely.later good).mono fun _ hkey => held_cons.mpr (.inl hkey)

/-- A stretch without further statements. -/
theorem here (onward : Onward D worker rest top shared top' shared') :
    Progress D worker rest top' shared' top' shared' where
  rely := Discipline.Rely.refl _ _ _
  good := onward.good
  foot := onward.foot
  name := rfl
  marks := rfl
  locks _ h := h
  writes _ h := h

end Onward

/-! ## What a worker saw -/

/-- The worker saw this of the committed database, and did nothing since that others
could notice. -/
def Saw (D : Discipline Y) (worker : Nat) (fact : Y.schema.Database → Prop)
    (shared : Shared Y) : Prop :=
  ∃ earlier, D.Good earlier ∧ D.Rely worker (fun _ => False) earlier shared ∧
    fact earlier.committed

namespace Saw

variable {shared' : Shared Y} {fact fact' : Y.schema.Database → Prop}

theorem now (good : D.Good shared) (h : fact shared.committed) : Saw D worker fact shared :=
  ⟨shared, good, Discipline.Rely.refl _ _ _, h⟩

theorem rely {held : Lock Y → Prop} (saw : Saw D worker fact shared)
    (rely : D.Rely worker held shared shared') : Saw D worker fact shared' := by
  obtain ⟨earlier, good, past, h⟩ := saw
  exact ⟨earlier, good, past.trans (rely.mono fun _ hfalse => hfalse.elim), h⟩

theorem imp (saw : Saw D worker fact shared) (h : ∀ db, fact db → fact' db) :
    Saw D worker fact' shared := by
  obtain ⟨earlier, good, past, hfact⟩ := saw
  exact ⟨earlier, good, past, h _ hfact⟩

/-- What grows with the database still is so. -/
theorem grown (saw : Saw D worker fact shared) :
    ∃ db, Unique db ∧ Extends db shared.committed ∧ fact db := by
  obtain ⟨earlier, good, past, h⟩ := saw
  exact ⟨earlier.committed, good.1, (past.later good).grows, h⟩

end Saw

/-! ## Sessions and calls -/

/-- The top session may commit, and what holds afterwards. -/
def Commits (D : Discipline Y) (worker : Nat) (top : Session Y) (rest : List (Session Y))
    (shared : Shared Y) (next : Shared Y → Prop) : Prop :=
  ∀ shared', D.Rely worker (Held (top :: rest)) shared shared' → D.Good shared' →
    Footprint top.keys top.writes shared'.committed →
    D.permits worker (top :: rest) shared' .commit →
    D.guarantee worker (Held (top :: rest)) shared' (shared'.commit worker top) ∧
      D.invariant (shared'.commit worker top) ∧ next (shared'.commit worker top)

/-- What holds after the top session rolled back. -/
def RollsBack (D : Discipline Y) (worker : Nat) (top : Session Y) (rest : List (Session Y))
    (shared : Shared Y) (next : Shared Y → Prop) : Prop :=
  ∀ shared', D.Rely worker (Held (top :: rest)) shared shared' → D.Good shared' →
    D.permits worker (top :: rest) shared' .rollback →
    next (shared'.log worker (.rolledBack top.name))

theorem wpr_withSession {name : Y.Name} {body : Raising Y ε α}
    (h : ∀ shared', D.Rely worker (Held stack) shared shared' → D.Good shared' →
      D.permits worker stack shared' (.enter name) →
      D.Good (shared'.log worker (.began name)) →
      wpr D worker body
        (fun value stack' shared'' => ∃ top, stack' = top :: stack ∧
          Commits D worker top stack shared'' (ok value stack))
        (fun raised stack' shared'' => ∃ top, stack' = top :: stack ∧
          RollsBack D worker top stack shared'' (error raised stack))
        (Session.fresh name :: stack) (shared'.log worker (.began name))) :
    wpr D worker (Raising.withSession name body) ok error stack shared := by
  intro shared' hrely hgood hpermits
  have hinvariant := (D.enter_sound worker stack shared' name hgood.2 hpermits).2
  rw [wp_bind]
  refine wp_mono (h shared' hrely hgood hpermits ⟨hgood.1, hinvariant⟩) ?_
  intro result stack' shared'' hend
  cases result with
  | ok value =>
      obtain ⟨top, rfl, hcommits⟩ := hend
      intro later hrely' hgood' top' rest' hstack hfoot hpermits'
      obtain ⟨rfl, rfl⟩ := List.cons.inj hstack
      exact hcommits later hrely' hgood' hfoot hpermits'
  | error raised =>
      obtain ⟨top, rfl, hrolls⟩ := hend
      intro later hrely' hgood' top' rest' hstack hpermits'
      obtain ⟨rfl, rfl⟩ := List.cons.inj hstack
      exact hrolls later hrely' hgood' hpermits'

theorem wpr_call {request : Y.Request}
    {ok : Y.Reply request → List (Session Y) → Shared Y → Prop}
    (h : ∀ shared' choice reply world, D.Rely worker (Held stack) shared shared' →
      D.Good shared' → Y.respond worker request choice shared'.world = some (reply, world) →
      D.permits worker stack shared' (.call request reply world) →
      D.guarantee worker (Held stack) shared' (shared'.answer worker world request reply) ∧
        D.invariant (shared'.answer worker world request reply) ∧
        ok reply stack (shared'.answer worker world request reply)) :
    wpr D worker (Raising.call request : Raising Y ε _) ok error stack shared :=
  fun shared' hrely hgood choice reply world hreply hpermits =>
    h shared' choice reply world hrely hgood hreply hpermits

/-! ## Facts about the view -/

/-- A fact about the writes over the committed database, now and whenever they
are committed under the given locks. -/
def Seen (locked : Y.schema.Key → Prop) (writes : List (Write Y.schema)) (shared : Shared Y)
    (fact : Y.schema.Database → Prop) : Prop :=
  ∀ db, Later locked shared.committed db → fact (applyAll writes db)

namespace Seen

variable {locked wide : Y.schema.Key → Prop} {writes more : List (Write Y.schema)}
  {shared' : Shared Y} {fact fact' : Y.schema.Database → Prop}

theorem now (seen : Seen locked writes shared fact) (unique : Unique shared.committed) :
    fact (applyAll writes shared.committed) :=
  seen _ (Later.refl _ unique)

theorem later (seen : Seen locked writes shared fact)
    (step : Later locked shared.committed shared'.committed)
    (sub : ∀ key, locked key → wide key) : Seen wide writes shared' fact :=
  fun db hdb => seen db (step.trans (hdb.mono sub))

theorem imp (seen : Seen locked writes shared fact) (h : ∀ db, fact db → fact' db) :
    Seen locked writes shared fact' :=
  fun db hdb => h _ (seen db hdb)

theorem and (left : Seen locked writes shared fact) (right : Seen locked writes shared fact') :
    Seen locked writes shared fun db => fact db ∧ fact' db :=
  fun db hdb => ⟨left db hdb, right db hdb⟩

theorem append (seen : Seen locked writes shared fact)
    (h : ∀ db, fact db → fact' (applyAll more db)) :
    Seen locked (writes ++ more) shared fact' := by
  intro db hdb
  rw [applyAll_append]
  exact h _ (seen db hdb)

/-- What holds with more writes says something about the fewer. -/
theorem of_append (seen : Seen locked (writes ++ more) shared fact)
    (h : ∀ db, fact (applyAll more db) → fact' db) : Seen locked writes shared fact' := by
  intro db hdb
  have hfact := seen db hdb
  rw [applyAll_append] at hfact
  exact h _ hfact

/-- A fact that the further writes keep holds of the session's later view. -/
theorem progress {top top' : Session Y} {rest : List (Session Y)}
    (seen : Seen top.keys top.writes shared fact) (good : D.Good shared)
    (progress : Progress D worker rest top shared top' shared')
    (hwrites : top'.writes = top.writes ++ more)
    (keep : ∀ db, fact db → fact (applyAll more db)) :
    Seen top'.keys top'.writes shared' fact := by
  rw [hwrites]
  refine append (fun db hdb => ?_) keep
  exact seen db ((progress.later good).trans (hdb.mono progress.keys))

/-- The indexes stay unique. -/
theorem unique (foot : Footprint locked writes shared.committed)
    (sub : ∀ key, locked key → wide key) : Seen wide writes shared Unique :=
  fun db hdb => foot.unique db (hdb.agree.mono sub) hdb.unique

/-- The rows under a locked key stay what the session saw. -/
theorem holders (foot : Footprint locked writes shared.committed)
    (sub : ∀ key, locked key → wide key) (unique : Unique shared.committed)
    {table : Y.schema.Table} {key : Y.schema.Key} (hkey : wide key)
    {rows : List (Y.schema.Row table)}
    (hrows : Schema.holders table key (applyAll writes shared.committed) = rows) :
    Seen wide writes shared fun db => Schema.holders table key db = rows := by
  intro db hdb
  rw [← hrows]
  exact (foot.agree_wide sub unique hdb.unique hdb.agree table key hkey).symm

/-- A row that the session saw keeps its immutable columns. -/
theorem identity (table : Y.schema.Table) {row : Y.schema.Row table}
    (hrow : row ∈ Y.schema.rows table (applyAll writes shared.committed)) :
    Seen locked writes shared fun db =>
      ∃ row' ∈ Y.schema.rows table db,
        Y.schema.identity table row' = Y.schema.identity table row := by
  intro db hdb
  have hmem := List.mem_map_of_mem (f := Y.schema.identity table) hrow
  rw [identities_applyAll] at hmem
  have hlater : Y.schema.identity table row ∈
      (Y.schema.rows table (applyAll writes db)).map (Y.schema.identity table) := by
    rw [identities_applyAll]
    refine List.mem_append.mpr ((List.mem_append.mp hmem).imp_left fun h => ?_)
    exact (hdb.grows table).subset h
  obtain ⟨row', hrow', hsame⟩ := List.mem_map.mp hlater
  exact ⟨row', hrow', hsame⟩

end Seen

/-- The writes keep an invariant of the database, whenever they are committed
under the given locks. -/
def Keeps (locked : Y.schema.Key → Prop) (writes : List (Write Y.schema))
    (shared : Shared Y) (invariant : Y.schema.Database → Prop) : Prop :=
  ∀ db, Later locked shared.committed db → invariant db → invariant (applyAll writes db)

namespace Keeps

variable {locked wide : Y.schema.Key → Prop} {writes more : List (Write Y.schema)}
  {shared' : Shared Y} {fact invariant : Y.schema.Database → Prop}

theorem nil : Keeps locked [] shared invariant :=
  fun _ _ h => h

theorem now (keeps : Keeps locked writes shared invariant)
    (unique : Unique shared.committed) (h : invariant shared.committed) :
    invariant (applyAll writes shared.committed) :=
  keeps _ (Later.refl _ unique) h

theorem later (keeps : Keeps locked writes shared invariant)
    (step : Later locked shared.committed shared'.committed)
    (sub : ∀ key, locked key → wide key) : Keeps wide writes shared' invariant :=
  fun db hdb => keeps db (step.trans (hdb.mono sub))

/-- Further writes that keep the invariant on what the session sees. -/
theorem append (keeps : Keeps locked writes shared invariant)
    (seen : Seen locked writes shared fact)
    (step : ∀ db, fact db → invariant db → invariant (applyAll more db)) :
    Keeps locked (writes ++ more) shared invariant := by
  intro db hdb hinvariant
  rw [applyAll_append]
  exact step _ (seen db hdb) (keeps db hdb hinvariant)

end Keeps

end PayzenoLedger.Library
