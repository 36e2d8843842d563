import PayzenoLedger.Library.RelyGuarantee

/-!
# Soundness of the weakest preconditions

Every statement takes the locks that its writes need, so two sessions never hold
the same lock and the footprints of the open sessions stay valid.  With the
weakest precondition of each worker these facts are kept by every permitted
step, hence hold in every configuration that a run reaches.
-/

set_option autoImplicit false

namespace PayzenoLedger.Library

open Schema Write

namespace Statement

variable {Y : System} {β : Type} {world : Y.World} {choice : Y.Choice}
  {free : Lock Y → Bool} {view : Y.schema.Database} {outcome : Outcome Y β}

theorem mem_map_key {keys : List Y.schema.Key} {key : Y.schema.Key}
    (hkey : key ∈ keys) : Lock.key key ∈ keys.map (Lock.key (Y := Y)) :=
  List.mem_map_of_mem hkey

/-- A statement only takes locks that no other session holds. -/
theorem exec_free (statement : Statement Y β)
    (hexec : statement.exec world choice free view = some outcome) :
    ∀ lock ∈ outcome.locks, free lock = true := by
  cases statement with
  | select query =>
      obtain ⟨value, _, rfl⟩ := Option.map_eq_some_iff.mp hexec
      simp
  | selectForUpdate table key condition skipLocked =>
      simp only [exec] at hexec
      split at hexec
      · cases hexec; simp
      · split at hexec
        · next hall => cases hexec; exact List.all_eq_true.mp hall
        · split at hexec <;> cases hexec; simp
  | insert table row =>
      simp only [exec] at hexec
      split at hexec
      · split at hexec
        · next hall => cases hexec; exact List.all_eq_true.mp hall
        · cases hexec
      · cases hexec; simp
  | update table key change immutable =>
      simp only [exec] at hexec
      split at hexec
      · cases hexec; simp
      · split at hexec
        · next hall =>
            split at hexec
            · cases hexec; exact List.all_eq_true.mp hall
            · cases hexec; simp
        · cases hexec
  | acquire advisory =>
      simp only [exec] at hexec
      split at hexec
      · next hfree => cases hexec; simpa using hfree
      · cases hexec
  | tryAcquire advisory =>
      simp only [exec] at hexec
      split at hexec
      · next hfree => cases hexec; simpa using hfree
      · cases hexec; simp

/-- The writes of a statement are covered by the locks it takes. -/
theorem exec_footprint (statement : Statement Y β) (unique : Unique view)
    (hexec : statement.exec world choice free view = some outcome)
    {locked : Y.schema.Key → Prop}
    (hlocked : ∀ key, Lock.key key ∈ outcome.locks → locked key) :
    Footprint locked outcome.writes view := by
  cases statement with
  | select query =>
      obtain ⟨value, _, rfl⟩ := Option.map_eq_some_iff.mp hexec
      exact Footprint.nil _ _
  | selectForUpdate table key condition skipLocked =>
      simp only [exec] at hexec
      split at hexec
      · cases hexec; exact Footprint.nil _ _
      · split at hexec
        · cases hexec; exact Footprint.nil _ _
        · split at hexec <;> cases hexec; exact Footprint.nil _ _
  | insert table row =>
      simp only [exec] at hexec
      split at hexec
      · next hnone =>
          split at hexec
          · cases hexec
            refine Footprint.insert (fun key hkey => hlocked key (mem_map_key hkey)) ?_
            intro key hkey
            have htaken := List.filter_eq_nil_iff.mp (List.isEmpty_iff.mp hnone) key hkey
            simpa using htaken
          · cases hexec
      · cases hexec; exact Footprint.nil _ _
  | update table key change immutable =>
      simp only [exec] at hexec
      split at hexec
      · cases hexec; exact Footprint.nil _ _
      · next row hhead =>
          obtain ⟨hrow, hkey⟩ := mem_holders.mp (List.mem_of_head? hhead)
          split at hexec
          · split at hexec
            · next hfree =>
                cases hexec
                refine Footprint.update unique hrow hkey
                  (fun k hk => hlocked k (mem_map_key hk)) ?_
                intro k hk
                have hone := List.all_eq_true.mp hfree k hk
                simpa using hone
            · cases hexec; exact Footprint.nil _ _
          · cases hexec
  | acquire advisory =>
      simp only [exec] at hexec
      split at hexec <;> cases hexec
      exact Footprint.nil _ _
  | tryAcquire advisory =>
      simp only [exec] at hexec
      split at hexec <;> cases hexec <;> exact Footprint.nil _ _

end Statement

/-! ## Held locks -/

section Held

variable {Y : System} {top top' : Session Y} {rest : List (Session Y)} {lock : Lock Y}

@[simp]
theorem held_nil : ¬ Held ([] : List (Session Y)) lock := by
  rintro ⟨_, hmem, _⟩
  cases hmem

@[simp]
theorem held_cons : Held (top :: rest) lock ↔ lock ∈ top.locks ∨ Held rest lock := by
  simp [Held]

theorem Held.of_suffix {stack : List (Session Y)} (held : Held rest lock)
    (hsuffix : rest <:+ stack) : Held stack lock := by
  obtain ⟨session, hsession, hlock⟩ := held
  exact ⟨session, hsuffix.subset hsession, hlock⟩

end Held

namespace Discipline.Allows

variable {Y : System} {D : Discipline Y} {label : Y.Mark} {top top' : Session Y}
  {rest : List (Session Y)} {db db' : Y.schema.Database}

theorem grow (allows : D.Allows label (top :: rest) rest db) (grows : Extends db db') :
    D.Allows label (top :: rest) rest db' :=
  { allows with means := D.meaning_extends label db db' grows allows.means }

theorem widen (allows : D.Allows label (top :: rest) rest db)
    (sub : ∀ lock ∈ top.locks, lock ∈ top'.locks) :
    D.Allows label (top' :: rest) rest db :=
  { allows with
    held := fun lock hlock =>
      held_cons.mpr ((held_cons.mp (allows.held lock hlock)).imp_left (sub lock)) }

end Discipline.Allows

/-! ## The invariant of all workers -/

/-- What is kept of one worker: its sessions hold separate locks that cover
their writes, its marks are protected, and its program has its precondition. -/
structure Ready {Y : System} {α : Type} (D : Discipline Y)
    (post : Nat → α → List (Session Y) → Shared Y → Prop) (worker : Nat)
    (state : Worker Y α) (shared : Shared Y) : Prop where
  footprints : ∀ session ∈ state.stack,
    Footprint session.keys session.writes shared.committed
  separate : state.stack.Pairwise fun upper lower =>
    ∀ lock ∈ upper.locks, lock ∉ lower.locks
  marks : ∀ top rest, (top :: rest) <:+ state.stack → ∀ label ∈ top.marks,
    D.Allows label (top :: rest) rest shared.committed
  program : wp D worker state.program (post worker) state.stack shared

/-- The invariant of a run: the discipline's own, exclusive locks, and every
worker ready for its next step. -/
structure Sound {Y : System} {α : Type} (D : Discipline Y)
    (post : Nat → α → List (Session Y) → Shared Y → Prop) (config : Config Y α) :
    Prop where
  good : D.Good config.shared
  exclusive : ∀ (first second : Nat) (a b : Worker Y α), first ≠ second →
    config.workers[first]? = some a → config.workers[second]? = some b →
    ∀ lock, Held a.stack lock → ¬ Held b.stack lock
  ready : ∀ (worker : Nat) (state : Worker Y α), config.workers[worker]? = some state →
    Ready D post worker state config.shared

/-- A final assertion that the steps of other workers keep. -/
def StablePost {Y : System} {α : Type} (D : Discipline Y)
    (post : Nat → α → List (Session Y) → Shared Y → Prop) : Prop :=
  ∀ worker value stack shared shared', D.Good shared →
    D.Rely worker (Held stack) shared shared' →
    post worker value stack shared → post worker value stack shared'

namespace Ready

variable {Y : System} {α : Type} {D : Discipline Y}
  {post : Nat → α → List (Session Y) → Shared Y → Prop} {worker : Nat}
  {state : Worker Y α} {shared shared' : Shared Y}

theorem of_interference (stable : StablePost D post) (good : D.Good shared)
    (ready : Ready D post worker state shared)
    (step : D.Interference worker (Held state.stack) shared shared') :
    Ready D post worker state shared' where
  footprints session hsession :=
    (ready.footprints session hsession).of_agree
      (step.later.agree.mono fun _ hkey => ⟨session, hsession, hkey⟩) step.later.unique
  separate := ready.separate
  marks top rest hsuffix label hlabel :=
    (ready.marks top rest hsuffix label hlabel).grow step.later.grows
  program :=
    have hrely := Relation.ReflTransGen.single step
    wp_rely (fun value => stable worker value _ _ _ good hrely) ready.program hrely

/-- Closing the top session keeps what is known of the others. -/
theorem pop {top : Session Y} {rest : List (Session Y)} {program next : Program Y α}
    (ready : Ready D post worker ⟨top :: rest, program⟩ shared)
    (hagree : ∀ session ∈ rest,
      Footprint session.keys session.writes shared'.committed)
    (grows : Extends shared.committed shared'.committed)
    (hnext : wp D worker next (post worker) rest shared') :
    Ready D post worker ⟨rest, next⟩ shared' where
  footprints := hagree
  separate := (List.pairwise_cons.mp ready.separate).2
  marks upper lower hsuffix label hlabel :=
    (ready.marks upper lower (hsuffix.trans (List.suffix_cons top rest)) label
      hlabel).grow grows
  program := hnext

end Ready

namespace Sound

variable {Y : System} {α : Type} {D : Discipline Y}
  {post : Nat → α → List (Session Y) → Shared Y → Prop} {config : Config Y α}

/-- One worker moved from `state` to `state'` and the shared state with it. -/
theorem set (stable : StablePost D post) (sound : Sound D post config) {worker : Nat}
    {state state' : Worker Y α} {shared' : Shared Y}
    (hstate : config.workers[worker]? = some state) (good : D.Good shared')
    (hlocks : ∀ lock, Held state'.stack lock → Held state.stack lock ∨
      ∀ (other : Nat) (b : Worker Y α), other ≠ worker → config.workers[other]? = some b →
        ¬ Held b.stack lock)
    (hstep : shared' = config.shared ∨
      ∀ (other : Nat) (b : Worker Y α), other ≠ worker → config.workers[other]? = some b →
        D.Interference other (Held b.stack) config.shared shared')
    (hready : Ready D post worker state' shared') :
    Sound D post { shared := shared', workers := config.workers.set worker state' } := by
  have hother (other : Nat) (b : Worker Y α) (hne : other ≠ worker)
      (hb : (config.workers.set worker state')[other]? = some b) :
      config.workers[other]? = some b := by
    rwa [List.getElem?_set_ne (Ne.symm hne)] at hb
  have hself (b : Worker Y α)
      (hb : (config.workers.set worker state')[worker]? = some b) : b = state' := by
    rw [List.getElem?_set] at hb
    simp only [if_true] at hb
    split at hb <;> simp_all
  have hfresh (other : Nat) (b : Worker Y α) (hne : other ≠ worker)
      (hb : config.workers[other]? = some b) (lock : Lock Y)
      (hlock : Held state'.stack lock) : ¬ Held b.stack lock :=
    (hlocks lock hlock).elim
      (fun hold => sound.exclusive worker other state b (Ne.symm hne) hstate hb lock hold)
      (fun hnone => hnone other b hne hb)
  refine ⟨good, ?_, ?_⟩
  · intro first second a b hne ha hb lock hheld
    by_cases hfirst : first = worker
    · subst hfirst
      rw [hself a ha] at hheld
      exact hfresh second b (Ne.symm hne) (hother second b (Ne.symm hne) hb) lock hheld
    · have ha' := hother first a hfirst ha
      by_cases hsecond : second = worker
      · subst hsecond
        rw [hself b hb]
        exact fun h => hfresh first a hfirst ha' lock h hheld
      · exact sound.exclusive first second a b hne ha' (hother second b hsecond hb) lock hheld
  · intro other b hb
    by_cases hne : other = worker
    · subst hne
      rw [hself b hb]
      exact hready
    · have hb' := hother other b hne hb
      cases hstep with
      | inl hsame => rw [hsame]; exact sound.ready other b hb'
      | inr hinterfere =>
          exact (sound.ready other b hb').of_interference stable sound.good
            (hinterfere other b hne hb')

/-- A step that leaves the committed rows alone interferes with nobody's keys. -/
theorem interference (sound : Sound D post config) {worker : Nat} {state : Worker Y α}
    (hstate : config.workers[worker]? = some state) {shared' : Shared Y}
    (later : ∀ (other : Nat) (b : Worker Y α), other ≠ worker →
      config.workers[other]? = some b → Later (fun key => Held b.stack (.key key))
        config.shared.committed shared'.committed)
    (hguarantee : D.guarantee worker (Held state.stack) config.shared shared')
    (hinvariant : D.invariant shared')
    (hevent : ∃ event, shared'.trace = config.shared.trace ++ [(worker, event)])
    (other : Nat) (b : Worker Y α)
    (hne : other ≠ worker) (hb : config.workers[other]? = some b) :
    D.Interference other (Held b.stack) config.shared shared' where
  later := later other b hne hb
  invariant := hinvariant
  cause := .inr ⟨worker, Ne.symm hne, Held state.stack,
    fun lock => sound.exclusive other worker b state hne hb hstate lock, hguarantee, hevent⟩

/-- A commit changes only rows whose keys the committing session has locked. -/
theorem later_commit (sound : Sound D post config) {worker : Nat}
    {top : Session Y} {rest : List (Session Y)} {program : Program Y α}
    (hstate : config.workers[worker]? = some ⟨top :: rest, program⟩)
    {locked : Y.schema.Key → Prop} (hlocked : ∀ key, locked key → Lock.key key ∉ top.locks) :
    Later locked config.shared.committed (config.shared.commit worker top).committed where
  agree table key hkey :=
    (((sound.ready worker _ hstate).footprints top List.mem_cons_self).frame _
      (Agree.refl _ _) sound.good.1 table key (hlocked key hkey)).symm
  grows := applyAll_extends _ _
  unique := ((sound.ready worker _ hstate).footprints top List.mem_cons_self).unique _
    (Agree.refl _ _) sound.good.1

theorem statement (stable : StablePost D post) (sound : Sound D post config)
    {worker : Nat} {β : Type} {statement : Statement Y β} {next : β → Program Y α}
    {top : Session Y} {rest : List (Session Y)}
    (hstate : config.workers[worker]? = some ⟨top :: rest, .run statement next⟩)
    {choice : Y.Choice} {outcome : Outcome Y β}
    (hexec : statement.exec config.shared.world choice (config.free worker rest)
      (top.view config.shared.committed) = some outcome) :
    Sound D post (config.setWorker worker
      ⟨top.extend outcome :: rest, next outcome.value⟩) := by
  have hready := sound.ready worker _ hstate
  have hfoot := hready.footprints top List.mem_cons_self
  have hview : Unique (top.view config.shared.committed) :=
    hfoot.unique _ (Agree.refl _ _) sound.good.1
  have hfree : ∀ lock ∈ outcome.locks, config.free worker rest lock = true :=
    statement.exec_free hexec
  have hrest : ∀ lock ∈ outcome.locks, ¬ Held rest lock := by
    intro lock hlock
    have hone := hfree lock hlock
    simp only [Config.free, Bool.and_eq_true, Bool.not_eq_true', decide_eq_false_iff_not]
      at hone
    exact hone.1
  refine sound.set stable hstate sound.good ?_ (.inl rfl) ⟨?_, ?_, ?_, ?_⟩
  · intro lock hlock
    simp only [held_cons, Session.extend, List.mem_append] at hlock
    rcases hlock with (htop | hnew) | hbelow
    · exact .inl (held_cons.mpr (.inl htop))
    · refine .inr fun other b hne hb hheld => ?_
      have hone := hfree lock hnew
      simp only [Config.free, Bool.and_eq_true, List.all_eq_true] at hone
      have hentry : (b, other) ∈ config.workers.zipIdx :=
        List.mem_zipIdx_iff_getElem?.mpr hb
      have hblocked := hone.2 _ hentry
      simp [hne, hheld] at hblocked
    · exact .inl (held_cons.mpr (.inr hbelow))
  · intro session hsession
    rcases List.mem_cons.mp hsession with rfl | hbelow
    · refine hfoot.append (fun key hkey => List.mem_append_left _ hkey) sound.good.1 ?_
      exact statement.exec_footprint hview hexec fun key hkey => List.mem_append_right _ hkey
    · exact hready.footprints session (List.mem_cons_of_mem _ hbelow)
  · have hseparate := List.pairwise_cons.mp hready.separate
    refine List.pairwise_cons.mpr ⟨fun lower hlower lock hlock => ?_, hseparate.2⟩
    rcases List.mem_append.mp hlock with hold | hnew
    · exact hseparate.1 lower hlower lock hold
    · exact fun h => hrest lock hnew ⟨lower, hlower, h⟩
  · intro upper lower hsuffix label hlabel
    rcases List.suffix_cons_iff.mp hsuffix with heq | hbelow
    · obtain ⟨rfl, rfl⟩ := List.cons.inj heq
      exact (hready.marks top lower (List.suffix_refl _) label hlabel).widen
        fun lock hlock => List.mem_append_left _ hlock
    · exact hready.marks upper lower (hbelow.trans (List.suffix_cons top rest)) label hlabel
  · exact hready.program _ (Discipline.Rely.refl _ _ _) sound.good top rest rfl hfoot
      choice _ outcome hexec

theorem advance (stable : StablePost D post) (sound : Sound D post config)
    {worker : Nat} {choice : Y.Choice} {config' : Config Y α}
    (hstep : config.advance worker choice = some config')
    (hpermits : ∀ other stack move,
      config.move (.advance worker choice) = some (other, stack, move) →
      D.permits other stack config.shared move) :
    Sound D post config' := by
  unfold Config.advance at hstep
  cases hstate : config.workers[worker]? with
  | none => simp [hstate] at hstep
  | some state =>
    obtain ⟨stack, program⟩ := state
    have hready := sound.ready worker _ hstate
    have hgood := sound.good
    have hrefl := Discipline.Rely.refl (D := D) worker (Held stack) config.shared
    simp only [hstate] at hstep
    cases program with
    | ret value => cases hstep
    | halt => cases hstep
    | run statement next =>
        cases stack with
        | nil => cases hstep
        | cons top rest =>
            obtain ⟨outcome, hexec, rfl⟩ := Option.map_eq_some_iff.mp hstep
            exact sound.statement stable hstate hexec
    | enter name next =>
        cases hstep
        have hmove := hpermits worker stack (.enter name) (by simp [Config.move, hstate])
        obtain ⟨hguarantee, hinvariant⟩ := D.enter_sound worker stack _ name hgood.2 hmove
        refine sound.set stable hstate ⟨hgood.1, hinvariant⟩ ?_
          (.inr (sound.interference hstate (fun _ _ _ _ => Later.refl _ hgood.1)
            hguarantee hinvariant ⟨_, rfl⟩)) ⟨?_, ?_, ?_, ?_⟩
        · intro lock hlock
          exact .inl (by simpa [Session.fresh] using hlock)
        · intro session hsession
          rcases List.mem_cons.mp hsession with rfl | hbelow
          · exact Footprint.nil _ _
          · exact hready.footprints session hbelow
        · exact List.pairwise_cons.mpr ⟨by simp [Session.fresh], hready.separate⟩
        · intro upper lower hsuffix label hlabel
          rcases List.suffix_cons_iff.mp hsuffix with heq | hbelow
          · obtain ⟨rfl, rfl⟩ := List.cons.inj heq
            simp [Session.fresh] at hlabel
          · exact hready.marks upper lower hbelow label hlabel
        · exact hready.program _ hrefl hgood hmove
    | leave commit next =>
        cases stack with
        | nil => cases commit <;> cases hstep
        | cons top rest =>
          have hseparate := List.pairwise_cons.mp hready.separate
          have hbelow (lock : Lock Y) (hlock : Held rest lock) : Held (top :: rest) lock :=
            held_cons.mpr (.inr hlock)
          cases commit with
          | true =>
              cases hstep
              have hmove := hpermits worker (top :: rest) .commit
                (by simp [Config.move, hstate])
              obtain ⟨hguarantee, hinvariant, hnext⟩ := hready.program _ hrefl hgood top rest rfl
                (hready.footprints top List.mem_cons_self) hmove
              have hlater := fun (locked : Y.schema.Key → Prop)
                  (h : ∀ key, locked key → Lock.key key ∉ top.locks) =>
                sound.later_commit hstate h
              refine sound.set stable hstate
                ⟨(hlater (fun _ => False) (fun _ h => h.elim)).unique, hinvariant⟩
                (fun lock hlock => .inl (hbelow lock hlock))
                (.inr (sound.interference hstate ?_ hguarantee hinvariant ⟨_, rfl⟩))
                (hready.pop ?_ (applyAll_extends _ _) hnext)
              · intro other b hne hb
                refine hlater _ fun key hkey hlock => ?_
                exact sound.exclusive other worker b _ hne hb hstate _ hkey
                  (held_cons.mpr (.inl hlock))
              · intro session hsession
                have hkeys := hlater session.keys
                  fun key hkey hlock => hseparate.1 session hsession _ hlock hkey
                exact (hready.footprints session (List.mem_cons_of_mem _ hsession)).of_agree
                  hkeys.agree hkeys.unique
          | false =>
              cases hstep
              have hmove := hpermits worker (top :: rest) .rollback
                (by simp [Config.move, hstate])
              obtain ⟨hguarantee, hinvariant⟩ :=
                D.rollback_sound worker top rest _ hgood.2 hmove
              exact sound.set stable hstate ⟨hgood.1, hinvariant⟩
                (fun lock hlock => .inl (hbelow lock hlock))
                (.inr (sound.interference hstate (fun _ _ _ _ => Later.refl _ hgood.1)
                  hguarantee hinvariant ⟨_, rfl⟩))
                (hready.pop
                  (fun session hsession =>
                    hready.footprints session (List.mem_cons_of_mem _ hsession))
                  (Extends.refl _) (hready.program _ hrefl hgood top rest rfl hmove))
    | call request next =>
        obtain ⟨answer, hanswer, rfl⟩ := Option.map_eq_some_iff.mp hstep
        have hmove := hpermits worker stack (.call request answer.1 answer.2)
          (by simp [Config.move, hstate, hanswer])
        obtain ⟨hguarantee, hinvariant, hnext⟩ :=
          hready.program _ hrefl hgood choice answer.1 answer.2 hanswer hmove
        exact sound.set stable hstate ⟨hgood.1, hinvariant⟩ (fun lock hlock => .inl hlock)
          (.inr (sound.interference hstate (fun _ _ _ _ => Later.refl _ hgood.1)
            hguarantee hinvariant ⟨_, rfl⟩))
          ⟨hready.footprints, hready.separate, hready.marks, hnext⟩
    | mark label next =>
        cases stack with
        | nil => cases hstep
        | cons top rest =>
            cases hstep
            obtain ⟨hallows, hnext⟩ := hready.program _ hrefl hgood top rest rfl
            refine sound.set stable hstate hgood ?_ (.inl rfl) ⟨?_, ?_, ?_, hnext⟩
            · exact fun lock hlock => .inl (by simpa using hlock)
            · intro session hsession
              rcases List.mem_cons.mp hsession with rfl | hbelow
              · exact hready.footprints top List.mem_cons_self
              · exact hready.footprints session (List.mem_cons_of_mem _ hbelow)
            · have hseparate := List.pairwise_cons.mp hready.separate
              exact List.pairwise_cons.mpr hseparate
            · intro upper lower hsuffix mark hmark
              rcases List.suffix_cons_iff.mp hsuffix with heq | hbelow
              · obtain ⟨rfl, rfl⟩ := List.cons.inj heq
                have hold : D.Allows mark (top :: lower) lower config.shared.committed := by
                  rcases List.mem_append.mp hmark with hold | hnew
                  · exact hready.marks top lower (List.suffix_refl _) mark hold
                  · rw [List.mem_singleton.mp hnew]
                    exact hallows
                exact hold.widen fun _ h => h
              · exact hready.marks upper lower (hbelow.trans (List.suffix_cons top rest)) mark
                  hmark

/-- One permitted step keeps the invariant of all workers. -/
theorem step (stable : StablePost D post) (sound : Sound D post config)
    {config' : Config Y α} (hstep : config.Step D.permits config') :
    Sound D post config' := by
  obtain ⟨action, hstep, hpermits⟩ := hstep
  cases action with
  | advance worker choice => exact sound.advance stable hstep hpermits
  | crash worker =>
      simp only [Config.step] at hstep
      split at hstep
      · next hlength =>
          cases hstep
          have hstate : config.workers[worker]? = some config.workers[worker] :=
            List.getElem?_eq_getElem hlength
          have hmove := hpermits worker config.workers[worker].stack .crash
            (by simp [Config.move, hstate])
          obtain ⟨hguarantee, hinvariant⟩ :=
            D.crash_sound worker _ _ sound.good.2 hmove
          refine sound.set stable hstate ⟨sound.good.1, hinvariant⟩
            (fun lock hlock => absurd hlock held_nil)
            (.inr (sound.interference hstate (fun _ _ _ _ => Later.refl _ sound.good.1)
              hguarantee hinvariant ⟨_, rfl⟩)) ⟨?_, List.Pairwise.nil, ?_, trivial⟩
          · intro session hsession
            cases hsession
          · intro upper lower hsuffix
            cases List.suffix_nil.mp hsuffix
      · cases hstep
  | drift choice =>
      obtain ⟨world, hworld, rfl⟩ := Option.map_eq_some_iff.mp hstep
      have hinvariant := D.drift_sound _ choice world sound.good.2 hworld
      refine ⟨⟨sound.good.1, hinvariant⟩, sound.exclusive, fun worker state hstate => ?_⟩
      exact (sound.ready worker state hstate).of_interference stable sound.good
        ⟨Later.refl _ sound.good.1, hinvariant, .inl ⟨choice, world, hworld, rfl⟩⟩

/-- Every configuration that a permitted run reaches keeps the invariant. -/
theorem run (stable : StablePost D post) (sound : Sound D post config)
    {config' : Config Y α} (hrun : config.Run D.permits config') :
    Sound D post config' := by
  induction hrun with
  | refl => exact sound
  | tail _ hstep ih => exact ih.step stable hstep

/-- The invariant holds where the workers begin. -/
theorem start {committed : Y.schema.Database} {world : Y.World}
    {programs : List (Program Y α)} (good : D.Good ⟨committed, world, []⟩)
    (hprograms : ∀ (worker : Nat) (program : Program Y α),
      programs[worker]? = some program →
      wp D worker program (post worker) [] ⟨committed, world, []⟩) :
    Sound D post (Config.start committed world programs) := by
  have hfresh (worker : Nat) (state : Worker Y α)
      (hstate : (Config.start committed world programs).workers[worker]? = some state) :
      ∃ program, programs[worker]? = some program ∧ state = ⟨[], program⟩ := by
    simp only [Config.start, List.getElem?_map, Option.map_eq_some_iff] at hstate
    obtain ⟨program, hprogram, rfl⟩ := hstate
    exact ⟨program, hprogram, rfl⟩
  refine ⟨good, ?_, ?_⟩
  · intro first second a b _ ha _ lock hlock
    obtain ⟨program, _, rfl⟩ := hfresh first a ha
    exact absurd hlock held_nil
  · intro worker state hstate
    obtain ⟨program, hprogram, rfl⟩ := hfresh worker state hstate
    refine ⟨fun session hsession => ?_, List.Pairwise.nil, fun upper lower hsuffix => ?_,
      hprograms worker program hprogram⟩
    · cases hsession
    · cases List.suffix_nil.mp hsuffix

/-- A session that carries a mark holds the lock that the mark requires, or one
below it does. -/
theorem held_of_mark (sound : Sound D post config) {worker : Nat} {state : Worker Y α}
    (hstate : config.workers[worker]? = some state) {session : Session Y}
    (hsession : session ∈ state.stack) {label : Y.Mark} (hlabel : label ∈ session.marks)
    {lock : Lock Y} (hrequired : D.required label = some lock) :
    Held state.stack lock := by
  obtain ⟨above, below, hsplit⟩ := List.append_of_mem hsession
  have hsuffix : (session :: below) <:+ state.stack := ⟨above, hsplit.symm⟩
  exact (((sound.ready worker state hstate).marks session below hsuffix label hlabel).held
    lock hrequired).of_suffix hsuffix

/-- What a mark means is so as long as its session is open. -/
theorem means_of_mark (sound : Sound D post config) {worker : Nat} {state : Worker Y α}
    (hstate : config.workers[worker]? = some state) {session : Session Y}
    (hsession : session ∈ state.stack) {label : Y.Mark} (hlabel : label ∈ session.marks) :
    D.meaning label config.shared.committed := by
  obtain ⟨above, below, hsplit⟩ := List.append_of_mem hsession
  exact ((sound.ready worker state hstate).marks session below ⟨above, hsplit.symm⟩ label
    hlabel).means

/-- No two open sessions, of two workers or of one, carry marks that require the
same lock. -/
theorem marks_exclusive (sound : Sound D post config) {first second : Nat}
    {a b : Worker Y α} (ha : config.workers[first]? = some a)
    (hb : config.workers[second]? = some b) {i j : Nat} {upper lower : Session Y}
    (hupper : a.stack[i]? = some upper) (hlower : b.stack[j]? = some lower)
    {mark label : Y.Mark} (hmark : mark ∈ upper.marks) (hlabel : label ∈ lower.marks)
    {lock : Lock Y} (hrequired : D.required mark = some lock)
    (hrequired' : D.required label = some lock) : first = second ∧ i = j := by
  have hne : ¬ first ≠ second := fun hne =>
    sound.exclusive first second a b hne ha hb lock
      (sound.held_of_mark ha (List.mem_of_getElem? hupper) hmark hrequired)
      (sound.held_of_mark hb (List.mem_of_getElem? hlower) hlabel hrequired')
  obtain rfl := not_not.mp hne
  obtain rfl := Option.some.inj (ha.symm.trans hb)
  -- Of two sessions in one stack, the upper one was not allowed its mark.
  have habove {i j : Nat} {upper lower : Session Y} (hupper : a.stack[i]? = some upper)
      (hlower : a.stack[j]? = some lower) {mark label : Y.Mark} (hmark : mark ∈ upper.marks)
      (hlabel : label ∈ lower.marks) (hrequired : D.required mark = some lock)
      (hrequired' : D.required label = some lock) : ¬ i < j := by
    intro hlt
    obtain ⟨hi, rfl⟩ := List.getElem?_eq_some_iff.mp hupper
    have hsuffix : (a.stack[i] :: a.stack.drop (i + 1)) <:+ a.stack := by
      rw [← List.drop_eq_getElem_cons hi]
      exact List.drop_suffix i a.stack
    have hbelow : lower ∈ a.stack.drop (i + 1) := by
      refine List.mem_of_getElem? (i := j - (i + 1)) ?_
      rw [List.getElem?_drop, ← hlower]
      congr 1
      omega
    exact ((sound.ready first a ha).marks _ _ hsuffix mark hmark).single lock hrequired lower
      hbelow label hlabel hrequired'
  have hij := habove hupper hlower hmark hlabel hrequired hrequired'
  have hji := habove hlower hupper hlabel hmark hrequired' hrequired
  exact ⟨rfl, by omega⟩

end Sound

end PayzenoLedger.Library
