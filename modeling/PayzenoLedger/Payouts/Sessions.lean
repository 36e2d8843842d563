import PayzenoLedger.Payouts.Law

/-!
# The transactions on payouts, among others

What every transaction guarantees to the others: time goes on, and only the holder of the
lock of a balance pays out of it.  A transaction is described by the fact to which its writes
lead from the law, on whichever database they are committed.
-/

set_option autoImplicit false

namespace PayzenoLedger

open Library Write

/-! ## The discipline -/

/-- The lock of a balance. -/
def balanceLock (settings : Settings) (merchantId currency : String) : Lock system :=
  .advisory (AdvisoryLockManager.key settings (merchantId ++ ":" ++ currency))

/-- The law holds, no more was paid out of a balance than was credited to it, and no entry
is from the future. -/
structure PayoutInvariant (quiet : Prop) (shared : Shared system) : Prop where
  law : PayoutLaw quiet shared.committed
  credited : ∀ merchantId currency livemode,
    drawn merchantId currency livemode shared.committed ≤
      payableSum .credit merchantId currency livemode shared.committed
  dated : ∀ entry ∈ shared.committed.entries, entry.createdAt ≤ shared.world.clock

/-- What a step leaves to the others. -/
structure PayoutGuarantee (settings : Settings) (held : Lock system → Prop)
    (before after : Shared system) : Prop where
  clock : before.world.clock ≤ after.world.clock
  drawn : ∀ merchantId currency, ¬ held (balanceLock settings merchantId currency) →
    ∀ livemode, drawn merchantId currency livemode after.committed ≤
      drawn merchantId currency livemode before.committed

/-- A step that leaves the database and the world. -/
theorem PayoutGuarantee.same {settings : Settings} {held : Lock system → Prop}
    {before after : Shared system} (hcommitted : after.committed = before.committed)
    (hworld : after.world = before.world) : PayoutGuarantee settings held before after where
  clock := by rw [hworld]
  drawn _ _ _ _ := by rw [hcommitted]

theorem drift_clock {choice : Choice} {world world' : World}
    (h : World.drift choice world = some world') : world.clock ≤ world'.clock := by
  unfold World.drift at h
  split at h
  · split at h
    · next hle =>
        cases h
        exact hle
    · cases h
  · cases h

def payoutDiscipline (settings : Settings) (quiet : Prop) : Discipline system where
  permits := anyMove
  guarantee _ := PayoutGuarantee settings
  invariant := PayoutInvariant quiet
  required _ := none
  meaning _ _ := True
  meaning_extends _ _ _ _ h := h
  drift_sound _ _ _ h hdrift :=
    ⟨h.law, h.credited, fun entry hentry => (h.dated entry hentry).trans (drift_clock hdrift)⟩
  enter_sound _ _ _ _ h _ := ⟨.same rfl rfl, h.law, h.credited, h.dated⟩
  rollback_sound _ _ _ _ h _ := ⟨.same rfl rfl, h.law, h.credited, h.dated⟩
  crash_sound _ _ _ h _ := ⟨.same rfl rfl, h.law, h.credited, h.dated⟩

section Environment

variable {settings : Settings} {quiet : Prop} {worker : Nat} {held : Lock system → Prop}
  {shared shared' : Shared system} {merchantId currency : String}

theorem clock_le_of_rely
    (rely : (payoutDiscipline settings quiet).Rely worker held shared shared') :
    shared.world.clock ≤ shared'.world.clock := by
  induction rely with
  | refl => exact Nat.le_refl _
  | tail _ step ih =>
      refine ih.trans ?_
      rcases step.cause with ⟨choice, world, hdrift, rfl⟩ | ⟨other, -, held', -, guarantee, -⟩
      · exact drift_clock hdrift
      · exact guarantee.clock

/-- Nobody else pays out of a balance whose lock the worker holds. -/
theorem drawn_le_of_rely
    (rely : (payoutDiscipline settings quiet).Rely worker held shared shared')
    (hheld : held (balanceLock settings merchantId currency)) (livemode : Bool) :
    drawn merchantId currency livemode shared'.committed ≤
      drawn merchantId currency livemode shared.committed := by
  induction rely with
  | refl => exact Int.le_refl _
  | tail _ step ih =>
      refine Int.le_trans ?_ ih
      rcases step.cause with
        ⟨choice, world, hdrift, rfl⟩ | ⟨other, -, held', hdisjoint, guarantee, -⟩
      · exact Int.le_refl _
      · exact guarantee.drawn merchantId currency (hdisjoint _ hheld) livemode

theorem payableWeight_nonneg {db : Database} (ledger : DoubleEntry db) {direction : Direction}
    {livemode : Bool} {entry : LedgerEntry} (hentry : entry ∈ db.entries)
    (identity : AccountIdentity) :
    0 ≤ payableWeight direction merchantId currency livemode entry identity := by
  unfold payableWeight
  split
  · exact (ledger.positive entry hentry).le
  · exact le_refl _

/-- What was entered on a payable account stays entered. -/
theorem payableSum_le_of_extends {db db' : Database} {direction : Direction} {livemode : Bool}
    (grows : Schema.Extends (S := schema) db db') (unique : Schema.Unique (S := schema) db)
    (unique' : Schema.Unique (S := schema) db') (ledger : DoubleEntry db)
    (ledger' : DoubleEntry db') :
    payableSum direction merchantId currency livemode db ≤
      payableSum direction merchantId currency livemode db' :=
  weigh_le_of_extends grows unique unique' ledger (fun _ _ _ => le_refl _)
    fun _ hentry identity => payableWeight_nonneg ledger' hentry identity

theorem payableSum_le_of_rely
    (rely : (payoutDiscipline settings quiet).Rely worker held shared shared')
    (good : (payoutDiscipline settings quiet).Good shared) (direction : Direction)
    (livemode : Bool) :
    payableSum direction merchantId currency livemode shared.committed ≤
      payableSum direction merchantId currency livemode shared'.committed := by
  have good' := rely.good good
  exact payableSum_le_of_extends (rely.later good).grows good.1 good'.1 good.2.law.ledger
    good'.2.law.ledger

end Environment

/-! ## A transaction on its way -/

section Sessions

variable {settings : Settings} {quiet : Prop} {worker : Nat} {created created' : List Payout}
  {fact fact' : Database → Prop} {top top' : Session system}
  {shared shared' : Shared system}

/-- The writes lead from the law to a fact, the entries among them are dated, and these
payouts are created. -/
structure PayoutSession (settings : Settings) (quiet : Prop) (worker : Nat)
    (created : List Payout) (fact : Database → Prop) (top : Session system)
    (shared : Shared system) : Prop where
  here : Progress (payoutDiscipline settings quiet) worker [] top shared top shared
  leads : ∀ db, Schema.Later (S := schema) top.keys shared.committed db → PayoutLaw quiet db →
    fact (applyAll top.writes db)
  dated : ∀ entry ∈ added (S := schema) Table.ledgerEntry top.writes,
    entry.createdAt ≤ shared.world.clock
  created : added (S := schema) Table.payout top.writes = created.map Payout.terms

/-- The session went on to this one. -/
def Reached (settings : Settings) (quiet : Prop) (worker : Nat) (created : List Payout)
    (fact : Database → Prop) (top : Session system) (shared : Shared system)
    (stack : List (Session system)) (shared' : Shared system) : Prop :=
  ∃ top', stack = [top'] ∧
    Progress (payoutDiscipline settings quiet) worker [] top shared top' shared' ∧
    PayoutSession settings quiet worker created fact top' shared'

theorem Reached.trans {stack : List (Session system)} {shared'' : Shared system}
    (progress : Progress (payoutDiscipline settings quiet) worker [] top shared top' shared')
    (reached : Reached settings quiet worker created fact top' shared' stack shared'') :
    Reached settings quiet worker created fact top shared stack shared'' := by
  obtain ⟨top'', hstack, progress', session⟩ := reached
  exact ⟨top'', hstack, progress.trans progress', session⟩

/-- One stretch of the session after another. -/
theorem Reached.wpr_bind {α β : Type} {program : Async α} {next : α → Async β}
    {mid : α → Database → Prop} {last : β → Database → Prop}
    {error : Exception → List (Session system) → Shared system → Prop}
    (h : wpr (payoutDiscipline settings quiet) worker program
      (fun value => Reached settings quiet worker created (mid value) top shared) error [top]
      shared)
    (hnext : ∀ value top' shared', PayoutSession settings quiet worker created (mid value) top'
        shared' →
      wpr (payoutDiscipline settings quiet) worker (next value)
        (fun value' => Reached settings quiet worker created' (last value') top' shared') error
        [top'] shared') :
    wpr (payoutDiscipline settings quiet) worker (program >>= next)
      (fun value' => Reached settings quiet worker created' (last value') top shared) error [top]
      shared := by
  rw [Library.wpr_bind]
  refine wpr_mono h ?_ fun _ _ _ h => h
  rintro value _ shared' ⟨top', rfl, progress, session⟩
  exact wpr_mono (hnext value top' shared' session) (fun _ _ _ reached => reached.trans progress)
    fun _ _ _ h => h

theorem added_append (table : Table) (first second : List (Write schema)) :
    added (S := schema) table (first ++ second) = added table first ++ added table second := by
  induction first with
  | nil => rfl
  | cons write first ih =>
      cases write with
      | insert other row => rw [List.cons_append, added, added, ih, List.append_assoc]
      | update other key change immutable => rw [List.cons_append, added, added, ih]

namespace PayoutSession

theorem start {name : SessionName} (good : (payoutDiscipline settings quiet).Good shared) :
    PayoutSession settings quiet worker [] (PayoutLaw quiet) (Session.fresh name) shared where
  here := .start good
  leads _ _ law := law
  dated _ h := absurd h List.not_mem_nil
  created := rfl

theorem same (session : PayoutSession settings quiet worker created fact top shared)
    (progress : Progress (payoutDiscipline settings quiet) worker [] top shared top shared') :
    PayoutSession settings quiet worker created fact top shared' where
  here := progress.here
  leads db later law := session.leads db ((progress.later session.here.good).trans later) law
  dated entry h := (session.dated entry h).trans (clock_le_of_rely progress.rely)
  created := session.created

/-- The session took a lock, and wrote nothing. -/
theorem locked (session : PayoutSession settings quiet worker created fact top shared)
    (progress : Progress (payoutDiscipline settings quiet) worker [] top shared top' shared')
    (hwrites : top'.writes = top.writes) :
    PayoutSession settings quiet worker created fact top' shared' where
  here := progress.here
  leads db later law := by
    rw [hwrites]
    exact session.leads db ((progress.later session.here.good).trans
      (later.mono progress.keys)) law
  dated entry h := by
    rw [hwrites] at h
    exact (session.dated entry h).trans (clock_le_of_rely progress.rely)
  created := by rw [hwrites]; exact session.created

theorem imp (session : PayoutSession settings quiet worker created fact top shared)
    (h : ∀ db, fact db → fact' db) :
    PayoutSession settings quiet worker created fact' top shared where
  here := session.here
  leads db later law := h _ (session.leads db later law)
  dated := session.dated
  created := session.created

/-- The session goes on with further writes. -/
theorem append {Valid : Database → Prop} {more : List (Write schema)}
    (session : PayoutSession settings quiet worker created fact top shared)
    (progress : Progress (payoutDiscipline settings quiet) worker [] top shared top' shared')
    (hwrites : top'.writes = top.writes ++ more)
    (seen : Seen top'.keys top.writes shared' Valid)
    (keep : ∀ db, Valid db → fact db → fact' (applyAll more db))
    (hdated : ∀ entry ∈ added (S := schema) Table.ledgerEntry more,
      entry.createdAt ≤ shared'.world.clock)
    (hcreated : added (S := schema) Table.payout more = created'.map Payout.terms) :
    PayoutSession settings quiet worker (created ++ created') fact' top' shared' where
  here := progress.here
  leads db later law := by
    rw [hwrites, applyAll_append]
    refine keep _ (seen db later) (session.leads db ?_ law)
    exact (progress.later session.here.good).trans (later.mono progress.keys)
  dated entry h := by
    rw [hwrites, added_append] at h
    rcases List.mem_append.mp h with hold | hnew
    · exact (session.dated entry hold).trans (clock_le_of_rely progress.rely)
    · exact hdated entry hnew
  created := by
    rw [hwrites, added_append, session.created, hcreated, List.map_append]

/-- Further writes that create no payout. -/
theorem write {Valid : Database → Prop} {more : List (Write schema)}
    (session : PayoutSession settings quiet worker created fact top shared)
    (progress : Progress (payoutDiscipline settings quiet) worker [] top shared top' shared')
    (hwrites : top'.writes = top.writes ++ more)
    (seen : Seen (Y := system) top'.keys top.writes shared' Valid)
    (keep : ∀ db, Valid db → fact db → fact' (applyAll more db))
    (hdated : ∀ entry ∈ added (S := schema) Table.ledgerEntry more,
      entry.createdAt ≤ shared'.world.clock)
    (hnone : added (S := schema) Table.payout more = []) :
    PayoutSession settings quiet worker created fact' top' shared' := by
  have h : PayoutSession settings quiet worker (created ++ []) fact' top' shared' :=
    session.append progress hwrites seen keep hdated hnone
  rwa [List.append_nil] at h

/-- Writes that need nothing of the view. -/
theorem seenAny {locked : Key → Prop} {writes : List (Write schema)} :
    Seen (Y := system) locked writes shared fun _ => True :=
  fun _ _ => trivial

/-- What holds of the view now. -/
theorem now (session : PayoutSession settings quiet worker created fact top shared) :
    fact (top.view shared.committed) :=
  session.leads _ (.refl _ session.here.good.1) session.here.good.2.law

end PayoutSession

/-! ## Commits -/

/-- The entries and the payouts of a committed transaction. -/
theorem entries_applyAll (writes : List (Write schema)) (db : Database) :
    (applyAll writes db : Database).entries =
      db.entries ++ added (S := schema) Table.ledgerEntry writes := by
  have h := identities_applyAll (S := schema) Table.ledgerEntry writes db
  have hself (rows : List LedgerEntry) : rows.map Table.ledgerEntry.identity = rows :=
    List.map_id rows
  change (applyAll writes db : Database).entries.map Table.ledgerEntry.identity =
    db.entries.map Table.ledgerEntry.identity ++ _ at h
  rwa [hself, hself] at h

theorem drawn_applyAll (writes : List (Write schema)) (db : Database)
    (hcreated : added (S := schema) Table.payout writes = created.map Payout.terms)
    (merchantId currency : String) (livemode : Bool) :
    drawn merchantId currency livemode (applyAll writes db) =
      drawn merchantId currency livemode db +
        (created.map (Payout.share merchantId currency livemode)).sum := by
  have h := identities_applyAll (S := schema) Table.payout writes db
  rw [hcreated] at h
  change (applyAll writes db : Database).payouts.map Payout.terms =
    db.payouts.map Payout.terms ++ created.map Payout.terms at h
  rw [← List.map_append] at h
  have hdrawn : drawn merchantId currency livemode (applyAll writes db) =
      drawn merchantId currency livemode { db with payouts := db.payouts ++ created } :=
    drawn_of_terms h
  rw [hdrawn, drawn, drawn, List.map_append, List.sum_append]

/-- There is room for an amount among the credits of a balance. -/
def Funded (merchantId currency : String) (livemode : Bool) (amountMinor : Int)
    (shared : Shared system) : Prop :=
  drawn merchantId currency livemode shared.committed + amountMinor ≤
    payableSum .credit merchantId currency livemode shared.committed

theorem Funded.rely {merchantId currency : String} {livemode : Bool} {amountMinor : Int}
    {held : Lock system → Prop} (funded : Funded merchantId currency livemode amountMinor shared)
    (rely : (payoutDiscipline settings quiet).Rely worker held shared shared')
    (good : (payoutDiscipline settings quiet).Good shared)
    (hheld : held (balanceLock settings merchantId currency)) :
    Funded merchantId currency livemode amountMinor shared' := by
  have hdrawn := drawn_le_of_rely rely hheld livemode
  have hcredit : payableSum .credit merchantId currency livemode shared.committed ≤
      payableSum .credit merchantId currency livemode shared'.committed :=
    payableSum_le_of_rely rely good .credit livemode
  unfold Funded at funded ⊢
  omega

/-- The commit of a transaction that keeps the law, and pays out of locked and funded
balances. -/
theorem PayoutSession.commit
    (session : PayoutSession settings quiet worker created (PayoutLaw quiet) top shared)
    (hlocked : ∀ payout ∈ created,
      balanceLock settings payout.merchantId payout.balanceCurrency ∈ top.locks)
    (hfunded : ∀ merchantId currency livemode,
      Funded merchantId currency livemode
        (created.map (Payout.share merchantId currency livemode)).sum shared) :
    PayoutGuarantee settings (Held [top]) shared (shared.commit worker top) ∧
      PayoutInvariant quiet (shared.commit worker top) := by
  have good := session.here.good
  have law : PayoutLaw quiet (shared.commit worker top).committed := session.now
  have hdrawn (merchantId currency : String) (livemode : Bool) :
      drawn merchantId currency livemode (shared.commit worker top).committed = _ :=
    drawn_applyAll top.writes shared.committed session.created merchantId currency livemode
  refine ⟨⟨Nat.le_refl _, fun merchantId currency hfree livemode => ?_⟩, law,
    fun merchantId currency livemode => ?_, fun entry hentry => ?_⟩
  · -- Without the lock of a balance nothing is paid out of it.
    have hnone : (created.map (Payout.share merchantId currency livemode)).sum = 0 := by
      refine List.sum_eq_zero fun value hvalue => ?_
      obtain ⟨payout, hpayout, rfl⟩ := List.mem_map.mp hvalue
      refine if_neg fun hsame => hfree ?_
      rw [← hsame.1, ← hsame.2.1]
      exact ⟨top, List.mem_singleton_self _, hlocked payout hpayout⟩
    rw [hdrawn, hnone, add_zero]
  · have hcredit : payableSum .credit merchantId currency livemode shared.committed ≤
        payableSum .credit merchantId currency livemode (shared.commit worker top).committed :=
      payableSum_le_of_extends (applyAll_extends top.writes _) good.1 session.here.unique
        good.2.law.ledger law.ledger
    have h := hfunded merchantId currency livemode
    rw [hdrawn]
    unfold Funded at h
    omega
  · change entry ∈ (applyAll top.writes shared.committed : Database).entries at hentry
    rw [entries_applyAll] at hentry
    rcases List.mem_append.mp hentry with hold | hnew
    · exact good.2.dated entry hold
    · exact session.dated entry hnew

/-- A transaction that creates no payout only has to keep the law. -/
theorem PayoutSession.commits
    (session : PayoutSession settings quiet worker [] (PayoutLaw quiet) top shared) :
    Commits (payoutDiscipline settings quiet) worker top [] shared fun _ => True := by
  intro shared' rely good foot _
  have session' := session.same (.of_rely session.here.good session.here.foot rely)
  obtain ⟨guarantee, invariant⟩ := session'.commit (fun _ h => absurd h List.not_mem_nil)
    fun merchantId currency livemode => by
      have h := good.2.credited merchantId currency livemode
      simpa [Funded] using h
  exact ⟨guarantee, invariant, trivial⟩

end Sessions

end PayzenoLedger
