import PayzenoLedger.Library.Assured
import PayzenoLedger.System
import Mathlib.Algebra.Ring.Nat

/-!
# Coroutines run alone

Rules for the helpers of a coroutine that runs alone, in runs in which no generated
identifier has been used before and, where an acquirer is called, it agrees.
-/

set_option autoImplicit false

namespace PayzenoLedger

open Library

/-! ## What the environment keeps to -/

instance : Nonempty system.World :=
  ⟨({ clock := 0 } : World)⟩

/-- The identifier in a key that `new_id` generates. -/
def Key.generated : Key → Option String
  | .account id | .transaction id | .entry id | .outbox id | .batch id | .funding id | .run id
  | .item id | .attempt id | .payout id | .hold id | .adjustment id => some id
  | _ => none

/-- No identifier in the database has this body. -/
def Unused (body : String) (db : Database) : Prop :=
  ∀ (table : Table) (row : table.Row), row ∈ table.rows db → ∀ key ∈ table.keys row,
    ∀ id ∈ key.generated, ∀ idPrefix : String, id ≠ idPrefix ++ "_" ++ body

/-- Sooner or later any step may be taken and any new identifier generated, and `new_id`
never repeats itself. -/
structure Orderly (fair : Assumption system) : Prop where
  plain : ∀ past world db, ∃ world', Drifts (Y := system) world world' ∧
    fair past world' db .plain
  instant : ∀ past world db, ∃ world' value, Drifts (Y := system) world world' ∧
    value ≤ world'.clock ∧ fair past world' db (.instant value)
  id : ∀ past world db body, .id body ∉ past → Unused body db →
    ∃ world', Drifts (Y := system) world world' ∧ fair past world' db (.id body)
  fresh : ∀ past world db body, fair past world db (.id body) →
    .id body ∉ past ∧ Unused body db

/-- Nothing but the identifiers is restricted. -/
def freshIds : Assumption system
  | past, _, db, .id body => .id body ∉ past ∧ Unused body db
  | _, _, _, _ => True

/-- The acquirers agree to what they are asked, and no counter is refused. -/
def confirming : Assumption system
  | past, _, db, .id body => .id body ∉ past ∧ Unused body db
  | _, _, _, .fails _ => False
  | _, _, _, .capture (.captured _) => True
  | _, _, _, .capture _ => False
  | _, _, _, _ => True

theorem orderly_freshIds : Orderly freshIds where
  plain _ world _ := ⟨world, .refl _, trivial⟩
  instant _ world _ := ⟨world, world.clock, .refl _, Nat.le_refl _, trivial⟩
  id _ world _ _ hnew hunused := ⟨world, .refl _, hnew, hunused⟩
  fresh _ _ _ _ hfair := hfair

theorem orderly_confirming : Orderly confirming where
  plain _ world _ := ⟨world, .refl _, trivial⟩
  instant _ world _ := ⟨world, world.clock, .refl _, Nat.le_refl _, trivial⟩
  id _ world _ _ hnew hunused := ⟨world, .refl _, hnew, hunused⟩
  fresh _ _ _ _ hfair := hfair

theorem Orderly.live {fair : Assumption system} (orderly : Orderly fair) : fair.Live :=
  fun past world db =>
    have ⟨world', hdrifts, hfair⟩ := orderly.plain past world db
    ⟨world', .plain, hdrifts, hfair⟩

/-- Every table. -/
def Table.all : List Table :=
  [account, ledgerTransaction, ledgerEntry, merchantBalanceCache, eventOutbox, settlementBatch,
    fundingEvent, reconciliationRun, reconciliationItem, settlementCharge, merchantProjection,
    captureAttempt, bankAccountProjection, payout, reserveHold, ledgerAdjustmentRequest]

theorem Table.mem_all (table : Table) : table ∈ Table.all := by
  cases table <;> decide

/-- The identifiers in the database. -/
def usedIds (db : Database) : List String :=
  Table.all.flatMap fun table => (table.rows db).flatMap fun row =>
    (table.keys row).filterMap Key.generated

def Choice.body : Choice → Option String
  | .id body => some body
  | _ => none

theorem length_le_sum {texts : List String} {text : String} (h : text ∈ texts) :
    text.length ≤ (texts.map String.length).sum := by
  induction texts with
  | nil => cases h
  | cons first texts ih =>
      rw [List.map_cons, List.sum_cons]
      rcases List.mem_cons.mp h with rfl | hmem
      · exact Nat.le_add_right _ _
      · exact (ih hmem).trans (Nat.le_add_left _ _)

/-- A body longer than everything in use is new. -/
theorem exists_unused (past : List Choice) (db : Database) :
    ∃ body, Choice.id body ∉ past ∧ Unused body db := by
  let used := usedIds db ++ past.filterMap Choice.body
  let body := String.ofList (List.replicate ((used.map String.length).sum + 1) '0')
  have hlong : body.length = (used.map String.length).sum + 1 := by
    simp [body]
  refine ⟨body, fun hpast => ?_, fun table row hrow key hkey id hid idPrefix hsame => ?_⟩
  · have hmem : body ∈ used :=
      List.mem_append_right _ (List.mem_filterMap.mpr ⟨.id body, hpast, rfl⟩)
    have := length_le_sum hmem
    omega
  · have hmem : id ∈ used := by
      refine List.mem_append_left _ (List.mem_flatMap.mpr ⟨table, table.mem_all, ?_⟩)
      exact List.mem_flatMap.mpr ⟨row, hrow, List.mem_filterMap.mpr ⟨key, hkey, hid⟩⟩
    have := length_le_sum hmem
    have hlength : id.length = (idPrefix ++ "_" ++ body).length := by rw [hsame]
    rw [String.length_append] at hlength
    omega

/-- No row holds a key with a new identifier. -/
theorem Unused.holders {body idPrefix : String} {db : Database} (unused : Unused body db)
    {key : Key} (hkey : key.generated = some (idPrefix ++ "_" ++ body)) (table : Table) :
    Schema.holders (S := schema) table key db = [] := by
  rw [Schema.holders_eq_nil_iff]
  intro row hrow hheld
  exact unused table row hrow key hheld _ hkey idPrefix rfl

/-! ## Rules -/

namespace Async

variable {α : Type} {fair : Assumption system}
  {ok : α → List Choice → Database → Prop} {error : Exception → List Choice → Database → Prop}
  {past : List Choice} {view : Database}

theorem attains_check {checked : Except Exception α} {value : α} (hchecked : checked = .ok value)
    (h : ok value past view) :
    attains (Y := system) fair (check checked) ok error past view := by
  rw [hchecked]
  exact attains_pure h

theorem attains_check_error {checked : Except Exception α} {raised : Exception}
    (hchecked : checked = .error raised) (h : error raised past view) :
    attains (Y := system) fair (check checked) ok error past view := by
  rw [hchecked]
  exact attains_throw h

theorem attains_newId (orderly : Orderly fair) {idPrefix : String}
    {ok : String → List Choice → Database → Prop}
    (h : ∀ body, Choice.id body ∉ past → Unused body view →
      ok (idPrefix ++ "_" ++ body) (past ++ [.id body]) view) :
    attains (Y := system) fair (newId idPrefix) ok error past view := by
  refine attains_query (fun world => ?_) fun world choice value hfair hvalue => ?_
  · obtain ⟨body, hnew, hunused⟩ := exists_unused past view
    obtain ⟨world', hdrifts, hfair⟩ := orderly.id past world view body hnew hunused
    exact ⟨world', .id body, _, hdrifts, hfair, rfl⟩
  · cases choice <;> simp only [reduceCtorEq, Option.some.injEq] at hvalue
    next body =>
      subst hvalue
      obtain ⟨hnew, hunused⟩ := orderly.fresh past world view body hfair
      exact h body hnew hunused

theorem attains_now (orderly : Orderly fair) {ok : Instant → List Choice → Database → Prop}
    (h : ∀ choice (world : World), fair past world view choice →
      ok world.clock (past ++ [choice]) view) :
    attains (Y := system) fair now ok error past view := by
  refine attains_query (fun world => ?_) fun world choice value hfair hvalue => ?_
  · obtain ⟨world', hdrifts, hfair⟩ := orderly.plain past world view
    exact ⟨world', .plain, _, hdrifts, hfair, rfl⟩
  · cases hvalue
    exact h choice world hfair

theorem attains_transactionTime (orderly : Orderly fair)
    {ok : Instant → List Choice → Database → Prop}
    (h : ∀ choice value, ok value (past ++ [choice]) view) :
    attains (Y := system) fair transactionTime ok error past view := by
  refine attains_query (fun world => ?_) fun world choice value _ hvalue => ?_
  · obtain ⟨world', value, hdrifts, hbefore, hfair⟩ := orderly.instant past world view
    exact ⟨world', .instant value, value, hdrifts, hfair, if_pos hbefore⟩
  · cases choice <;> simp only [reduceCtorEq] at hvalue
    exact h _ value

theorem attains_get (orderly : Orderly fair) {table : Table} {key : Key}
    {ok : Option table.Row → List Choice → Database → Prop}
    (h : ∀ choice, ok (Schema.holders (S := schema) table key view).head? (past ++ [choice]) view) :
    attains (Y := system) fair (get table key) ok error past view :=
  attains_select orderly.live h

theorem attains_getOrRaise (orderly : Orderly fair) {table : Table} {key : Key}
    {missing : Exception} {ok : table.Row → List Choice → Database → Prop}
    (hheld : ∃ row ∈ table.rows view, key ∈ table.keys row)
    (h : ∀ choice row, row ∈ table.rows view → key ∈ table.keys row →
      ok row (past ++ [choice]) view) :
    attains (Y := system) fair (getOrRaise table key missing) ok error past view := by
  refine attains_bind (attains_get orderly fun choice => ?_)
  obtain ⟨held, hrow, hkey⟩ := hheld
  have hmem : held ∈ Schema.holders (S := schema) table key view :=
    Schema.mem_holders.mpr ⟨hrow, hkey⟩
  cases hheld : Schema.holders (S := schema) table key view with
  | nil => rw [hheld] at hmem; cases hmem
  | cons row rows =>
      have hfound : row ∈ Schema.holders (S := schema) table key view := by
        rw [hheld]
        exact List.mem_cons_self
      obtain ⟨hrow, hkey⟩ := Schema.mem_holders.mp hfound
      exact attains_pure (h choice row hrow hkey)

theorem attains_add (orderly : Orderly fair) {table : Table} {row : table.Row}
    {ok : Unit → List Choice → Database → Prop}
    (hfree : ∀ key ∈ table.keys row, Schema.holders (S := schema) table key view = [])
    (h : ∀ choice, ok () (past ++ [choice])
      ((Write.insert (S := schema) table row).apply view)) :
    attains (Y := system) fair (add table row) ok error past view := by
  refine attains_bind (attains_insert orderly.live hfree fun choice => ?_)
  exact attains_pure (h choice)

/-- The row under a key is rewritten. -/
theorem attains_update (orderly : Orderly fair) {table : Table} {key : Key}
    {change : table.Row → table.Row}
    {immutable : ∀ row, table.identity (change row) = table.identity row} {row : table.Row}
    {ok : Unit → List Choice → Database → Prop}
    (hhead : (Schema.holders (S := schema) table key view).head? = some row)
    (hkeys : table.keys (change row) = table.keys row)
    (h : ∀ choice, ok () (past ++ [choice])
      ((Write.update (S := schema) table key change immutable).apply view)) :
    attains (Y := system) fair (update table key change immutable) ok error past view := by
  refine attains_bind (Library.attains_update orderly.live hhead hkeys fun choice => ?_)
  exact attains_pure (h choice)

end Async

end PayzenoLedger
