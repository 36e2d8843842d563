import PayzenoLedger.Coroutines
import PayzenoLedger.Services.Reconciliation

/-!
# What a flush writes

A flush updates the row that was loaded, and in it the columns that the session
changed.  The row is still there and keeps its keys, so a flush is not refused.
-/

set_option autoImplicit false

namespace PayzenoLedger

open Library Write

/-! ## Items -/

/-- The item is on file in this batch. -/
def HasItem (id batchId : String) (db : Database) : Prop :=
  ∃ item ∈ db.items, item.id = id ∧ item.batchId = batchId

theorem HasItem.grow {id batchId : String} {db db' : Database} (has : HasItem id batchId db)
    (grows : Schema.Extends (S := schema) db db') : HasItem id batchId db' := by
  obtain ⟨item, hitem, rfl, rfl⟩ := has
  obtain ⟨item', hitem', hident⟩ := grows.survives Table.reconciliationItem hitem
  have hline : item'.line = item.line := hident
  exact ⟨item', hitem', congrArg (·.id) hline, congrArg (·.batchId) hline⟩

/-- Through its own writes a session still sees the item. -/
theorem HasItem.seen {id batchId : String} {top : Session system} {db : Database}
    (has : HasItem id batchId db) : HasItem id batchId (top.view db) :=
  has.grow (applyAll_extends top.writes db)

theorem HasItem.batchId_eq {id batchId : String} {db : Database}
    (has : HasItem id batchId db) (unique : Schema.Unique (S := schema) db)
    {item : ReconciliationItem} (hitem : item ∈ db.items) (hid : item.id = id) :
    item.batchId = batchId := by
  obtain ⟨other, hother, rfl, rfl⟩ := has
  have heq : item = other := unique.eq_of_key Table.reconciliationItem
    (.item other.id) hitem hother (by simp [Table.keys, hid]) (by simp [Table.keys])
  rw [heq]

/-- The writes rewrite one item and no other. -/
def Rewrites (id : String) (change : ReconciliationItem → ReconciliationItem)
    (writes : List (Write schema)) : Prop :=
  ∀ db : Database, (applyAll writes db : Database).items =
    db.items.map fun item => if item.id = id then change item else item

/-- A change of an item that leaves what identifies it. -/
def KeepsItem (change : ReconciliationItem → ReconciliationItem) : Prop :=
  ∀ item, (change item).id = item.id ∧ (change item).batchId = item.batchId

theorem Rewrites.append {id : String}
    {change change' : ReconciliationItem → ReconciliationItem}
    {writes more : List (Write schema)} (first : Rewrites id change writes)
    (second : Rewrites id change' more) (keeps : KeepsItem change) :
    Rewrites id (change' ∘ change) (writes ++ more) := by
  intro db
  rw [applyAll_append, second, first, List.map_map]
  refine List.map_congr_left fun item _ => ?_
  by_cases hid : item.id = id <;> simp [hid, (keeps item).1]

/-- The writes of a flush: at most the update of the one item. -/
structure Flush (loaded changed : ReconciliationItem) (writes : List (Write schema)) :
    Prop where
  rewrites : Rewrites loaded.id (ReconciliationItem.merge loaded changed) writes
  tables : ∀ write ∈ writes, write.table = Table.reconciliationItem

namespace ReconciliationItem

theorem merge_keeps (loaded changed : ReconciliationItem) : KeepsItem (merge loaded changed) :=
  fun _ => ⟨rfl, rfl⟩

theorem merge_self (loaded current : ReconciliationItem) :
    merge loaded loaded current = current := by
  simp [merge]

/-- On the row as it was loaded, a flush leaves what the session has. -/
theorem merge_loaded {loaded changed : ReconciliationItem} (hline : changed.line = loaded.line) :
    merge loaded changed loaded = changed := by
  cases loaded
  cases changed
  simp only [line, mk.injEq] at hline
  simp [merge, hline]

end ReconciliationItem

/-! ## Batches -/

/-- The writes rewrite one batch and no other. -/
def RewritesBatch (id : String) (change : SettlementBatch → SettlementBatch)
    (writes : List (Write schema)) : Prop :=
  ∀ db : Database, (applyAll writes db : Database).batches =
    db.batches.map fun batch => if batch.id = id then change batch else batch

theorem SettlementBatch.merge_self (loaded current : SettlementBatch) :
    SettlementBatch.merge loaded loaded current = current := by
  simp [SettlementBatch.merge]

/-- The writes of a flush: at most the update of the one batch. -/
structure BatchFlush (loaded changed : SettlementBatch) (writes : List (Write schema)) :
    Prop where
  rewrites : RewritesBatch loaded.id (SettlementBatch.merge loaded changed) writes
  tables : ∀ write ∈ writes, write.table = Table.settlementBatch

/-! ## Rules -/

section Rules

variable {D : Discipline system} {worker : Nat} {top : Session system}
  {rest : List (Session system)} {shared : Shared system}
  {ok : Unit → List (Session system) → Shared system → Prop}
  {error : Exception → List (Session system) → Shared system → Prop}

/-- A flush writes the columns that changed, and only of its own item. -/
theorem ReconciliationItem.wpr_flush {loaded changed : ReconciliationItem} {batchId : String}
    (start : Progress D worker rest top shared top shared)
    (has : HasItem loaded.id batchId (top.view shared.committed))
    (hdone : ∀ shared' top' writes, Progress D worker rest top shared top' shared' →
      top'.writes = top.writes ++ writes → Flush loaded changed writes →
      ok () (top' :: rest) shared') :
    wpr D worker (loaded.flush changed) ok error (top :: rest) shared := by
  unfold ReconciliationItem.flush
  split
  · next hsame =>
      refine hdone shared top [] start (List.append_nil _).symm ⟨fun db => ?_, by simp⟩
      simp [hsame, ReconciliationItem.merge_self]
  · obtain ⟨row, hrow, hid, -⟩ := has
    refine Async.wpr_rewrite start hrow (fun row' hsame => ?_) (fun _ => rfl)
      fun shared₁ top₁ progress hwrites => ?_
    · have hline : row'.line = row.line := hsame
      have hid' : row'.id = row.id := congrArg (·.id) hline
      simp [Table.keys, hid', hid]
    · refine hdone shared₁ top₁ _ progress hwrites ⟨fun db => ?_, fun write hwrite => ?_⟩
      · change Table.reconciliationItem.rows _ = _
        have hrows := rows_update (S := schema) Table.reconciliationItem (.item loaded.id)
          (ReconciliationItem.merge loaded changed) (fun _ => rfl) db
        refine hrows.trans (List.map_congr_left fun item _ => ?_)
        simp [Table.keys, eq_comm]
      · rw [List.mem_singleton.mp hwrite]
        rfl

theorem SettlementBatch.wpr_flush {loaded changed row : SettlementBatch}
    (start : Progress D worker rest top shared top shared)
    (hrow : row ∈ (top.view shared.committed : Database).batches) (hid : row.id = loaded.id)
    (hdone : ∀ shared' top' writes, Progress D worker rest top shared top' shared' →
      top'.writes = top.writes ++ writes → BatchFlush loaded changed writes →
      ok () (top' :: rest) shared') :
    wpr D worker (loaded.flush changed) ok error (top :: rest) shared := by
  unfold SettlementBatch.flush
  split
  · next hsame =>
      refine hdone shared top [] start (List.append_nil _).symm ⟨fun db => ?_, by simp⟩
      simp [hsame, SettlementBatch.merge_self]
  · refine Async.wpr_rewrite start hrow (fun row' hsame => ?_) (fun _ => rfl)
      fun shared₁ top₁ progress hwrites => ?_
    · have hfile : row'.file = row.file := hsame
      have hid' : row'.id = row.id := congrArg (·.id) hfile
      simp [Table.keys, hid', hid]
    · refine hdone shared₁ top₁ _ progress hwrites ⟨fun db => ?_, fun write hwrite => ?_⟩
      · change Table.settlementBatch.rows _ = _
        have hrows := rows_update (S := schema) Table.settlementBatch (.batch loaded.id)
          (SettlementBatch.merge loaded changed) (fun _ => rfl) db
        refine hrows.trans (List.map_congr_left fun batch _ => ?_)
        simp [Table.keys, eq_comm]
      · rw [List.mem_singleton.mp hwrite]
        rfl

end Rules

end PayzenoLedger
