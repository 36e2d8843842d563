import PayzenoLedger.System
import PayzenoLedger.Library.Rules

/-!
# Proof rules for coroutines

The rules of the library at the statements of a coroutine: one rule for each
helper of `Async`, with one premise for each way the helper can end.
-/

set_option autoImplicit false

namespace PayzenoLedger

open Library

/-- The marks that name no lock are ghost notes, nothing else. -/
def FreeMarks (D : Discipline system) : Prop :=
  ∀ label : Mark, label.isFree = true →
    D.required label = none ∧ ∀ db, D.meaning label db

namespace Async

variable {α : Type} {D : Discipline system} {worker : Nat}
  {error : Exception → List (Session system) → Shared system → Prop}
  {top : Session system} {rest : List (Session system)} {shared : Shared system}

theorem wpr_check {checked : Except Exception α}
    {ok : α → List (Session system) → Shared system → Prop}
    {stack : List (Session system)}
    (hok : ∀ value, checked = .ok value → ok value stack shared)
    (herror : ∀ raised, checked = .error raised → error raised stack shared) :
    wpr D worker (check checked) ok error stack shared := by
  cases checked with
  | ok value => exact hok value rfl
  | error raised => exact herror raised rfl

theorem wpr_newId {idPrefix : String}
    {ok : String → List (Session system) → Shared system → Prop}
    (h : ∀ shared' body, Progress D worker rest top shared top shared' →
      ok (idPrefix ++ "_" ++ body) (top :: rest) shared') :
    wpr D worker (newId idPrefix) ok error (top :: rest) shared := by
  refine wpr_query fun shared' choice value progress hvalue => ?_
  cases choice <;> simp only [reduceCtorEq, Option.some.injEq] at hvalue
  next body =>
    subst hvalue
    exact h shared' body progress

theorem wpr_now {ok : Instant → List (Session system) → Shared system → Prop}
    (h : ∀ shared', Progress D worker rest top shared top shared' →
      ok shared'.world.clock (top :: rest) shared') :
    wpr D worker now ok error (top :: rest) shared := by
  refine wpr_query fun shared' choice value progress hvalue => ?_
  cases hvalue
  exact h shared' progress

theorem wpr_transactionTime {ok : Instant → List (Session system) → Shared system → Prop}
    (h : ∀ shared' value, Progress D worker rest top shared top shared' →
      value ≤ shared'.world.clock → ok value (top :: rest) shared') :
    wpr D worker transactionTime ok error (top :: rest) shared := by
  refine wpr_query fun shared' choice value progress hvalue => ?_
  cases choice <;> simp only [reduceCtorEq] at hvalue
  next instant =>
    split at hvalue
    · next hle =>
        cases hvalue
        exact h shared' value progress hle
    · cases hvalue

theorem wpr_get {table : Table} {key : Key}
    {ok : Option table.Row → List (Session system) → Shared system → Prop}
    (hsome : ∀ shared' row, Progress D worker rest top shared top shared' →
      row ∈ Schema.holders (S := schema) table key (top.view shared'.committed) →
      ok (some row) (top :: rest) shared')
    (hnone : ∀ shared', Progress D worker rest top shared top shared' →
      Schema.holders (S := schema) table key (top.view shared'.committed) = [] →
      ok none (top :: rest) shared') :
    wpr D worker (get table key) ok error (top :: rest) shared := by
  refine wpr_select fun shared' progress => ?_
  cases hhead : (Schema.holders (S := schema) table key
      (top.view shared'.committed)).head? with
  | none => exact hnone shared' progress (List.head?_eq_none_iff.mp hhead)
  | some row => exact hsome shared' row progress (List.mem_of_head? hhead)

theorem wpr_getOrRaise {table : Table} {key : Key} {missing : Exception}
    {ok : table.Row → List (Session system) → Shared system → Prop}
    (hsome : ∀ shared' row, Progress D worker rest top shared top shared' →
      row ∈ Schema.holders (S := schema) table key (top.view shared'.committed) →
      ok row (top :: rest) shared')
    (hnone : ∀ shared', Progress D worker rest top shared top shared' →
      Schema.holders (S := schema) table key (top.view shared'.committed) = [] →
      error missing (top :: rest) shared') :
    wpr D worker (getOrRaise table key missing) ok error (top :: rest) shared := by
  unfold getOrRaise
  rw [wpr_bind]
  exact wpr_get hsome hnone

theorem wpr_tryInsert {table : Table} {row : table.Row}
    {ok : List Key → List (Session system) → Shared system → Prop}
    (hdone : ∀ shared', Progress D worker rest top shared top shared' →
      (∀ key ∈ table.keys row,
        Schema.holders (S := schema) table key (top.view shared'.committed) = []) →
      Progress D worker rest top shared (top.insert table row) shared' →
      ok [] (top.insert table row :: rest) shared')
    (htaken : ∀ shared' taken, Progress D worker rest top shared top shared' → taken ≠ [] →
      (∀ key, key ∈ taken ↔ key ∈ table.keys row ∧
        Schema.holders (S := schema) table key (top.view shared'.committed) ≠ []) →
      ok taken (top :: rest) shared') :
    wpr D worker (tryInsert table row) ok error (top :: rest) shared :=
  wpr_insert hdone htaken

theorem wpr_add {table : Table} {row : table.Row}
    {ok : Unit → List (Session system) → Shared system → Prop}
    (hdone : ∀ shared', Progress D worker rest top shared top shared' →
      (∀ key ∈ table.keys row,
        Schema.holders (S := schema) table key (top.view shared'.committed) = []) →
      Progress D worker rest top shared (top.insert table row) shared' →
      ok () (top.insert table row :: rest) shared')
    (htaken : ∀ shared', Progress D worker rest top shared top shared' →
      (∃ key ∈ table.keys row,
        Schema.holders (S := schema) table key (top.view shared'.committed) ≠ []) →
      error .integrityError (top :: rest) shared') :
    wpr D worker (add table row) ok error (top :: rest) shared := by
  unfold add
  rw [wpr_bind]
  refine wpr_tryInsert hdone fun shared' taken progress htaken' hkeys => ?_
  cases taken with
  | nil => exact absurd rfl htaken'
  | cons key keys =>
      exact htaken shared' progress ⟨key, (hkeys key).mp List.mem_cons_self⟩

/-- The rows go in together; a refused one finds its predecessors inserted. -/
theorem wpr_addAll {table : Table} {rows : List table.Row}
    {ok : Unit → List (Session system) → Shared system → Prop}
    (hdone : ∀ shared' top', Progress D worker rest top shared top' shared' →
      top'.writes = top.writes ++ inserts table rows →
      ok () (top' :: rest) shared')
    (htaken : ∀ shared' top' before row after,
      Progress D worker rest top shared top' shared' → rows = before ++ row :: after →
      top'.writes = top.writes ++ inserts table before →
      (∃ key ∈ table.keys row,
        Schema.holders (S := schema) table key (top'.view shared'.committed) ≠ []) →
      error .integrityError (top' :: rest) shared')
    (start : Progress D worker rest top shared top shared) :
    wpr D worker (addAll table rows) ok error (top :: rest) shared := by
  induction rows generalizing top shared with
  | nil => exact hdone shared top start (by simp [inserts])
  | cons row rows ih =>
      unfold addAll
      rw [wpr_bind]
      refine wpr_add (fun shared' _ _ progress => ?_) fun shared' progress hkey =>
        htaken shared' top [] row rows progress rfl (by simp [inserts]) hkey
      refine ih (fun shared'' top' progress' hwrites => ?_)
        (fun shared'' top' before row' after progress' hrows hwrites hkey => ?_) progress.here
      · refine hdone shared'' top' (progress.trans progress') ?_
        simp [hwrites, Session.insert, inserts]
      · refine htaken shared'' top' (row :: before) row' after (progress.trans progress')
          (by rw [hrows]; rfl) ?_ hkey
        simp [hwrites, Session.insert, inserts]

theorem wpr_update {table : Table} {key : Key} {change : table.Row → table.Row}
    {immutable : ∀ row, table.identity (change row) = table.identity row}
    {ok : Unit → List (Session system) → Shared system → Prop}
    (hdone : ∀ shared' row, Progress D worker rest top shared top shared' →
      row ∈ Schema.holders (S := schema) table key (top.view shared'.committed) →
      Progress D worker rest top shared
        (top.rewrite table key change immutable row) shared' →
      ok () (top.rewrite table key change immutable row :: rest) shared')
    (hmissing : ∀ shared', Progress D worker rest top shared top shared' →
      Schema.holders (S := schema) table key (top.view shared'.committed) = [] →
      ok () (top :: rest) shared')
    (hconflict : ∀ shared' row, Progress D worker rest top shared top shared' →
      row ∈ Schema.holders (S := schema) table key (top.view shared'.committed) →
      (∃ k ∈ table.keys (change row), k ∉ table.keys row ∧
        Schema.holders (S := schema) table k (top.view shared'.committed) ≠ []) →
      error .integrityError (top :: rest) shared') :
    wpr D worker (update table key change immutable) ok error (top :: rest) shared := by
  unfold update
  rw [wpr_bind]
  exact Library.wpr_update hdone hmissing hconflict

theorem wpr_mark {label : Mark} {ok : Unit → List (Session system) → Shared system → Prop}
    (free : FreeMarks D) (hfree : label.isFree = true)
    (start : Progress D worker rest top shared top shared)
    (h : ∀ shared', Onward D worker rest top shared (top.mark label) shared' →
      ok () (top.mark label :: rest) shared') :
    wpr D worker (mark label) ok error (top :: rest) shared := by
  obtain ⟨hrequired, hmeans⟩ := free label hfree
  refine Library.wpr_mark (Y := system) fun shared₁ rely good => ⟨?_, ?_⟩
  · have hnone (lock : Lock system) : D.required label ≠ some lock := by
      rw [hrequired]
      simp
    exact ⟨fun lock hlock => absurd hlock (hnone lock),
      fun lock hlock => absurd hlock (hnone lock), hmeans _⟩
  · exact h shared₁ ((Progress.of_rely start.good start.foot rely).onward.mark label)

theorem wpr_mintId {idPrefix : String}
    {ok : String → List (Session system) → Shared system → Prop} (free : FreeMarks D)
    (h : ∀ shared' id, Onward D worker rest top shared (top.mark (.minted id)) shared' →
      ok id (top.mark (.minted id) :: rest) shared') :
    wpr D worker (mintId idPrefix) ok error (top :: rest) shared := by
  unfold mintId
  rw [wpr_bind]
  refine wpr_newId fun shared₁ body progress₁ => ?_
  rw [wpr_bind]
  exact wpr_mark free rfl progress₁.here fun shared₂ onward₂ =>
    h shared₂ _ (progress₁.onward.trans onward₂)

theorem wpr_first {query : Database → List α}
    {ok : Option α → List (Session system) → Shared system → Prop}
    (hnone : ∀ shared', Progress D worker rest top shared top shared' →
      query (top.view shared'.committed) = [] → ok none (top :: rest) shared')
    (hsome : ∀ shared' row, Progress D worker rest top shared top shared' →
      row ∈ query (top.view shared'.committed) → ok (some row) (top :: rest) shared') :
    wpr D worker (first query) ok error (top :: rest) shared := by
  refine wpr_query (Y := system) fun shared' choice value progress hvalue => ?_
  cases hrows : query (top.view shared'.committed) with
  | nil =>
      simp only [hrows, Option.some.injEq] at hvalue
      subst hvalue
      exact hnone shared' progress hrows
  | cons row rows =>
      cases choice <;> simp only [hrows, reduceCtorEq] at hvalue
      obtain ⟨row', hrow', rfl⟩ := Option.map_eq_some_iff.mp hvalue
      refine hsome shared' row' progress ?_
      rw [hrows]
      exact List.mem_of_getElem? hrow'

/-- An update of a row that the session sees, which keeps every key, goes through. -/
theorem wpr_rewrite {table : Table} {key : Key} {change : table.Row → table.Row}
    {immutable : ∀ row, table.identity (change row) = table.identity row}
    {ok : Unit → List (Session system) → Shared system → Prop} {row : table.Row}
    (start : Progress D worker rest top shared top shared)
    (hrow : row ∈ table.rows (top.view shared.committed))
    (hkey : ∀ row', table.identity row' = table.identity row → key ∈ table.keys row')
    (hkeys : ∀ row', table.keys (change row') = table.keys row')
    (hdone : ∀ shared' top', Progress D worker rest top shared top' shared' →
      top'.writes = top.writes ++ [.update table key change immutable] →
      ok () (top' :: rest) shared') :
    wpr D worker (update table key change immutable) ok error (top :: rest) shared := by
  refine wpr_update (fun shared₁ _ _ _ progress => hdone shared₁ _ progress rfl)
    (fun shared₁ progress hnone => ?_) fun shared₁ row₁ _ _ hclash => ?_
  · have seen : Seen top.keys top.writes shared fun db => ∃ row' ∈ table.rows db,
        table.identity row' = table.identity row := Seen.identity (Y := system) table hrow
    obtain ⟨row', hrow', hsame⟩ := seen _ (progress.later start.good)
    exact absurd (hkey row' hsame) (Schema.holders_eq_nil_iff.mp hnone row' hrow')
  · obtain ⟨k, hk, hnot, -⟩ := hclash
    have hk' : k ∈ table.keys (change row₁) := hk
    rw [hkeys] at hk'
    exact absurd hk' hnot

end Async

end PayzenoLedger
