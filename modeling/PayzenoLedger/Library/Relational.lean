import Mathlib.Data.List.Forall2
import Mathlib.Data.List.Basic
import Mathlib.Data.List.Sort
import Mathlib.Logic.Relation

/-!
# Relational databases with unique indexes

A schema gives every table its rows, the keys under which its unique indexes
file a row, and the columns that no update changes.  A write either appends a
row or rewrites the row filed under one key.  The lemmas describe a sequence of
uncommitted writes whose keys are locked: it leaves every other key alone, it
does the same to every database that agrees on the locked keys, and it keeps
the unique indexes.
-/

set_option autoImplicit false

namespace PayzenoLedger.Library

/-! ## Lists in step -/

section Forall

variable {α β : Type} {R : α → β → Prop} {first : List α} {second : List β}

theorem exists_right_of_forall₂ (h : List.Forall₂ R first second) {a : α} (ha : a ∈ first) :
    ∃ b ∈ second, R a b := by
  induction h with
  | nil => cases ha
  | cons hab _ ih =>
      rcases List.mem_cons.mp ha with rfl | hrest
      · exact ⟨_, List.mem_cons_self, hab⟩
      · obtain ⟨b, hb, hR⟩ := ih hrest
        exact ⟨b, List.mem_cons_of_mem _ hb, hR⟩

theorem exists_left_of_forall₂ (h : List.Forall₂ R first second) {b : β} (hb : b ∈ second) :
    ∃ a ∈ first, R a b := by
  induction h with
  | nil => cases hb
  | cons hab _ ih =>
      rcases List.mem_cons.mp hb with rfl | hrest
      · exact ⟨_, List.mem_cons_self, hab⟩
      · obtain ⟨a, ha, hR⟩ := ih hrest
        exact ⟨a, List.mem_cons_of_mem _ ha, hR⟩

end Forall

/-! ## Schemas -/

/-- The tables of a database and the keys of their unique indexes.  A row's
`identity` holds the columns that no update changes. -/
structure Schema where
  Database : Type
  Table : Type
  Row : Table → Type
  Key : Type
  Identity : Table → Type
  decKey : DecidableEq Key
  decTable : DecidableEq Table
  rows : (table : Table) → Database → List (Row table)
  setRows : (table : Table) → List (Row table) → Database → Database
  keys : (table : Table) → Row table → List Key
  identity : (table : Table) → Row table → Identity table
  rows_setRows_self : ∀ table rs db, rows table (setRows table rs db) = rs
  rows_setRows_of_ne : ∀ table other rs db, other ≠ table →
    rows other (setRows table rs db) = rows other db

namespace Schema

variable {S : Schema}

instance : DecidableEq S.Key := S.decKey
instance : DecidableEq S.Table := S.decTable

@[simp]
theorem rows_setRows (table : S.Table) (rs : List (S.Row table)) (db : S.Database) :
    S.rows table (S.setRows table rs db) = rs :=
  S.rows_setRows_self table rs db

/-- The rows of a table that a unique index files under a key. -/
def holders (table : S.Table) (key : S.Key) (db : S.Database) : List (S.Row table) :=
  (S.rows table db).filter fun row => decide (key ∈ S.keys table row)

/-- Every unique index files at most one row under a key. -/
def Unique (db : S.Database) : Prop :=
  ∀ table key, (holders table key db).length ≤ 1

/-- Two databases file the same rows under the given keys. -/
def Agree (locked : S.Key → Prop) (db db' : S.Database) : Prop :=
  ∀ table key, locked key → holders table key db = holders table key db'

/-- No row is lost and no immutable column changes. -/
def Extends (db db' : S.Database) : Prop :=
  ∀ table, (S.rows table db).map (S.identity table) <+:
    (S.rows table db').map (S.identity table)

/-- What the holder of the locked keys knows of a later committed database. -/
structure Later (locked : S.Key → Prop) (db db' : S.Database) : Prop where
  agree : Agree locked db db'
  grows : Extends db db'
  unique : Unique db'

theorem Agree.refl (locked : S.Key → Prop) (db : S.Database) : Agree locked db db :=
  fun _ _ _ => rfl

theorem Agree.trans {locked : S.Key → Prop} {first second third : S.Database}
    (left : Agree locked first second) (right : Agree locked second third) :
    Agree locked first third :=
  fun table key hkey => (left table key hkey).trans (right table key hkey)

theorem Agree.mono {wide narrow : S.Key → Prop} {db db' : S.Database}
    (agree : Agree wide db db') (sub : ∀ key, narrow key → wide key) :
    Agree narrow db db' :=
  fun table key hkey => agree table key (sub key hkey)

theorem Extends.refl (db : S.Database) : Extends db db :=
  fun _ => List.prefix_refl _

theorem Extends.trans {first second third : S.Database}
    (left : Extends first second) (right : Extends second third) :
    Extends first third :=
  fun table => (left table).trans (right table)

/-- A recorded row survives with its immutable columns. -/
theorem Extends.survives {db db' : S.Database} (grows : Extends db db')
    (table : S.Table) {row : S.Row table} (hrow : row ∈ S.rows table db) :
    ∃ row' ∈ S.rows table db', S.identity table row' = S.identity table row := by
  have hident := (grows table).subset (List.mem_map_of_mem (f := S.identity table) hrow)
  obtain ⟨row', hrow', hsame⟩ := List.mem_map.mp hident
  exact ⟨row', hrow', hsame⟩

theorem Later.refl (locked : S.Key → Prop) {db : S.Database} (unique : Unique db) :
    Later locked db db :=
  ⟨Agree.refl locked db, Extends.refl db, unique⟩

theorem Later.trans {locked : S.Key → Prop} {first second third : S.Database}
    (left : Later locked first second) (right : Later locked second third) :
    Later locked first third :=
  ⟨left.agree.trans right.agree, left.grows.trans right.grows, right.unique⟩

theorem Later.mono {wide narrow : S.Key → Prop} {db db' : S.Database}
    (later : Later wide db db') (sub : ∀ key, narrow key → wide key) :
    Later narrow db db' :=
  ⟨later.agree.mono sub, later.grows, later.unique⟩

theorem Agree.symm {locked : S.Key → Prop} {db db' : S.Database}
    (agree : Agree locked db db') : Agree locked db' db :=
  fun table key hkey => (agree table key hkey).symm

theorem mem_holders {table : S.Table} {key : S.Key} {db : S.Database}
    {row : S.Row table} :
    row ∈ holders table key db ↔ row ∈ S.rows table db ∧ key ∈ S.keys table row := by
  simp [holders]

theorem holders_eq_nil_iff {table : S.Table} {key : S.Key} {db : S.Database} :
    holders table key db = [] ↔ ∀ row ∈ S.rows table db, key ∉ S.keys table row := by
  simp [holders]

/-- Rows that share no key keep the indexes unique. -/
theorem unique_of_pairwise {db : S.Database}
    (h : ∀ table, (S.rows table db).Pairwise fun first second =>
      ∀ key ∈ S.keys table first, key ∉ S.keys table second) : Unique db := by
  intro table key
  have hrows := h table
  unfold holders
  revert hrows
  induction S.rows table db with
  | nil => simp
  | cons row rows ih =>
      intro hrows
      obtain ⟨hhead, htail⟩ := List.pairwise_cons.mp hrows
      rw [List.filter_cons]
      split
      · next hkey =>
          have habsent : rows.filter (fun row => decide (key ∈ S.keys table row)) = [] := by
            refine List.filter_eq_nil_iff.mpr fun other hother => ?_
            simpa using hhead other hother key (by simpa using hkey)
          simp [habsent]
      · exact ih htail

/-- Under a unique index, the row filed under a key is the only one. -/
theorem Unique.holders_eq {db : S.Database} (unique : Unique db) {table : S.Table}
    {key : S.Key} {row : S.Row table} (hrow : row ∈ holders table key db) :
    holders table key db = [row] := by
  have hlength := unique table key
  match hholders : holders table key db with
  | [] => rw [hholders] at hrow; cases hrow
  | [only] =>
      rw [hholders] at hrow
      rw [List.mem_singleton.mp hrow]
  | _ :: _ :: _ => rw [hholders] at hlength; simp at hlength

theorem Unique.eq_of_key {db : S.Database} (unique : Unique db) (table : S.Table)
    (key : S.Key) {first second : S.Row table} (hfirst : first ∈ S.rows table db)
    (hsecond : second ∈ S.rows table db) (hkey : key ∈ S.keys table first)
    (hkey' : key ∈ S.keys table second) : first = second := by
  have hmem := mem_holders.mpr ⟨hsecond, hkey'⟩
  rw [unique.holders_eq (mem_holders.mpr ⟨hfirst, hkey⟩)] at hmem
  exact (List.mem_singleton.mp hmem).symm

/-- A key of each row tells the rows apart. -/
theorem Unique.nodup_map {db : S.Database} (unique : Unique db) (table : S.Table)
    (key : S.Row table → S.Key) (hkey : ∀ row, key row ∈ S.keys table row) :
    ((S.rows table db).map key).Nodup := by
  refine List.pairwise_map.mpr (List.pairwise_iff_forall_sublist.mpr fun {first second} hsub => ?_)
  intro hsame
  have hone := unique table (key first)
  have hpair : [first, second].Sublist (holders table (key first) db) := by
    have hfilter := List.Sublist.filter (fun row => decide (key first ∈ S.keys table row)) hsub
    have hsecond : key first ∈ S.keys table second := hsame ▸ hkey second
    simpa [holders, hkey first, hsecond] using hfilter
  have hlength := hpair.length_le
  simp only [List.length_cons, List.length_nil] at hlength
  omega

/-- So does a column that makes up a key of each row. -/
theorem Unique.nodup_column {β : Type} {db : S.Database} (unique : Unique db) (table : S.Table)
    (column : S.Row table → β) (key : β → S.Key)
    (hkey : ∀ row, key (column row) ∈ S.keys table row) :
    ((S.rows table db).map column).Nodup := by
  refine List.Nodup.of_map key ?_
  rw [List.map_map]
  exact unique.nodup_map table (fun row => key (column row)) hkey

/-- The rows of a page of a sorted selection are of the table. -/
theorem mem_of_page {α : Type} {rows : List α} {test : α → Bool} {order : α → α → Prop}
    [DecidableRel order] {limit : Nat} {row : α}
    (hrow : row ∈ ((rows.filter test).insertionSort order).take limit) : row ∈ rows :=
  List.mem_of_mem_filter ((List.mem_insertionSort _).mp (List.mem_of_mem_take hrow))

/-- A page of a sorted selection names each row once, as the table does. -/
theorem nodup_page {α β : Type} {rows : List α} {name : α → β} (h : (rows.map name).Nodup)
    (test : α → Bool) (order : α → α → Prop) [DecidableRel order] (limit : Nat) :
    ((((rows.filter test).insertionSort order).take limit).map name).Nodup := by
  have hsorted : (((rows.filter test).insertionSort order).map name).Nodup := by
    have hperm := (List.perm_insertionSort order (rows.filter test)).map name
    exact hperm.nodup_iff.mpr (h.sublist (List.filter_sublist.map _))
  exact hsorted.sublist ((List.take_sublist _ _).map _)

/-- Rows at different places of a table hold different keys. -/
theorem Unique.not_mem_of_append {db : S.Database} (unique : Unique db) (table : S.Table)
    {before after : List (S.Row table)} (hrows : S.rows table db = before ++ after)
    {first second : S.Row table} (hfirst : first ∈ before) (hsecond : second ∈ after)
    (key : S.Key) (hkey : key ∈ S.keys table second) : key ∉ S.keys table first := by
  intro hkey'
  have hone := unique table key
  rw [holders, hrows, List.filter_append, List.length_append] at hone
  have hbefore : 0 < (before.filter fun row => decide (key ∈ S.keys table row)).length :=
    List.length_pos_of_mem (List.mem_filter.mpr ⟨hfirst, by simpa using hkey'⟩)
  have hafter : 0 < (after.filter fun row => decide (key ∈ S.keys table row)).length :=
    List.length_pos_of_mem (List.mem_filter.mpr ⟨hsecond, by simpa using hkey⟩)
  omega

end Schema

/-! ## Writes -/

/-- One change of a table: append a row, or rewrite the row filed under a key
without touching its immutable columns. -/
inductive Write (S : Schema) where
  | insert (table : S.Table) (row : S.Row table)
  | update (table : S.Table) (key : S.Key) (change : S.Row table → S.Row table)
      (immutable : ∀ row, S.identity table (change row) = S.identity table row)

namespace Write

open Schema

variable {S : Schema}

def apply : Write S → S.Database → S.Database
  | .insert table row, db => S.setRows table (S.rows table db ++ [row]) db
  | .update table key change _, db =>
      S.setRows table
        ((S.rows table db).map fun row =>
          if key ∈ S.keys table row then change row else row) db

def applyAll (writes : List (Write S)) (db : S.Database) : S.Database :=
  writes.foldl (fun db write => write.apply db) db

@[simp]
theorem applyAll_nil (db : S.Database) : applyAll [] db = db := rfl

@[simp]
theorem applyAll_cons (write : Write S) (writes : List (Write S)) (db : S.Database) :
    applyAll (write :: writes) db = applyAll writes (write.apply db) := rfl

@[simp]
theorem applyAll_append (first second : List (Write S)) (db : S.Database) :
    applyAll (first ++ second) db = applyAll second (applyAll first db) :=
  List.foldl_append

theorem rows_insert (table : S.Table) (row : S.Row table) (db : S.Database) :
    S.rows table ((Write.insert table row).apply db) = S.rows table db ++ [row] := by
  simp [apply]

theorem rows_update (table : S.Table) (key : S.Key) (change : S.Row table → S.Row table)
    (immutable : ∀ row, S.identity table (change row) = S.identity table row)
    (db : S.Database) :
    S.rows table ((Write.update table key change immutable).apply db) =
      (S.rows table db).map fun row =>
        if key ∈ S.keys table row then change row else row := by
  simp [apply]

def table : Write S → S.Table
  | .insert table _ => table
  | .update table _ _ _ => table

/-- A write touches one table. -/
theorem rows_apply_of_ne (write : Write S) (other : S.Table) (hother : other ≠ write.table)
    (db : S.Database) : S.rows other (write.apply db) = S.rows other db := by
  cases write with
  | insert table row => exact S.rows_setRows_of_ne table other _ db hother
  | update table key change immutable =>
      exact S.rows_setRows_of_ne table other _ db hother

/-- Writes to other tables leave a table as it was. -/
theorem rows_applyAll_of_ne (writes : List (Write S)) (other : S.Table)
    (hother : ∀ write ∈ writes, other ≠ write.table) (db : S.Database) :
    S.rows other (applyAll writes db) = S.rows other db := by
  induction writes generalizing db with
  | nil => rfl
  | cons write writes ih =>
      rw [applyAll_cons, ih (fun w hw => hother w (List.mem_cons_of_mem _ hw)),
        rows_apply_of_ne write other (hother write List.mem_cons_self)]

/-- The identities of the rows that writes append to a table. -/
def added (table : S.Table) : List (Write S) → List (S.Identity table)
  | [] => []
  | .insert other row :: writes =>
      (if h : other = table then [S.identity table (h ▸ row)] else []) ++ added table writes
  | .update .. :: writes => added table writes

theorem identities_update (table other : S.Table) (key : S.Key)
    (change : S.Row table → S.Row table)
    (immutable : ∀ row, S.identity table (change row) = S.identity table row)
    (db : S.Database) :
    (S.rows other ((Write.update table key change immutable).apply db)).map
        (S.identity other) =
      (S.rows other db).map (S.identity other) := by
  by_cases hother : other = table
  · subst hother
    rw [rows_update, List.map_map]
    refine List.map_congr_left fun row _ => ?_
    by_cases hkey : key ∈ S.keys other row
    · simp [hkey, immutable row]
    · simp [hkey]
  · rw [rows_apply_of_ne (.update table key change immutable) other hother]

/-- Writes append identities and change none, whatever the database. -/
theorem identities_applyAll (table : S.Table) (writes : List (Write S)) (db : S.Database) :
    (S.rows table (applyAll writes db)).map (S.identity table) =
      (S.rows table db).map (S.identity table) ++ added table writes := by
  induction writes generalizing db with
  | nil => simp [added]
  | cons write writes ih =>
      rw [applyAll_cons, ih]
      cases write with
      | insert other row =>
          by_cases hother : other = table
          · subst hother
            simp [added, rows_insert]
          · rw [rows_apply_of_ne (.insert other row) table (Ne.symm hother)]
            simp [added, hother]
      | update other key change immutable => rw [identities_update, added]

theorem applyAll_extends (writes : List (Write S)) (db : S.Database) :
    Extends db (applyAll writes db) := by
  intro table
  rw [identities_applyAll]
  exact List.prefix_append _ _

theorem mem_added {table : S.Table} {row : S.Row table} {writes : List (Write S)}
    (hinsert : Write.insert table row ∈ writes) : S.identity table row ∈ added table writes := by
  induction writes with
  | nil => cases hinsert
  | cons write writes ih =>
      rcases List.mem_cons.mp hinsert with rfl | hlater
      · simp [added]
      · cases write with
        | insert other row' => exact List.mem_append_right _ (ih hlater)
        | update => exact ih hlater

/-- What is inserted is on file after the writes, with its immutable columns. -/
theorem applyAll_inserted {table : S.Table} {row : S.Row table} {writes : List (Write S)}
    (hinsert : Write.insert table row ∈ writes) (db : S.Database) :
    ∃ row' ∈ S.rows table (applyAll writes db), S.identity table row' = S.identity table row := by
  have hmem : S.identity table row ∈
      (S.rows table (applyAll writes db)).map (S.identity table) := by
    rw [identities_applyAll]
    exact List.mem_append_right _ (mem_added hinsert)
  obtain ⟨row', hrow', hsame⟩ := List.mem_map.mp hmem
  exact ⟨row', hrow', hsame⟩
/-! ## The footprint of uncommitted writes -/

theorem holders_apply_of_ne (write : Write S) {other : S.Table}
    (hother : other ≠ write.table) (key : S.Key) (db : S.Database) :
    holders other key (write.apply db) = holders other key db := by
  unfold holders
  rw [rows_apply_of_ne write other hother]

theorem holders_insert (table : S.Table) (row : S.Row table) (key : S.Key)
    (db : S.Database) :
    holders table key ((Write.insert table row).apply db) =
      holders table key db ++ if key ∈ S.keys table row then [row] else [] := by
  unfold holders
  rw [rows_insert, List.filter_append]
  by_cases hkey : key ∈ S.keys table row <;> simp [hkey]

section Update

variable {table : S.Table} {key : S.Key} {change : S.Row table → S.Row table}
  {immutable : ∀ row, S.identity table (change row) = S.identity table row}
  {db : S.Database} {row : S.Row table}

/-- Rewriting the row filed under a key replaces that row in place. -/
theorem rows_update_split (change : S.Row table → S.Row table)
    (immutable : ∀ row, S.identity table (change row) = S.identity table row)
    (unique : Unique db) (hrow : row ∈ S.rows table db)
    (hkey : key ∈ S.keys table row) :
    ∃ before after, S.rows table db = before ++ row :: after ∧
      S.rows table ((Write.update table key change immutable).apply db) =
        before ++ change row :: after := by
  obtain ⟨before, after, hsplit⟩ := List.append_of_mem hrow
  refine ⟨before, after, hsplit, ?_⟩
  have hone : (before ++ row :: after).filter
      (fun r => decide (key ∈ S.keys table r)) = [row] := by
    rw [← hsplit]
    exact unique.holders_eq (mem_holders.mpr ⟨hrow, hkey⟩)
  have hlengths := congrArg List.length hone
  simp only [List.filter_append, List.filter_cons, hkey, decide_true, if_true,
    List.length_append, List.length_cons, List.length_nil] at hlengths
  have hbefore : before.filter (fun r => decide (key ∈ S.keys table r)) = [] :=
    List.length_eq_zero_iff.mp (by omega)
  have hafter : after.filter (fun r => decide (key ∈ S.keys table r)) = [] :=
    List.length_eq_zero_iff.mp (by omega)
  have hkeep (part : List (S.Row table))
      (hpart : part.filter (fun r => decide (key ∈ S.keys table r)) = []) :
      (part.map fun r => if key ∈ S.keys table r then change r else r) = part := by
    have habsent : ∀ r ∈ part, key ∉ S.keys table r := by simpa using hpart
    conv_rhs => rw [← List.map_id part]
    exact List.map_congr_left fun r hr => if_neg (habsent r hr)
  rw [rows_update, hsplit, List.map_append, List.map_cons, if_pos hkey,
    hkeep before hbefore, hkeep after hafter]

theorem holders_update_of_untouched
    (immutable : ∀ row, S.identity table (change row) = S.identity table row)
    (unique : Unique db) (hrow : row ∈ S.rows table db) (hkey : key ∈ S.keys table row)
    {other : S.Key}
    (hold : other ∉ S.keys table row) (hnew : other ∉ S.keys table (change row)) :
    holders table other ((Write.update table key change immutable).apply db) =
      holders table other db := by
  obtain ⟨before, after, hbefore, hafter⟩ :=
    rows_update_split change immutable unique hrow hkey
  unfold holders
  rw [hbefore, hafter]
  simp [hold, hnew]

theorem holders_update_of_touched
    (immutable : ∀ row, S.identity table (change row) = S.identity table row)
    (unique : Unique db) (hrow : row ∈ S.rows table db) (hkey : key ∈ S.keys table row)
    (hfree : ∀ k ∈ S.keys table (change row),
      k ∈ S.keys table row ∨ holders table k db = [])
    {other : S.Key}
    (htouched : other ∈ S.keys table row ∨ other ∈ S.keys table (change row)) :
    holders table other ((Write.update table key change immutable).apply db) =
      if other ∈ S.keys table (change row) then [change row] else [] := by
  obtain ⟨before, after, hbefore, hafter⟩ :=
    rows_update_split change immutable unique hrow hkey
  have hrest : before.filter (fun r => decide (other ∈ S.keys table r)) = [] ∧
      after.filter (fun r => decide (other ∈ S.keys table r)) = [] := by
    by_cases hold : other ∈ S.keys table row
    · have hone := unique.holders_eq (mem_holders.mpr ⟨hrow, hold⟩)
      unfold holders at hone
      rw [hbefore] at hone
      have hlengths := congrArg List.length hone
      simp only [List.filter_append, List.filter_cons, hold, decide_true, if_true,
        List.length_append, List.length_cons, List.length_nil] at hlengths
      exact ⟨List.length_eq_zero_iff.mp (by omega), List.length_eq_zero_iff.mp (by omega)⟩
    · have hnone := (hfree other (htouched.resolve_left hold)).resolve_left hold
      unfold holders at hnone
      rw [hbefore, List.filter_append, List.filter_cons] at hnone
      simpa [hold] using hnone
  unfold holders
  rw [hafter, List.filter_append, List.filter_cons, hrest.1, hrest.2]
  by_cases hnew : other ∈ S.keys table (change row) <;> simp [hnew]

end Update

/-- What uncommitted writes do, knowing only the locked keys of the database:
they depend on those keys alone, leave every other key, and keep the indexes. -/
structure Footprint (locked : S.Key → Prop) (writes : List (Write S))
    (db : S.Database) : Prop where
  agree : ∀ db', Agree locked db db' → Unique db' →
    Agree locked (applyAll writes db) (applyAll writes db')
  frame : ∀ db', Agree locked db db' → Unique db' → ∀ table key, ¬ locked key →
    holders table key (applyAll writes db') = holders table key db'
  unique : ∀ db', Agree locked db db' → Unique db' → Unique (applyAll writes db')

namespace Footprint

variable {locked wide : S.Key → Prop} {writes more : List (Write S)}
  {db db' : S.Database}

theorem nil (locked : S.Key → Prop) (db : S.Database) : Footprint locked [] db where
  agree _ hagree _ := hagree
  frame _ _ _ _ _ _ := rfl
  unique _ _ hunique := hunique

/-- Databases that agree on the locked keys give the same footprint. -/
theorem of_agree (foot : Footprint locked writes db) (hagree : Agree locked db db')
    (hunique : Unique db') : Footprint locked writes db' where
  agree other hother huniq :=
    (foot.agree db' hagree hunique).symm.trans
      (foot.agree other (hagree.trans hother) huniq)
  frame other hother huniq := foot.frame other (hagree.trans hother) huniq
  unique other hother huniq := foot.unique other (hagree.trans hother) huniq

/-- Agreement on more keys than the writes lock carries over to the result. -/
theorem agree_wide (foot : Footprint locked writes db)
    (sub : ∀ key, locked key → wide key) (hdb : Unique db) (hunique : Unique db')
    (hagree : Agree wide db db') :
    Agree wide (applyAll writes db) (applyAll writes db') := by
  intro table key hwide
  by_cases hkey : locked key
  · exact foot.agree db' (hagree.mono sub) hunique table key hkey
  · rw [foot.frame db (Agree.refl _ _) hdb table key hkey,
      foot.frame db' (hagree.mono sub) hunique table key hkey]
    exact hagree table key hwide

/-- Further writes, with the keys they lock, extend the footprint. -/
theorem append (foot : Footprint locked writes db)
    (sub : ∀ key, locked key → wide key) (hdb : Unique db)
    (next : Footprint wide more (applyAll writes db)) :
    Footprint wide (writes ++ more) db where
  agree db' hagree hunique := by
    rw [applyAll_append, applyAll_append]
    exact next.agree _ (foot.agree_wide sub hdb hunique hagree)
      (foot.unique db' (hagree.mono sub) hunique)
  frame db' hagree hunique table key hkey := by
    rw [applyAll_append, next.frame _ (foot.agree_wide sub hdb hunique hagree)
      (foot.unique db' (hagree.mono sub) hunique) table key hkey]
    exact foot.frame db' (hagree.mono sub) hunique table key fun h => hkey (sub key h)
  unique db' hagree hunique := by
    rw [applyAll_append]
    exact next.unique _ (foot.agree_wide sub hdb hunique hagree)
      (foot.unique db' (hagree.mono sub) hunique)

theorem widen (foot : Footprint locked writes db)
    (sub : ∀ key, locked key → wide key) (hdb : Unique db) :
    Footprint wide writes db := by
  simpa using foot.append sub hdb (nil wide (applyAll writes db))

theorem insert {table : S.Table} {row : S.Row table}
    (hlocked : ∀ key ∈ S.keys table row, locked key)
    (hfree : ∀ key ∈ S.keys table row, holders table key db = []) :
    Footprint locked [.insert table row] db where
  agree db' hagree _ other key hkey := by
    by_cases hother : other = table
    · subst hother
      simp only [applyAll_cons, applyAll_nil, holders_insert, hagree other key hkey]
    · simp only [applyAll_cons, applyAll_nil]
      rw [holders_apply_of_ne (.insert table row) hother,
        holders_apply_of_ne (.insert table row) hother]
      exact hagree other key hkey
  frame db' _ _ other key hkey := by
    by_cases hother : other = table
    · subst hother
      have habsent : key ∉ S.keys other row := fun h => hkey (hlocked key h)
      simp [holders_insert, habsent]
    · exact holders_apply_of_ne (.insert table row) hother key db'
  unique db' hagree hunique other key := by
    by_cases hother : other = table
    · subst hother
      simp only [applyAll_cons, applyAll_nil, holders_insert]
      by_cases hkey : key ∈ S.keys other row
      · rw [← hagree other key (hlocked key hkey), hfree key hkey]
        simp [hkey]
      · simpa [hkey] using hunique other key
    · simp only [applyAll_cons, applyAll_nil]
      rw [holders_apply_of_ne (.insert table row) hother]
      exact hunique other key

theorem update {table : S.Table} {key : S.Key} {change : S.Row table → S.Row table}
    {immutable : ∀ row, S.identity table (change row) = S.identity table row}
    {row : S.Row table} (hdb : Unique db) (hrow : row ∈ S.rows table db)
    (hkey : key ∈ S.keys table row)
    (hlocked : ∀ k ∈ S.keys table row ++ S.keys table (change row), locked k)
    (hfree : ∀ k ∈ S.keys table (change row),
      k ∈ S.keys table row ∨ holders table k db = []) :
    Footprint locked [.update table key change immutable] db := by
  have hold : ∀ k ∈ S.keys table row, locked k :=
    fun k hk => hlocked k (List.mem_append_left _ hk)
  have hnew : ∀ k ∈ S.keys table (change row), locked k :=
    fun k hk => hlocked k (List.mem_append_right _ hk)
  have hrow' : ∀ db', Agree locked db db' → row ∈ S.rows table db' := fun db' hagree => by
    have hmem := mem_holders.mpr ⟨hrow, hkey⟩
    rw [hagree table key (hold key hkey)] at hmem
    exact (mem_holders.mp hmem).1
  have hfree' : ∀ db', Agree locked db db' → ∀ k ∈ S.keys table (change row),
      k ∈ S.keys table row ∨ holders table k db' = [] := fun db' hagree k hk =>
    (hfree k hk).imp id fun hnone => by rw [← hagree table k (hnew k hk), hnone]
  have htouched (db' : S.Database) (hagree : Agree locked db db') (hunique : Unique db')
      (other : S.Key) (h : other ∈ S.keys table row ∨ other ∈ S.keys table (change row)) :=
    holders_update_of_touched immutable hunique (hrow' db' hagree) hkey
      (hfree' db' hagree) h
  have huntouched (db' : S.Database) (hagree : Agree locked db db')
      (hunique : Unique db') (other : S.Key)
      (h : ¬ (other ∈ S.keys table row ∨ other ∈ S.keys table (change row))) :=
    holders_update_of_untouched immutable hunique (hrow' db' hagree) hkey
      (fun h' => h (.inl h')) (fun h' => h (.inr h'))
  refine ⟨fun db' hagree hunique other k hk => ?_, fun db' hagree hunique other k hk => ?_,
    fun db' hagree hunique other k => ?_⟩ <;>
    simp only [applyAll_cons, applyAll_nil] <;>
    (by_cases hother : other = table
     on_goal 1 => subst hother
     on_goal 2 =>
      simp only [holders_apply_of_ne (.update table key change immutable) hother])
  · by_cases h : k ∈ S.keys other row ∨ k ∈ S.keys other (change row)
    · rw [htouched db (Agree.refl _ _) hdb k h, htouched db' hagree hunique k h]
    · rw [huntouched db (Agree.refl _ _) hdb k h, huntouched db' hagree hunique k h]
      exact hagree other k hk
  · exact hagree other k hk
  · exact huntouched db' hagree hunique k fun h => hk (h.elim (hold k) (hnew k))
  · by_cases h : k ∈ S.keys other row ∨ k ∈ S.keys other (change row)
    · rw [htouched db' hagree hunique k h]
      split <;> simp
    · rw [huntouched db' hagree hunique k h]
      exact hunique other k
  · exact hunique other k

end Footprint

end Write

end PayzenoLedger.Library
