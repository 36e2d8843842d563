import PayzenoLedger.Settlement.Jobs

/-!
# One posting of an item at a time, and one in all

The sweep holds the lock of the batch in its guard transaction, the retry in its
own, and only under that lock is an item posted.  Over time the ledger key of
the item takes over: its unique index admits one transaction.
-/

set_option autoImplicit false

namespace PayzenoLedger

open Library Write

/-- The transaction at this place of the worker's stack is inside
`SettlementPoster.post_settlement` for the item. -/
def InsidePosting (config : Config system (Except Exception Unit)) (itemId : String)
    (worker place : Nat) : Prop :=
  ∃ state session batchId, config.workers[worker]? = some state ∧
    state.stack[place]? = some session ∧ Mark.posting batchId itemId ∈ session.marks

/-- Items are settled under their own ledger keys. -/
def SettledByKey (db : Database) : Prop :=
  ∀ itemId, ∀ transaction ∈ settlementsOf itemId db, ∃ batchId, HasItem itemId batchId db ∧
    ledgerKey "settle" batchId itemId = .ok transaction.idempotencyKey

/-- A commit that enters settlements enters each under the key of its item. -/
theorem SettledByKey.commit {settings : Settings}
    {know : Knowledge} {worker : Nat} {top : Session system}
    {rest : List (Session system)} {shared : Shared system}
    (settled : SettledByKey shared.committed)
    (commit : SettlementCommit settings know worker top rest shared) :
    SettledByKey (shared.commit worker top).committed := by
  obtain ⟨headers, hposts, hheaders⟩ := commit.posts
  have grows : Schema.Extends (S := schema) shared.committed
      (shared.commit worker top).committed := applyAll_extends _ _
  intro itemId transaction htransaction
  have hrows : (shared.commit worker top).committed.transactions =
      shared.committed.transactions ++ headers := hposts shared.committed
  rw [settlementsOf, hrows, List.filter_append] at htransaction
  rcases List.mem_append.mp htransaction with hold | hnew
  · obtain ⟨batchId, has, hkey⟩ := settled itemId transaction hold
    exact ⟨batchId, has.grow grows, hkey⟩
  · obtain ⟨hheader, hitem⟩ := List.mem_filter.mp hnew
    simp only [decide_eq_true_eq] at hitem
    obtain ⟨batchId, has, hkey⟩ := (hheaders transaction hheader).key
    rw [hitem.2.2] at has hkey
    exact ⟨batchId, has.grow grows, hkey⟩

/-- The unique index on the ledger key admits one settlement of an item. -/
theorem SettledByKey.length_settlementsOf {db : Database} (settled : SettledByKey db)
    (unique : Schema.Unique (S := schema) db) (itemId : String) :
    (settlementsOf itemId db).length ≤ 1 := by
  cases hsettlements : settlementsOf itemId db with
  | nil => simp
  | cons transaction others =>
      have hfirst : transaction ∈ settlementsOf itemId db := by simp [hsettlements]
      obtain ⟨batchId, has, hkey⟩ := settled itemId transaction hfirst
      have hsub : (settlementsOf itemId db).length ≤
          (Schema.holders (S := schema) Table.ledgerTransaction
            (.idempotency transaction.idempotencyKey) db).length := by
        rw [settlementsOf, Schema.holders, ← List.countP_eq_length_filter,
          ← List.countP_eq_length_filter]
        refine List.countP_mono_left fun other hother hsettles => ?_
        have hmem : other ∈ settlementsOf itemId db := List.mem_filter.mpr ⟨hother, hsettles⟩
        obtain ⟨batchId', has', hkey'⟩ := settled itemId other hmem
        -- The item is in one batch, so both settlements have the one key.
        obtain ⟨item, hitem, hid, hbatch⟩ := has'
        rw [← hbatch, has.batchId_eq unique hitem hid, hkey] at hkey'
        simp [Table.keys, Except.ok.inj hkey']
      rw [← hsettlements]
      exact hsub.trans (unique _ _)

def exclusionRules (settings : Settings) : SettlementRules settings where
  permits := anyMove
  guarantee _ _ _ _ := True
  invariant shared := SettledByKey shared.committed
  Claimed _ _ _ := True
  drift _ _ _ settled _ := settled
  quiet _ _ _ _ _ _ _ _ settled := ⟨trivial, settled⟩
  commit _ _ _ _ _ settled _ commit := ⟨trivial, settled.commit commit⟩
  capture _ _ _ _ _ _ _ _ _ _ settled _ _ _ _ _ _ := fun _ => ⟨trivial, settled⟩
  claimed _ _ _ _ := trivial
  claimed_stable _ _ _ _ _ _ _ _ h := h

/-- Whatever sweeps, retries and matches are interleaved, no two transactions are
inside the posting of one item, and the item has at most one `settle`
transaction in the ledger. -/
theorem settlement_exclusive (settings : Settings) {db : Database} {world : World}
    (unique : Schema.Unique (S := schema) db) (settled : SettledByKey db)
    (jobs : List SettlementJob) {config : Config system (Except Exception Unit)}
    (hrun : Config.Run anyMove
      (Config.start db world (settlementWorkers settings jobs)) config) (itemId : String) :
    (∀ worker place worker' place', InsidePosting config itemId worker place →
      InsidePosting config itemId worker' place' → worker = worker' ∧ place = place') ∧
    (settlementsOf itemId config.shared.committed).length ≤ 1 := by
  have sound := settlement_run (exclusionRules settings) unique settled
    (fun _ _ _ => trivial) hrun
  refine ⟨?_, SettledByKey.length_settlementsOf sound.good.2 sound.good.1 itemId⟩
  rintro worker place worker' place' ⟨a, upper, batchId, ha, hupper, hmark⟩
    ⟨b, lower, batchId', hb, hlower, hmark'⟩
  have has : HasItem itemId batchId config.shared.committed :=
    sound.means_of_mark ha (List.mem_of_getElem? hupper) hmark
  have has' : HasItem itemId batchId' config.shared.committed :=
    sound.means_of_mark hb (List.mem_of_getElem? hlower) hmark'
  obtain ⟨item, hitem, hid, rfl⟩ := has'
  obtain rfl := has.batchId_eq sound.good.1 hitem hid
  exact sound.marks_exclusive ha hb hupper hlower hmark hmark' rfl rfl

/-- One item of a batch settled, the other one being posted. -/
theorem settlement_exclusive_midway :
    ∃ config, Config.Run anyMove
        (sampleStart [sampleItem "ri_1" "sb_1", sampleItem "ri_2" "sb_1"] false
          [.retry "ri_1", .retry "ri_2", .sweep "sb_1" "scheduled" 5]) config ∧
      InsidePosting config "ri_2" 1 0 ∧
      (∀ worker place, InsidePosting config "ri_2" worker place → worker = 1 ∧ place = 0) ∧
      (settlementsOf "ri_1" config.shared.committed).length = 1 := by
  have hschedule : ((sampleStart [sampleItem "ri_1" "sb_1", sampleItem "ri_2" "sb_1"] false
      [.retry "ri_1", .retry "ri_2", .sweep "sb_1" "scheduled" 5]).schedule anyMove
        (advances 0 (settleChoices []) ++
          advances 1 claimChoices ++ advances 2 [.plain, .id "1", .plain])).map
        (fun config => ((config.workers[1]?.bind fun state => state.stack[0]?).map (·.marks),
          (settlementsOf "ri_1" config.shared.committed).length)) =
      some (some [.posting "sb_1" "ri_2"], 1) := by
    decide +kernel
  obtain ⟨config, hconfig, hmid⟩ := Option.map_eq_some_iff.mp hschedule
  obtain ⟨hmarks, hlength⟩ := Prod.mk.inj hmid
  obtain ⟨session, hsession, hmarks⟩ := Option.map_eq_some_iff.mp hmarks
  obtain ⟨state, hstate, hplace⟩ := Option.bind_eq_some_iff.mp hsession
  have hrun := Config.run_of_schedule hconfig
  have hinside : InsidePosting config "ri_2" 1 0 :=
    ⟨state, session, "sb_1", hstate, hplace, by simp [hmarks]⟩
  have hexclusive := settlement_exclusive sampleSettings
    (unique_sampleSettlement (by decide)) (fun _ _ h => by cases h) _ hrun
  refine ⟨config, hrun, hinside, fun worker place h => ?_, hlength⟩
  exact (hexclusive "ri_2").1 worker place 1 0 h hinside

end PayzenoLedger
