import PayzenoLedger.Library.Alone
import PayzenoLedger.Services.Matching
import PayzenoLedger.Settlement.Jobs

/-!
# What the matcher decides

An outcome of the matcher depends on the line, on the charges and, where only the
heuristic is left, on the clock.  A reference that several charges carry leaves
the choice among them to the database.
-/

set_option autoImplicit false

namespace PayzenoLedger

open Library Write

/-! ## Statements alone -/

section Alone

variable {α : Type} {world : World} {db : Database}

theorem Async.mayReturn_first {query : Database → List α}
    {post : Option α → World → Database → Prop} :
    mayReturn (Async.first query) post world db ↔
      ∃ world', Drifts (Y := system) world world' ∧
        ((query db = [] ∧ post none world' db) ∨
          ∃ row ∈ query db, post (some row) world' db) := by
  unfold Async.first
  rw [mayReturn_query]
  constructor
  · rintro ⟨world', choice, value, hdrifts, hvalue, hpost⟩
    refine ⟨world', hdrifts, ?_⟩
    cases hrows : query db with
    | nil =>
        simp only [hrows, Option.some.injEq] at hvalue
        subst hvalue
        exact .inl ⟨rfl, hpost⟩
    | cons row rows =>
        cases choice <;> simp only [hrows, reduceCtorEq] at hvalue
        obtain ⟨row', hrow', rfl⟩ := Option.map_eq_some_iff.mp hvalue
        exact .inr ⟨row', List.mem_of_getElem? hrow', hpost⟩
  · rintro ⟨world', hdrifts, ⟨hnil, hpost⟩ | ⟨row, hrow, hpost⟩⟩
    · exact ⟨world', .plain, none, hdrifts, by simp only [hnil], hpost⟩
    · obtain ⟨index, hindex⟩ := List.getElem?_of_mem hrow
      refine ⟨world', .row index, some row, hdrifts, ?_, hpost⟩
      cases hrows : query db with
      | nil => simp [hrows] at hrow
      | cons first rows =>
          rw [hrows] at hindex
          simp only [hindex, Option.map_some]

theorem Async.mayReturn_now {post : Instant → World → Database → Prop} :
    mayReturn Async.now post world db ↔
      ∃ world', Drifts (Y := system) world world' ∧ post world'.clock world' db := by
  unfold Async.now
  rw [mayReturn_query]
  constructor
  · rintro ⟨world', choice, value, hdrifts, hvalue, hpost⟩
    cases hvalue
    exact ⟨world', hdrifts, hpost⟩
  · rintro ⟨world', hdrifts, hpost⟩
    exact ⟨world', .plain, _, hdrifts, rfl, hpost⟩

theorem Async.mayReturn_select {query : Database → α} {post : α → World → Database → Prop} :
    mayReturn (Async.select query) post world db ↔
      ∃ world', Drifts (Y := system) world world' ∧ post (query db) world' db := by
  unfold Async.select Raising.select
  rw [mayReturn_query]
  constructor
  · rintro ⟨world', choice, value, hdrifts, hvalue, hpost⟩
    cases hvalue
    exact ⟨world', hdrifts, hpost⟩
  · rintro ⟨world', hdrifts, hpost⟩
    exact ⟨world', .plain, _, hdrifts, rfl, hpost⟩

/-- A flush of an item sends at most its row. -/
theorem ReconciliationItem.charges_of_flush {loaded changed : ReconciliationItem}
    {post : Unit → World → Database → Prop}
    (h : mayReturn (loaded.flush changed) post world db) :
    ∃ world' db', Drifts (Y := system) world world' ∧ db'.charges = db.charges ∧
      post () world' db' := by
  unfold ReconciliationItem.flush at h
  split at h
  · exact ⟨world, db, Drifts.refl _, rfl, (mayReturn_pure ()).mp h⟩
  · unfold Async.update at h
    rw [mayReturn_bind, mayReturn_execute] at h
    obtain ⟨world', choice, outcome, hdrifts, hexec, hrest⟩ := h
    simp only [Statement.exec] at hexec
    split at hexec
    · cases hexec
      exact ⟨world', db, hdrifts, rfl, (mayReturn_pure ()).mp hrest⟩
    · split at hexec
      · split at hexec
        · cases hexec
          refine ⟨world', _, hdrifts, ?_, (mayReturn_pure ()).mp hrest⟩
          rfl
        · cases hexec
          obtain ⟨value, hvalue, -⟩ := hrest
          cases hvalue
      · cases hexec

/-- A flush of an item never raises. -/
theorem ReconciliationItem.mayReturn_flush {loaded changed : ReconciliationItem}
    {post : Unit → World → Database → Prop}
    (h : ∀ db', db'.charges = db.charges → post () world db') :
    mayReturn (loaded.flush changed) post world db := by
  unfold ReconciliationItem.flush
  split
  · exact (mayReturn_pure ()).mpr (h db rfl)
  · unfold Async.update
    rw [mayReturn_bind, mayReturn_execute]
    cases hhead : (Schema.holders (S := schema) .reconciliationItem (.item loaded.id) db).head? with
    | none =>
        refine ⟨world, .plain, ⟨.missing, [], []⟩, Drifts.refl _, ?_, ?_⟩
        · simp only [Statement.exec, hhead]
        · exact (mayReturn_pure ()).mpr (h db rfl)
    | some row =>
        refine ⟨world, .plain, _, Drifts.refl _,
          exec_update_alone (Y := system) hhead rfl .plain, ?_⟩
        exact (mayReturn_pure ()).mpr (h _ rfl)

end Alone

/-! ## One line -/

open SettlementChargeRepository

/-- The charges that carry the line's own reference. -/
def referenced (charges : List SettlementCharge) (item : ReconciliationItem) :
    List SettlementCharge :=
  byProcessorReference item.acquirer item.acquirerReference charges

/-- The charges that carry the line's network reference, if it has one. -/
def networked (charges : List SettlementCharge) (item : ReconciliationItem) :
    List SettlementCharge :=
  if item.networkReference.getD "" = "" then []
  else byNetworkTransaction item.acquirer (item.networkReference.getD "") charges

/-- The heuristic's candidates at this time, for a line that names a merchant. -/
def candidates (charges : List SettlementCharge) (item : ReconciliationItem)
    (instant : Instant) : List SettlementCharge :=
  match item.merchantId with
  | none => []
  | some merchantId =>
      inAmountWindow merchantId item.currency item.grossMinor heuristicAmountSlackMinor
        (instant - heuristicWindow) (instant + heuristicWindow) charges

/-- The outcomes that are possible for a line at this time. -/
inductive Decides (charges : List SettlementCharge) (item : ReconciliationItem)
    (instant : Instant) : MatchOutcome → Prop
  | reference (charge : SettlementCharge) (found : charge ∈ referenced charges item) :
      Decides charges item instant (matched (some charge) .exactReference true)
  | network (charge : SettlementCharge) (unreferenced : referenced charges item = [])
      (found : charge ∈ networked charges item) :
      Decides charges item instant (matched (some charge) .networkTxn true)
  | heuristic (charge : SettlementCharge) (unreferenced : referenced charges item = [])
      (unnetworked : networked charges item = [])
      (single : candidates charges item instant = [charge]) :
      Decides charges item instant (matched (some charge) .heuristic false)
  | nothing (unreferenced : referenced charges item = [])
      (unnetworked : networked charges item = [])
      (ambiguous : ∀ charge, candidates charges item instant ≠ [charge]) :
      Decides charges item instant noMatch

variable {world : World} {db : Database} {item : ReconciliationItem}

theorem matchHeuristicAmountWindow_alone {post : MatchOutcome → World → Database → Prop}
    (h : mayReturn (MatchStrategy.matchHeuristicAmountWindow item) post world db) :
    ∃ world₁ world₂ : World, ((∃ charge, candidates db.charges item world₁.clock = [charge] ∧
        post (matched (some charge) .heuristic false) world₂ db) ∨
      ((∀ charge, candidates db.charges item world₁.clock ≠ [charge]) ∧
        post noMatch world₂ db)) := by
  unfold MatchStrategy.matchHeuristicAmountWindow at h
  unfold candidates
  cases hmerchant : item.merchantId with
  | none =>
      simp only [hmerchant, mayReturn_pure] at h
      exact ⟨world, world, .inr ⟨fun _ hnil => by simp at hnil, h⟩⟩
  | some merchantId =>
      simp only [hmerchant] at h
      rw [mayReturn_bind, Async.mayReturn_now] at h
      obtain ⟨world₁, -, h⟩ := h
      rw [mayReturn_bind] at h
      unfold findInAmountWindow at h
      rw [Async.mayReturn_select] at h
      obtain ⟨world₂, -, h⟩ := h
      refine ⟨world₁, world₂, ?_⟩
      split at h
      · next charge hsingle => exact .inl ⟨charge, hsingle, (mayReturn_pure _).mp h⟩
      · next hother => exact .inr ⟨hother, (mayReturn_pure _).mp h⟩

theorem matchExactReference_alone {post : MatchOutcome → World → Database → Prop} :
    mayReturn (MatchStrategy.matchExactReference item) post world db ↔
      ∃ world', Drifts (Y := system) world world' ∧
        ((referenced db.charges item = [] ∧ post noMatch world' db) ∨
          ∃ charge ∈ referenced db.charges item,
            post (matched (some charge) .exactReference true) world' db) := by
  unfold MatchStrategy.matchExactReference findByProcessorReference
  rw [mayReturn_bind, Async.mayReturn_first]
  simp only [mayReturn_pure]
  rfl

theorem matchNetworkTransaction_eq (item : ReconciliationItem) :
    (item.networkReference.getD "" = "" ∧
        MatchStrategy.matchNetworkTransaction item = pure noMatch) ∨
      (item.networkReference.getD "" ≠ "" ∧
        MatchStrategy.matchNetworkTransaction item = (do
          let charge ← Async.first fun db => networked db.charges item
          pure (matched charge .networkTxn true))) := by
  unfold MatchStrategy.matchNetworkTransaction networked
  by_cases hempty : item.networkReference.getD "" = ""
  · rw [if_pos hempty]
    exact .inl ⟨hempty, rfl⟩
  · right
    simp only [if_neg hempty]
    refine ⟨hempty, ?_⟩
    cases hreference : item.networkReference with
    | none => simp [hreference] at hempty
    | some reference => rfl

theorem matchNetworkTransaction_alone {post : MatchOutcome → World → Database → Prop}
    (h : mayReturn (MatchStrategy.matchNetworkTransaction item) post world db) :
    ∃ world' : World, (networked db.charges item = [] ∧ post noMatch world' db) ∨
      ∃ charge ∈ networked db.charges item,
        post (matched (some charge) .networkTxn true) world' db := by
  rcases matchNetworkTransaction_eq item with ⟨hempty, heq⟩ | ⟨-, heq⟩
  · rw [heq, mayReturn_pure] at h
    exact ⟨world, .inl ⟨if_pos hempty, h⟩⟩
  · rw [heq, mayReturn_bind, Async.mayReturn_first] at h
    obtain ⟨world', -, h⟩ := h
    simp only [mayReturn_pure] at h
    exact ⟨world', h⟩

/-- Whatever the walk decides is possible at some time of its run. -/
theorem decides_of_firstHit {post : MatchOutcome → World → Database → Prop}
    (h : mayReturn (firstHit item matchStrategies) post world db) :
    ∃ (world₁ world₂ : World) (outcome : MatchOutcome),
      Decides db.charges item world₁.clock outcome ∧ post outcome world₂ db := by
  simp only [matchStrategies, firstHit, MatchStrategy.matchLine] at h
  rw [mayReturn_bind, matchExactReference_alone] at h
  obtain ⟨world₁, -, ⟨hunreferenced, h⟩ | ⟨charge, hcharge, h⟩⟩ := h
  · simp only [noMatch, Option.isSome_none, Bool.false_eq_true, if_false] at h
    rw [mayReturn_bind] at h
    obtain ⟨world₂, ⟨hunnetworked, h⟩ | ⟨charge, hcharge, h⟩⟩ :=
      matchNetworkTransaction_alone h
    · simp only [noMatch, Option.isSome_none, Bool.false_eq_true, if_false] at h
      rw [mayReturn_bind] at h
      obtain ⟨world₃, world₄, ⟨charge, hsingle, h⟩ | ⟨hambiguous, h⟩⟩ :=
        matchHeuristicAmountWindow_alone h
      · simp only [matched, Option.isSome_some, if_true, mayReturn_pure] at h
        exact ⟨world₃, world₄, _, .heuristic charge hunreferenced hunnetworked hsingle, h⟩
      · simp only [noMatch, Option.isSome_none, Bool.false_eq_true, if_false,
          mayReturn_pure] at h
        exact ⟨world₃, world₄, _, .nothing hunreferenced hunnetworked hambiguous, h⟩
    · simp only [matched, Option.isSome_some, if_true, mayReturn_pure] at h
      exact ⟨world₂, world₂, _, .network charge hunreferenced hcharge, h⟩
  · simp only [matched, Option.isSome_some, if_true, mayReturn_pure] at h
    exact ⟨world₁, world₁, _, .reference charge hcharge, h⟩

theorem firstHit_hit {strategy : MatchStrategy} {strategies : List MatchStrategy}
    {charge : SettlementCharge} {method : MatchMethod} {confident : Bool}
    (returns : Returns (strategy.matchLine item) (matched (some charge) method confident)
      world db) :
    Returns (firstHit item (strategy :: strategies)) (matched (some charge) method confident)
      world db := by
  refine returns.bind ?_
  rw [if_pos (by rfl)]
  exact .pure _

theorem firstHit_skip {strategy : MatchStrategy} {strategies : List MatchStrategy}
    {outcome : MatchOutcome} (returns : Returns (strategy.matchLine item) noMatch world db)
    (rest : Returns (firstHit item strategies) outcome world db) :
    Returns (firstHit item (strategy :: strategies)) outcome world db := by
  refine returns.bind ?_
  rw [if_neg (by simp [noMatch])]
  exact rest

/-- Whatever is possible now, the walk may decide. -/
theorem firstHit_of_decides {outcome : MatchOutcome}
    (decides : Decides db.charges item world.clock outcome) :
    Returns (firstHit item matchStrategies) outcome world db := by
  have hreference {charge : SettlementCharge} (found : charge ∈ referenced db.charges item) :
      Returns (MatchStrategy.matchLine .exactReference item)
        (matched (some charge) .exactReference true) world db :=
    matchExactReference_alone.mpr
      ⟨world, Drifts.refl _, .inr ⟨charge, found, rfl, rfl, rfl⟩⟩
  have hunreferenced (h : referenced db.charges item = []) :
      Returns (MatchStrategy.matchLine .exactReference item) noMatch world db :=
    matchExactReference_alone.mpr ⟨world, Drifts.refl _, .inl ⟨h, rfl, rfl, rfl⟩⟩
  have hunnetworked (h : networked db.charges item = []) :
      Returns (MatchStrategy.matchLine .networkTransaction item) noMatch world db := by
    change Returns (MatchStrategy.matchNetworkTransaction item) _ _ _
    rcases matchNetworkTransaction_eq item with ⟨-, heq⟩ | ⟨-, heq⟩
    · rw [heq]
      exact .pure _
    · rw [heq]
      have hfirst : Returns (Async.first fun db => networked db.charges item) none world db :=
        Async.mayReturn_first.mpr ⟨world, Drifts.refl _, .inl ⟨h, rfl, rfl, rfl⟩⟩
      exact hfirst.bind (.pure _)
  have hheuristic {decided : MatchOutcome}
      (hsingle : ∀ charge, candidates db.charges item world.clock = [charge] →
        decided = matched (some charge) .heuristic false)
      (hambiguous : (∀ charge, candidates db.charges item world.clock ≠ [charge]) →
        decided = noMatch) :
      Returns (MatchStrategy.matchLine .heuristicAmountWindow item) decided world db := by
    change Returns (MatchStrategy.matchHeuristicAmountWindow item) _ _ _
    unfold MatchStrategy.matchHeuristicAmountWindow
    cases hmerchant : item.merchantId with
    | none =>
        obtain rfl := hambiguous fun charge => by simp [candidates, hmerchant]
        exact .pure _
    | some merchantId =>
        simp only [candidates, hmerchant] at hsingle hambiguous
        have hnow : Returns Async.now world.clock world db :=
          Async.mayReturn_now.mpr ⟨world, Drifts.refl _, rfl, rfl, rfl⟩
        refine hnow.bind ?_
        have hselect : Returns (findInAmountWindow merchantId item.currency item.grossMinor
            heuristicAmountSlackMinor (world.clock - heuristicWindow)
            (world.clock + heuristicWindow)) _ world db :=
          Async.mayReturn_select.mpr ⟨world, Drifts.refl _, rfl, rfl, rfl⟩
        refine hselect.bind ?_
        generalize inAmountWindow _ _ _ _ _ _ _ = found at hsingle hambiguous ⊢
        rcases found with _ | ⟨charge, _ | ⟨second, rest⟩⟩
        · obtain rfl := hambiguous (by simp)
          exact .pure _
        · obtain rfl := hsingle charge rfl
          exact .pure _
        · obtain rfl := hambiguous (by simp)
          exact .pure _
  unfold matchStrategies
  cases decides with
  | reference charge found => exact firstHit_hit (hreference found)
  | network charge unreferenced found =>
      refine firstHit_skip (hunreferenced unreferenced) (firstHit_hit ?_)
      change Returns (MatchStrategy.matchNetworkTransaction item) _ _ _
      rcases matchNetworkTransaction_eq item with ⟨hempty, -⟩ | ⟨-, heq⟩
      · rw [networked, if_pos hempty] at found
        cases found
      · rw [heq]
        have hfirst : Returns (Async.first fun db => networked db.charges item) (some charge)
            world db :=
          Async.mayReturn_first.mpr
            ⟨world, Drifts.refl _, .inr ⟨charge, found, rfl, rfl, rfl⟩⟩
        exact hfirst.bind (.pure _)
  | heuristic charge unreferenced unnetworked single =>
      refine firstHit_skip (hunreferenced unreferenced)
        (firstHit_skip (hunnetworked unnetworked) (firstHit_hit (hheuristic ?_ ?_)))
      · intro other hother
        rw [single] at hother
        cases hother
        rfl
      · exact fun ambiguous => absurd single (ambiguous charge)
  | nothing unreferenced unnetworked ambiguous =>
      have hnone := hheuristic (fun charge hsingle => absurd hsingle (ambiguous charge))
        fun _ => rfl
      exact firstHit_skip (hunreferenced unreferenced)
        (firstHit_skip (hunnetworked unnetworked) (firstHit_skip hnone (.pure _)))

/-- Some outcome is possible at any time. -/
theorem exists_decides (charges : List SettlementCharge) (item : ReconciliationItem)
    (instant : Instant) : ∃ outcome, Decides charges item instant outcome := by
  cases hreferenced : referenced charges item with
  | cons charge rest => exact ⟨_, .reference charge (by simp [hreferenced])⟩
  | nil =>
      cases hnetworked : networked charges item with
      | cons charge rest => exact ⟨_, .network charge hreferenced (by simp [hnetworked])⟩
      | nil =>
          by_cases hsingle : ∃ charge, candidates charges item instant = [charge]
          · obtain ⟨charge, hsingle⟩ := hsingle
            exact ⟨_, .heuristic charge hreferenced hnetworked hsingle⟩
          · exact ⟨_, .nothing hreferenced hnetworked fun charge h => hsingle ⟨charge, h⟩⟩

/-! ## All lines -/

/-- What the walk makes of a line: the line stays, and it is attached to the charge
that some possible outcome names. -/
structure Left (charges : List SettlementCharge) (item result : ReconciliationItem)
    (instant : Instant) (outcome : MatchOutcome) : Prop where
  decides : Decides charges item instant outcome
  line : result.line = item.line
  chargeId : result.chargeId =
    match outcome.charge with
    | none => item.chargeId
    | some charge => some charge.chargeId

theorem left_of_matchItem {post : ReconciliationItem → World → Database → Prop}
    (h : mayReturn (matchItem matchStrategies item) post world db) :
    ∃ (world' : World) (db' : Database) (result : ReconciliationItem),
      db'.charges = db.charges ∧
      (∃ instant outcome, Left db.charges item result instant outcome) ∧
      post result world' db' := by
  unfold matchItem at h
  rw [mayReturn_bind] at h
  obtain ⟨world₁, world₂, outcome, decides, h⟩ := decides_of_firstHit h
  cases hcharge : outcome.charge with
  | none =>
      simp only [hcharge] at h
      rw [mayReturn_bind] at h
      obtain ⟨world₃, db', -, hcharges, h⟩ := ReconciliationItem.charges_of_flush h
      rw [mayReturn_pure] at h
      refine ⟨world₃, db', _, hcharges, ?_, h⟩
      exact ⟨world₁.clock, outcome, decides, rfl, by rw [hcharge]⟩
  | some charge =>
      simp only [hcharge] at h
      rw [mayReturn_bind, Async.mark, mayReturn_mark (Y := system), mayReturn_bind,
        Async.mayReturn_now] at h
      obtain ⟨world₃, -, h⟩ := h
      rw [mayReturn_bind] at h
      obtain ⟨world₄, db', -, hcharges, h⟩ := ReconciliationItem.charges_of_flush h
      rw [mayReturn_pure] at h
      refine ⟨world₄, db', _, hcharges, ⟨world₁.clock, outcome, decides, ?_, ?_⟩, h⟩
      · exact applyMatch_line item charge outcome.method
      · rw [hcharge]
        exact applyMatch_chargeId item charge outcome.method

theorem matchItem_of_decides {outcome : MatchOutcome}
    {post : ReconciliationItem → World → Database → Prop}
    (decides : Decides db.charges item world.clock outcome)
    (hpost : ∀ result db', db'.charges = db.charges →
      Left db.charges item result world.clock outcome → post result world db') :
    mayReturn (matchItem matchStrategies item) post world db := by
  unfold matchItem
  refine (firstHit_of_decides decides).mayReturn_bind ?_
  cases hcharge : outcome.charge with
  | none =>
      dsimp only
      rw [mayReturn_bind]
      refine ReconciliationItem.mayReturn_flush fun db' hcharges => ?_
      rw [mayReturn_pure]
      exact hpost _ _ hcharges ⟨decides, rfl, by rw [hcharge]⟩
  | some charge =>
      dsimp only
      rw [mayReturn_bind, Async.mark, mayReturn_mark (Y := system), mayReturn_bind,
        Async.mayReturn_now]
      refine ⟨world, Drifts.refl _, ?_⟩
      rw [mayReturn_bind]
      refine ReconciliationItem.mayReturn_flush fun db' hcharges => ?_
      rw [mayReturn_pure]
      refine hpost _ _ hcharges ⟨decides, ?_, ?_⟩
      · exact applyMatch_line item charge outcome.method
      · rw [hcharge]
        exact applyMatch_chargeId item charge outcome.method

/-- Whatever the walk leaves, each line went its own way. -/
theorem left_of_matchItems {items : List ReconciliationItem}
    {post : List ReconciliationItem → World → Database → Prop}
    (h : mayReturn (matchItems matchStrategies items) post world db) :
    ∃ (world' : World) (db' : Database) (results : List ReconciliationItem),
      List.Forall₂ (fun item result =>
        ∃ instant outcome, Left db.charges item result instant outcome) items results ∧
      post results world' db' := by
  induction items generalizing world db post with
  | nil => exact ⟨world, db, [], .nil, (mayReturn_pure _).mp h⟩
  | cons item items ih =>
      unfold matchItems at h
      rw [mayReturn_bind] at h
      obtain ⟨world₁, db₁, result, hcharges, hleft, h⟩ := left_of_matchItem h
      rw [mayReturn_bind] at h
      obtain ⟨world₂, db₂, results, hresults, h⟩ := ih h
      rw [mayReturn_pure] at h
      rw [hcharges] at hresults
      exact ⟨world₂, db₂, result :: results, .cons hleft hresults, h⟩

/-- The walk may give each line any outcome that is possible for it now. -/
theorem matchItems_of_decides {charges : List SettlementCharge}
    {items : List ReconciliationItem} {pick : ReconciliationItem → MatchOutcome}
    {post : List ReconciliationItem → World → Database → Prop} (hcharges : db.charges = charges)
    (decides : ∀ item ∈ items, Decides charges item world.clock (pick item))
    (hpost : ∀ results db',
      List.Forall₂ (fun item result => Left charges item result world.clock (pick item)) items
        results →
      post results world db') :
    mayReturn (matchItems matchStrategies items) post world db := by
  induction items generalizing db post with
  | nil => exact (mayReturn_pure _).mpr (hpost [] db .nil)
  | cons item items ih =>
      obtain ⟨decide, hrest⟩ := List.forall_mem_cons.mp decides
      rw [← hcharges] at decide
      unfold matchItems
      rw [mayReturn_bind]
      refine matchItem_of_decides decide fun result db' hcharges' left => ?_
      rw [mayReturn_bind]
      refine ih (hcharges'.trans hcharges) hrest fun results db'' lefts => ?_
      rw [mayReturn_pure]
      rw [hcharges] at left
      exact hpost _ db'' (.cons left lefts)

/-! ## The matcher is sound and timeless -/

/-- What a walk that begins in this world may leave of the items. -/
def MatchesTo (db : Database) (world : World) (items results : List ReconciliationItem) :
    Prop :=
  mayReturn (matchItems matchStrategies items) (fun left _ _ => left = results) world db

/-- The charge is of the line's own acquirer, currency and livemode. -/
def SameBooks (item : ReconciliationItem) (charge : SettlementCharge) : Prop :=
  charge.acquirer = item.acquirer ∧ charge.currency = item.currency ∧
    charge.livemode = item.livemode

instance (item : ReconciliationItem) (charge : SettlementCharge) :
    Decidable (SameBooks item charge) :=
  inferInstanceAs (Decidable (_ ∧ _ ∧ _))

/-- Whenever the walk is made, it attaches items to charges of their own books. -/
def MatchesSoundly (db : Database) (items : List ReconciliationItem) : Prop :=
  ∀ world results, MatchesTo db world items results →
    ∀ item ∈ results, ∀ charge ∈ db.charges, item.chargeId = some charge.chargeId →
      SameBooks item charge

/-- Any two walks, at whatever times, attach the items to the same charges. -/
def MatchesTimelessly (db : Database) (items : List ReconciliationItem) : Prop :=
  ∀ world world' results results', MatchesTo db world items results →
    MatchesTo db world' items results' →
    results.map (·.chargeId) = results'.map (·.chargeId)

/-- The line's reference, or else its network reference, is on one charge, of the
line's own books; or no charge carries either, and the heuristic has never a single
candidate. -/
def Pinned (charges : List SettlementCharge) (item : ReconciliationItem) : Prop :=
  match referenced charges item, networked charges item with
  | [charge], _ => SameBooks item charge
  | [], [charge] => SameBooks item charge
  | [], [] => ∀ instant, (candidates charges item instant).length ≠ 1
  | _, _ => False

/-- The heuristic looks around the time of the walk, so it finds nothing later on. -/
theorem exists_no_candidates (charges : List SettlementCharge) (item : ReconciliationItem) :
    ∃ instant, candidates charges item instant = [] := by
  have hbound : ∃ bound : Nat, ∀ charge ∈ charges, @LT.lt Nat _ charge.authorizedAt bound := by
    induction charges with
    | nil => exact ⟨0, by simp⟩
    | cons charge charges ih =>
        obtain ⟨bound, hbound⟩ := ih
        refine ⟨bound + charge.authorizedAt + 1, fun other hother => ?_⟩
        rcases List.mem_cons.mp hother with rfl | hother
        · omega
        · have := hbound other hother
          omega
  obtain ⟨bound, hbound⟩ := hbound
  refine ⟨bound + heuristicWindow, ?_⟩
  unfold candidates
  cases item.merchantId with
  | none => rfl
  | some merchantId =>
      have hnone : ∀ charge ∈ charges, ¬ (charge.merchantId = merchantId ∧
          charge.currency = item.currency ∧
          item.grossMinor - heuristicAmountSlackMinor ≤ charge.amountMinor ∧
          charge.amountMinor ≤ item.grossMinor + heuristicAmountSlackMinor ∧
          bound + heuristicWindow - heuristicWindow ≤ charge.authorizedAt ∧
          charge.authorizedAt ≤ bound + heuristicWindow + heuristicWindow) := by
        rintro charge hcharge ⟨-, -, -, -, hfrom, -⟩
        rw [Nat.add_sub_cancel] at hfrom
        exact absurd (hbound charge hcharge) (Nat.not_lt.mpr hfrom)
      dsimp only [inAmountWindow]
      rw [List.filter_eq_nil_iff.mpr fun charge hcharge => by
        simpa using hnone charge hcharge]
      rfl

theorem Decides.charge_mem {charges : List SettlementCharge} {instant : Instant}
    {outcome : MatchOutcome} (decides : Decides charges item instant outcome)
    {charge : SettlementCharge} (hcharge : outcome.charge = some charge) :
    charge ∈ charges := by
  cases decides with
  | reference found h =>
      cases hcharge
      exact (List.mem_filter.mp h).1
  | network found _ h =>
      cases hcharge
      unfold networked at h
      split at h
      · cases h
      · exact (List.mem_filter.mp h).1
  | heuristic found _ _ h =>
      obtain rfl : found = charge := Option.some.inj hcharge
      have hmem : found ∈ candidates charges item instant := by simp [h]
      unfold candidates at hmem
      split at hmem
      · cases hmem
      · have htake := List.mem_of_mem_take hmem
        rw [List.mem_insertionSort] at htake
        exact (List.mem_filter.mp htake).1
  | nothing _ _ _ => cases hcharge

/-- A pinned line has one outcome at all times. -/
theorem Pinned.outcome {charges : List SettlementCharge} (pinned : Pinned charges item) :
    ∃ found : Option SettlementCharge, (∀ charge, found = some charge → SameBooks item charge) ∧
      ∀ instant outcome, Decides charges item instant outcome → outcome.charge = found := by
  unfold Pinned at pinned
  split at pinned
  · next charge hreferenced =>
      refine ⟨some charge, fun other hother => Option.some.inj hother ▸ pinned, ?_⟩
      intro instant outcome decides
      cases decides with
      | reference other found =>
          rw [hreferenced, List.mem_singleton] at found
          rw [found]
          rfl
      | network _ unreferenced _ => simp [hreferenced] at unreferenced
      | heuristic _ unreferenced _ _ => simp [hreferenced] at unreferenced
      | nothing unreferenced _ _ => simp [hreferenced] at unreferenced
  · next charge hreferenced hnetworked =>
      refine ⟨some charge, fun other hother => Option.some.inj hother ▸ pinned, ?_⟩
      intro instant outcome decides
      cases decides with
      | reference other found => simp [hreferenced] at found
      | network other _ found =>
          rw [hnetworked, List.mem_singleton] at found
          rw [found]
          rfl
      | heuristic _ _ unnetworked _ => simp [hnetworked] at unnetworked
      | nothing _ unnetworked _ => simp [hnetworked] at unnetworked
  · next hreferenced hnetworked =>
      refine ⟨none, (fun other hother => by cases hother), ?_⟩
      intro instant outcome decides
      cases decides with
      | reference other found => simp [hreferenced] at found
      | network other _ found => simp [hnetworked] at found
      | heuristic other _ _ single =>
          refine absurd ?_ (pinned instant)
          rw [single]
          rfl
      | nothing _ _ _ => rfl
  · cases pinned

/-- Two different rows that carry the same reference have different ids. -/
theorem chargeId_ne_of_filter {charges : List SettlementCharge}
    (distinct : (charges.map (·.chargeId)).Nodup) {test : SettlementCharge → Bool}
    {first second : SettlementCharge} {rest : List SettlementCharge}
    (hfilter : charges.filter test = first :: second :: rest) :
    first.chargeId ≠ second.chargeId := by
  have hsub : List.Sublist ((first :: second :: rest).map (·.chargeId))
      (charges.map (·.chargeId)) := by
    rw [← hfilter]
    exact List.filter_sublist.map _
  have hnodup := distinct.sublist hsub
  simp only [List.map_cons, List.nodup_cons, List.mem_cons, not_or] at hnodup
  exact hnodup.1.1

/-- A line whose outcomes agree and keep to its books is pinned. -/
theorem pinned_of_decides {charges : List SettlementCharge}
    (distinct : (charges.map (·.chargeId)).Nodup)
    (books : ∀ instant outcome charge, Decides charges item instant outcome →
      outcome.charge = some charge → SameBooks item charge)
    (agree : ∀ instant instant' outcome outcome', Decides charges item instant outcome →
      Decides charges item instant' outcome' →
      outcome.charge.map (·.chargeId) = outcome'.charge.map (·.chargeId)) :
    Pinned charges item := by
  unfold Pinned
  cases hreferenced : referenced charges item with
  | cons charge rest =>
      have hfound : charge ∈ referenced charges item := by simp [hreferenced]
      cases rest with
      | nil => exact books 0 _ charge (.reference charge hfound) rfl
      | cons second rest =>
          have hsecond : second ∈ referenced charges item := by simp [hreferenced]
          have hsame := agree 0 0 _ _ (.reference charge hfound) (.reference second hsecond)
          exact absurd (Option.some.inj hsame) (chargeId_ne_of_filter distinct hreferenced)
  | nil =>
      cases hnetworked : networked charges item with
      | cons charge rest =>
          have hfound : charge ∈ networked charges item := by simp [hnetworked]
          cases rest with
          | nil => exact books 0 _ charge (.network charge hreferenced hfound) rfl
          | cons second rest =>
              have hsecond : second ∈ networked charges item := by simp [hnetworked]
              have hsame := agree 0 0 _ _ (.network charge hreferenced hfound)
                (.network second hreferenced hsecond)
              unfold networked at hnetworked
              split at hnetworked
              · cases hnetworked
              · exact absurd (Option.some.inj hsame)
                  (chargeId_ne_of_filter distinct hnetworked)
      | nil =>
          intro instant hone
          obtain ⟨charge, hsingle⟩ := List.length_eq_one_iff.mp hone
          obtain ⟨later, hnone⟩ := exists_no_candidates charges item
          have hsame := agree instant later _ _
            (.heuristic charge hreferenced hnetworked hsingle)
            (.nothing hreferenced hnetworked fun other hother => by simp [hnone] at hother)
          cases hsame

theorem SameBooks.of_line {item result : ReconciliationItem} {charge : SettlementCharge}
    (hline : result.line = item.line) : SameBooks result charge ↔ SameBooks item charge := by
  have hacquirer : result.acquirer = item.acquirer := congrArg (·.acquirer) hline
  have hcurrency : result.currency = item.currency := congrArg (·.currency) hline
  have hlivemode : result.livemode = item.livemode := congrArg (·.livemode) hline
  unfold SameBooks
  rw [hacquirer, hcurrency, hlivemode]

/-- Any outcome that is possible for a line now is that of some walk. -/
theorem exists_matchesTo (db : Database) (world : World) (items : List ReconciliationItem)
    {outcome : MatchOutcome} (decides : Decides db.charges item world.clock outcome) :
    ∃ (pick : ReconciliationItem → MatchOutcome) (results : List ReconciliationItem),
      pick item = outcome ∧ MatchesTo db world items results ∧
      List.Forall₂ (fun item result => Left db.charges item result world.clock (pick item))
        items results := by
  have hpick : ∃ pick : ReconciliationItem → MatchOutcome, pick item = outcome ∧
      ∀ other, Decides db.charges other world.clock (pick other) := by
    choose pick hpick using fun other => exists_decides db.charges other world.clock
    refine ⟨Function.update pick item outcome, Function.update_self .., fun other => ?_⟩
    by_cases heq : other = item
    · rw [heq, Function.update_self]
      exact decides
    · rw [Function.update_of_ne heq]
      exact hpick other
  obtain ⟨pick, hitem, hdecides⟩ := hpick
  have hwalk : mayReturn (matchItems matchStrategies items) (fun results _ _ =>
      List.Forall₂ (fun item result => Left db.charges item result world.clock (pick item))
        items results) world db :=
    matchItems_of_decides rfl (fun other _ => hdecides other) fun _ _ hlefts => hlefts
  obtain ⟨results, ⟨-, -, hlefts⟩, hmatches⟩ := mayReturn_exists hwalk
  exact ⟨pick, results, hitem, hmatches, hlefts⟩

theorem Left.chargeId_eq {charges : List SettlementCharge} {item result : ReconciliationItem}
    {instant : Instant} {outcome : MatchOutcome} (left : Left charges item result instant outcome)
    (unattached : item.chargeId = none) :
    result.chargeId = outcome.charge.map (·.chargeId) := by
  rw [left.chargeId]
  cases outcome.charge with
  | none => exact unattached
  | some charge => rfl

theorem map_chargeId_eq {charges : List SettlementCharge} {instant : Instant}
    {items results : List ReconciliationItem} {pick : ReconciliationItem → MatchOutcome}
    (unattached : ∀ item ∈ items, item.chargeId = none)
    (lefts : List.Forall₂ (fun item result => Left charges item result instant (pick item))
      items results) :
    results.map (·.chargeId) = items.map fun item => (pick item).charge.map (·.chargeId) := by
  induction lefts with
  | nil => rfl
  | cons left _ ih =>
      obtain ⟨hitem, hitems⟩ := List.forall_mem_cons.mp unattached
      rw [List.map_cons, List.map_cons, ih hitems, left.chargeId_eq hitem]

theorem map_chargeId_unique {charges : List SettlementCharge}
    {items results results' : List ReconciliationItem}
    (unattached : ∀ item ∈ items, item.chargeId = none)
    (pinned : ∀ item ∈ items, Pinned charges item)
    (lefts : List.Forall₂ (fun item result =>
      ∃ instant outcome, Left charges item result instant outcome) items results)
    (lefts' : List.Forall₂ (fun item result =>
      ∃ instant outcome, Left charges item result instant outcome) items results') :
    results.map (·.chargeId) = results'.map (·.chargeId) := by
  induction lefts generalizing results' with
  | nil =>
      cases lefts'
      rfl
  | cons hleft _ ih =>
      cases lefts' with
      | cons hleft' lefts' =>
          obtain ⟨hitem, hitems⟩ := List.forall_mem_cons.mp unattached
          obtain ⟨hpinned, hpinneds⟩ := List.forall_mem_cons.mp pinned
          obtain ⟨instant, outcome, left⟩ := hleft
          obtain ⟨instant', outcome', left'⟩ := hleft'
          obtain ⟨found, -, honly⟩ := hpinned.outcome
          rw [List.map_cons, List.map_cons, ih hitems hpinneds lefts', left.chargeId_eq hitem,
            left'.chargeId_eq hitem, honly _ _ left.decides, honly _ _ left'.decides]

/-- The matcher attaches lines soundly and timelessly just when every line is pinned. -/
theorem matches_iff_pinned {db : Database} {items : List ReconciliationItem}
    (distinct : (db.charges.map (·.chargeId)).Nodup)
    (unattached : ∀ item ∈ items, item.chargeId = none) :
    MatchesSoundly db items ∧ MatchesTimelessly db items ↔
      ∀ item ∈ items, Pinned db.charges item := by
  constructor
  · rintro ⟨sound, timeless⟩ item hitem
    refine pinned_of_decides distinct ?_ ?_
    · intro instant outcome charge decides hcharge
      obtain ⟨pick, results, hpick, hmatches, lefts⟩ := exists_matchesTo db
        { clock := instant } items decides
      obtain ⟨result, hresult, left⟩ := exists_right_of_forall₂ lefts hitem
      have hid : result.chargeId = some charge.chargeId := by
        rw [left.chargeId_eq (unattached item hitem), hpick, hcharge]
        rfl
      exact (SameBooks.of_line left.line).mp
        (sound _ results hmatches result hresult charge (decides.charge_mem hcharge) hid)
    · intro instant instant' outcome outcome' decides decides'
      obtain ⟨pick, results, hpick, hmatches, lefts⟩ := exists_matchesTo db
        { clock := instant } items decides
      obtain ⟨pick', results', hpick', hmatches', lefts'⟩ := exists_matchesTo db
        { clock := instant' } items decides'
      have hsame := timeless _ _ results results' hmatches hmatches'
      rw [map_chargeId_eq unattached lefts, map_chargeId_eq unattached lefts'] at hsame
      have hat := List.map_inj_left.mp hsame item hitem
      rwa [hpick, hpick'] at hat
  · intro pinned
    have hlefts {world : World} {results : List ReconciliationItem}
        (hmatches : MatchesTo db world items results) : List.Forall₂ (fun item result =>
          ∃ instant outcome, Left db.charges item result instant outcome) items results := by
      obtain ⟨-, -, results', lefts, rfl⟩ := left_of_matchItems hmatches
      exact lefts
    constructor
    · intro world results hmatches result hresult charge hcharge hid
      obtain ⟨item, hitem, instant, outcome, left⟩ :=
        exists_left_of_forall₂ (hlefts hmatches) hresult
      obtain ⟨found, hbooks, honly⟩ := (pinned item hitem).outcome
      have houtcome := honly _ _ left.decides
      rw [left.chargeId_eq (unattached item hitem)] at hid
      obtain ⟨other, hother, hsame⟩ := Option.map_eq_some_iff.mp hid
      have heq : other = charge :=
        List.inj_on_of_nodup_map distinct (left.decides.charge_mem hother) hcharge hsame
      subst heq
      rw [SameBooks.of_line left.line]
      exact hbooks other (houtcome.symm.trans hother)
    · intro world world' results results' hmatches hmatches'
      exact map_chargeId_unique unattached pinned (hlefts hmatches) (hlefts hmatches')

/-- A line of five euros that no charge is attached to yet. -/
def sampleLine : ReconciliationItem :=
  { sampleItem "ri_1" "sb_1" with chargeId := none, expectedGrossMinor := none }

/-- The charge of five euros, under the reference of the line. -/
def referencedCharge : SettlementCharge :=
  { sampleCharge false with processorReference := some "ri_1" }

theorem matches_iff_pinned_reference :
    MatchesSoundly { charges := [referencedCharge] } [sampleLine] ∧
      MatchesTimelessly { charges := [referencedCharge] } [sampleLine] := by
  refine (matches_iff_pinned (by decide) (by decide)).mpr ?_
  intro item hitem
  rw [List.mem_singleton.mp hitem]
  change SameBooks sampleLine referencedCharge
  decide

/-- A pushed line of a merchant is attached to a charge of the day if it comes at once,
and to none if it comes three days later; a line in dollars is attached to the
charge in euros that shares its reference. -/
theorem matches_by_import_time :
    ¬ MatchesTimelessly { charges := [sampleCharge false] } [sampleLine] ∧
      ¬ MatchesSoundly { charges := [referencedCharge] }
        [{ sampleLine with currency := "USD" }] := by
  constructor
  · intro timeless
    have hnow : Decides [sampleCharge false] sampleLine 10
        (matched (some (sampleCharge false)) .heuristic false) :=
      .heuristic _ (by decide) (by decide) (by decide)
    have hlater : Decides [sampleCharge false] sampleLine (3 * 86400000000) noMatch :=
      .nothing (by decide) (by decide) fun charge hsingle => by
        have hnone : candidates [sampleCharge false] sampleLine (3 * 86400000000) = [] := by
          decide
        rw [hnone] at hsingle
        cases hsingle
    obtain ⟨pick, results, hpick, hmatches, lefts⟩ := exists_matchesTo
      { charges := [sampleCharge false] } { clock := 10 } [sampleLine] hnow
    obtain ⟨pick', results', hpick', hmatches', lefts'⟩ := exists_matchesTo
      { charges := [sampleCharge false] } { clock := 3 * 86400000000 } [sampleLine] hlater
    have hsame := timeless _ _ results results' hmatches hmatches'
    rw [map_chargeId_eq (by decide) lefts, map_chargeId_eq (by decide) lefts'] at hsame
    simp only [List.map_cons, hpick, hpick'] at hsame
    cases hsame
  · intro sound
    have hfound : Decides [referencedCharge] { sampleLine with currency := "USD" } 10
        (matched (some referencedCharge) .exactReference true) :=
      .reference _ (by decide)
    obtain ⟨pick, results, hpick, hmatches, lefts⟩ := exists_matchesTo
      { charges := [referencedCharge] } { clock := 10 } [{ sampleLine with currency := "USD" }]
      hfound
    obtain ⟨result, hresult, left⟩ := exists_right_of_forall₂ lefts List.mem_cons_self
    have hbooks := sound _ results hmatches result hresult referencedCharge
      (List.mem_singleton.mpr rfl) (by rw [left.chargeId_eq rfl, hpick]; rfl)
    rw [SameBooks.of_line left.line] at hbooks
    revert hbooks
    decide

end PayzenoLedger
