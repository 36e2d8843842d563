import PayzenoLedger.Library.Raises
import PayzenoLedger.Services.Matching

/-!
# The match walk

`match_items` over whatever strategies it is given: each is asked what it makes of an item,
in order, until one names a charge.  The walk is independent of how a strategy looks a charge
up, so here a strategy is the outcome that it has for every item; whatever the lookups of the
container's strategies find, its walk leaves the items as this one does.
-/

set_option autoImplicit false

namespace PayzenoLedger

namespace Matcher

/-- What a strategy decided, field by field. -/
structure MatchOutcome where
  chargeId : Option String
  method : MatchMethod
  confident : Bool
  merchantId : Option String := none
  expectedGrossMinor : Option Int := none
deriving DecidableEq, Repr

/-- `NO_MATCH`. -/
def noMatch : MatchOutcome where
  chargeId := none
  method := .unmatched
  confident := false

/-- `_matched`. -/
def matched (charge : SettlementCharge) (method : MatchMethod) (confident : Bool) :
    MatchOutcome where
  chargeId := some charge.chargeId
  method := method
  confident := confident
  merchantId := some charge.merchantId
  expectedGrossMinor := some charge.amountMinor

/-- Attach a matched charge to an item.  The expected amount and the variance are set for
sale lines only. -/
def applyMatch (item : ReconciliationItem) (outcome : MatchOutcome) : ReconciliationItem :=
  let attached :=
    { item with
      chargeId := outcome.chargeId
      matchMethod := outcome.method
      merchantId := match item.merchantId with
        | none => outcome.merchantId
        | some merchantId => some merchantId }
  match outcome.expectedGrossMinor with
  | none => attached
  | some expectedGrossMinor =>
      if item.lineType = .sale then
        let expected := { attached with expectedGrossMinor := some expectedGrossMinor }
        { expected with varianceMinor := expected.computeVarianceMinor }
      else attached

/-- With an outcome of the container's strategies this is the step that the programs take. -/
theorem applyMatch_matched (item : ReconciliationItem) (charge : SettlementCharge)
    (method : MatchMethod) (confident : Bool) :
    applyMatch item (matched charge method confident) =
      PayzenoLedger.applyMatch item charge method := rfl

abbrev Strategy := ReconciliationItem → MatchOutcome

/-- The inner loop, with the outcome in hand: it breaks at the first that names a charge. -/
def tryStrategies (item : ReconciliationItem) : List Strategy → MatchOutcome → MatchOutcome
  | [], outcome => outcome
  | strategy :: strategies, _ =>
      let outcome := strategy item
      if outcome.chargeId.isSome then outcome else tryStrategies item strategies outcome

/-- One turn of the outer loop: the item as it is left, and whether it counts as matched. -/
def matchItem (strategies : List Strategy) (now : Instant) (item : ReconciliationItem) :
    ReconciliationItem × Bool :=
  let outcome := tryStrategies item strategies noMatch
  if outcome.chargeId.isNone then ({ item with matchMethod := .unmatched }, false)
  else
    let attached := { applyMatch item outcome with matchedAt := some now }
    (if outcome.confident then attached else { attached with status := .needsReview }, true)

/-- The outer loop from a count on; the clock is read once for every item that is matched. -/
def walk (strategies : List Strategy) (clock : Nat → Instant) (count : Nat) :
    List ReconciliationItem → List ReconciliationItem × Nat
  | [] => ([], count)
  | item :: items =>
      let (left, hit) := matchItem strategies (clock count) item
      let (rest, matched) := walk strategies clock (if hit then count + 1 else count) items
      (left :: rest, matched)

/-- `match_items`: the items as they are left, and the number it returns. -/
def matchItems (items : List ReconciliationItem) (strategies : List Strategy)
    (clock : Nat → Instant) : List ReconciliationItem × Nat :=
  walk strategies clock 0 items

/-! ## What the walk decides -/

/-- The outcome of the first strategy that names a charge. -/
def decision (strategies : List Strategy) (item : ReconciliationItem) : Option MatchOutcome :=
  (strategies.map fun strategy => strategy item).find? fun outcome => outcome.chargeId.isSome

/-- The item has the outcome and nothing else changed. -/
structure Attached (outcome : MatchOutcome) (item left : ReconciliationItem) : Prop where
  charge : left.chargeId = outcome.chargeId
  method : left.matchMethod = outcome.method
  merchant : left.merchantId = item.merchantId.or outcome.merchantId
  review : outcome.confident = false → left.status = .needsReview
  untouched : outcome.confident = true → left.status = item.status
  recomputed : item.lineType = .sale → ∀ expected, outcome.expectedGrossMinor = some expected →
    left.expectedGrossMinor = some expected ∧ left.varianceMinor = item.grossMinor - expected
  kept : item.lineType ≠ .sale ∨ outcome.expectedGrossMinor = none →
    left.expectedGrossMinor = item.expectedGrossMinor ∧ left.varianceMinor = item.varianceMinor
  rest : { item with
    chargeId := left.chargeId
    matchMethod := left.matchMethod
    matchedAt := left.matchedAt
    merchantId := left.merchantId
    status := left.status
    expectedGrossMinor := left.expectedGrossMinor
    varianceMinor := left.varianceMinor } = left

/-- How the walk leaves an item: with the decision, or with no more than the method that
says that there was none. -/
def Walked (strategies : List Strategy) (item left : ReconciliationItem) : Prop :=
  match decision strategies item with
  | some outcome => Attached outcome item left
  | none => left = { item with matchMethod := .unmatched }

variable {strategies : List Strategy} {item : ReconciliationItem}

theorem tryStrategies_some {outcome held : MatchOutcome}
    (h : decision strategies item = some outcome) :
    tryStrategies item strategies held = outcome := by
  induction strategies generalizing held with
  | nil => cases h
  | cons strategy strategies ih =>
      unfold tryStrategies
      unfold decision at h ih
      rw [List.map_cons, List.find?_cons] at h
      cases hnames : (strategy item).chargeId.isSome with
      | true =>
          rw [hnames] at h
          simp only [hnames, if_true]
          exact Option.some.inj h
      | false =>
          rw [hnames] at h
          simp only [hnames, Bool.false_eq_true, if_false]
          exact ih h

/-- Where nothing is decided, the outcome in hand at the end names no charge either. -/
theorem tryStrategies_none {held : MatchOutcome} (hheld : held.chargeId = none)
    (h : decision strategies item = none) :
    (tryStrategies item strategies held).chargeId = none := by
  induction strategies generalizing held with
  | nil => exact hheld
  | cons strategy strategies ih =>
      unfold tryStrategies
      unfold decision at h ih
      rw [List.map_cons, List.find?_cons] at h
      cases hnames : (strategy item).chargeId.isSome with
      | true =>
          rw [hnames] at h
          cases h
      | false =>
          rw [hnames] at h
          simp only [hnames, Bool.false_eq_true, if_false]
          exact ih (Option.isSome_eq_false_iff.mp hnames |> Option.isNone_iff_eq_none.mp) h

theorem decision_names {outcome : MatchOutcome} (h : decision strategies item = some outcome) :
    outcome.chargeId.isSome = true := by
  unfold decision at h
  exact List.find?_some (p := fun outcome : MatchOutcome => outcome.chargeId.isSome) h

theorem attached_applyMatch (outcome : MatchOutcome) (item : ReconciliationItem)
    (now : Instant) :
    Attached outcome item
      (if outcome.confident then { applyMatch item outcome with matchedAt := some now }
       else { applyMatch item outcome with matchedAt := some now, status := .needsReview }) := by
  unfold applyMatch
  rcases outcome with ⟨chargeId, method, confident, merchantId, _ | expected⟩
  · cases confident <;> cases hmerchant : item.merchantId <;> constructor <;> simp [hmerchant]
  · by_cases hsale : item.lineType = .sale
    · cases confident <;> cases hmerchant : item.merchantId <;> constructor <;>
        simp [hmerchant, hsale, ReconciliationItem.computeVarianceMinor]
    · cases confident <;> cases hmerchant : item.merchantId <;> constructor <;>
        simp [hmerchant, hsale]

/-- One turn leaves the item as decided and counts it when there was a decision. -/
theorem matchItem_walked (strategies : List Strategy) (now : Instant)
    (item : ReconciliationItem) :
    Walked strategies item (matchItem strategies now item).1 ∧
      (matchItem strategies now item).2 = (decision strategies item).isSome := by
  unfold Walked matchItem
  cases h : decision strategies item with
  | none =>
      have hnone : (tryStrategies item strategies noMatch).chargeId = none :=
        tryStrategies_none rfl h
      simp [hnone]
  | some outcome =>
      rw [tryStrategies_some h]
      obtain ⟨chargeId, hcharge⟩ := Option.isSome_iff_exists.mp (decision_names h)
      have attached := attached_applyMatch outcome item now
      simp only [hcharge, Option.isNone_some, Bool.false_eq_true, if_false]
      exact ⟨attached, rfl⟩

theorem walk_walked (strategies : List Strategy) (clock : Nat → Instant) (count : Nat)
    (items : List ReconciliationItem) :
    List.Forall₂ (Walked strategies) items (walk strategies clock count items).1 ∧
      (walk strategies clock count items).2 =
        count + items.countP fun item => (decision strategies item).isSome := by
  induction items generalizing count with
  | nil => exact ⟨.nil, rfl⟩
  | cons item items ih =>
      obtain ⟨hwalked, hcounts⟩ :=
        matchItem_walked strategies (clock count) item
      obtain ⟨hrest, hcount⟩ := ih (if (decision strategies item).isSome then count + 1 else count)
      simp only [walk]
      rw [hcounts]
      constructor
      · exact .cons hwalked hrest
      · rw [hcount, List.countP_cons]
        cases (decision strategies item).isSome with
        | true =>
            simp only [if_true]
            omega
        | false => simp

/-- Every item is left as its first hit decides, and the count is that of the hits. -/
theorem matchItems_walked (items : List ReconciliationItem) (strategies : List Strategy)
    (clock : Nat → Instant) :
    List.Forall₂ (Walked strategies) items (matchItems items strategies clock).1 ∧
      (matchItems items strategies clock).2 =
        items.countP fun item => (decision strategies item).isSome := by
  have walked := walk_walked strategies clock 0 items
  rwa [Nat.zero_add] at walked

/-! ## The walk of the container -/

/-- The outcome with the charge that was found, field by field. -/
def ofCharge (outcome : PayzenoLedger.MatchOutcome) : MatchOutcome :=
  match outcome.charge with
  | none => noMatch
  | some charge => matched charge outcome.method outcome.confident

/-- The strategies, each with the outcome that it had for the item, leave the item so. -/
def WalkedBy (strategies : List MatchStrategy) (item left : ReconciliationItem) : Prop :=
  ∃ (asked : List Strategy) (now : Instant), asked.length = strategies.length ∧
    left = (matchItem asked now item).1

open Library.Raising

theorem yields_firstHit (item : ReconciliationItem) (strategies : List MatchStrategy) :
    Yields (firstHit item strategies) fun outcome => ∃ asked : List Strategy,
      asked.length = strategies.length ∧ tryStrategies item asked noMatch = ofCharge outcome := by
  induction strategies with
  | nil => exact .pure ⟨[], rfl, rfl⟩
  | cons strategy strategies ih =>
      refine .bind (.trivial _) fun outcome _ => ?_
      cases hcharge : outcome.charge with
      | some charge =>
          refine .pure ⟨(fun _ => ofCharge outcome) :: strategies.map fun _ _ => noMatch, ?_, ?_⟩
          · simp
          · simp [tryStrategies, ofCharge, hcharge, matched]
      | none =>
          -- A strategy that found nothing is passed over.
          rw [if_neg (by simp)]
          refine ih.mono fun found hfound => ?_
          obtain ⟨asked, hlength, hasked⟩ := hfound
          exact ⟨(fun _ => noMatch) :: asked, congrArg (· + 1) hlength, hasked⟩

theorem yields_matchItem (strategies : List MatchStrategy) (item : ReconciliationItem) :
    Yields (PayzenoLedger.matchItem strategies item) (WalkedBy strategies item) := by
  refine .bind (yields_firstHit item strategies) fun outcome hasked => ?_
  obtain ⟨asked, hlength, hasked⟩ := hasked
  cases hcharge : outcome.charge with
  | none =>
      refine .bind (.trivial _) fun _ _ => .pure ⟨asked, 0, hlength, ?_⟩
      unfold matchItem
      rw [hasked]
      simp [ofCharge, hcharge, noMatch]
  | some charge =>
      refine .bind (.trivial _) fun _ _ => .bind (.trivial _) fun now _ => ?_
      refine .bind (.trivial _) fun _ _ => .pure ⟨asked, now, hlength, ?_⟩
      have happlied : applyMatch item (ofCharge outcome) =
          PayzenoLedger.applyMatch item charge outcome.method := by
        unfold ofCharge
        rw [hcharge]
        exact applyMatch_matched item charge outcome.method outcome.confident
      unfold matchItem
      rw [hasked]
      dsimp only
      rw [happlied]
      cases hconfident : outcome.confident <;> simp [ofCharge, hcharge, matched, hconfident]

/-- Whatever the lookups find, the container's walk leaves every item as the walk does. -/
theorem yields_matchItems (strategies : List MatchStrategy) (items : List ReconciliationItem) :
    Yields (PayzenoLedger.matchItems strategies items)
      (List.Forall₂ (WalkedBy strategies) items) := by
  induction items with
  | nil => exact .pure .nil
  | cons item items ih =>
      refine .bind (yields_matchItem strategies item) fun left hleft => ?_
      exact .bind ih fun rest hrest => .pure (.cons hleft hrest)

end Matcher

end PayzenoLedger
