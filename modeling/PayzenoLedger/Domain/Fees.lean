import PayzenoLedger.Domain.Fx

/-!
# Fees of several components

A composite fee is split over its components: each is rounded by itself, and what that leaves
between their sum and the rounded total goes to one of them, whatever it holds.
-/

set_option autoImplicit false

namespace PayzenoLedger

open Library

/-- One addend of a composite fee. -/
structure FeeComponent where
  name : String
  bps : Int
  fixedMinor : Int := 0
deriving DecidableEq, Repr

structure FeeBreakdown where
  total : Money
  components : List (String × Money)
  remainderMinor : Int
deriving DecidableEq, Repr

/-- `MARKUP_COMPONENT`. -/
def markupComponent : String := "platform_markup"

/-- `gross * bps / 10_000 + fixed_minor`, as the context computes it. -/
def feeDecimal (grossMinor : Int) (component : FeeComponent) : Decimal :=
  Decimal.add decimalPrecision
    (Decimal.scaleb decimalPrecision (-4)
      (Decimal.mul decimalPrecision (.ofInt grossMinor) (.ofInt component.bps)))
    (.ofInt component.fixedMinor)

/-- Round a decimal to whole minor units. -/
def wholeMinor (decimal : Decimal) : Except Exception Int :=
  match decimal.quantize decimalPrecision 0 with
  | none => .error (.builtin .arithmeticError)
  | some quantised => .ok quantised.coefficient

/-- The loop over the components, with the exact total and the parts in hand. -/
def addComponents (grossMinor : Int) :
    List FeeComponent → Decimal → List (String × Int) →
      Except Exception (Decimal × List (String × Int))
  | [], exactTotal, parts => .ok (exactTotal, parts)
  | component :: components, exactTotal, parts => do
      let exact := feeDecimal grossMinor component
      let exactTotal := Decimal.add decimalPrecision exactTotal exact
      let minor ← wholeMinor exact
      addComponents grossMinor components exactTotal (parts ++ [(component.name, minor)])

/-- The component that absorbs the remainder: the markup, or else the last one. -/
def sinkOf (components : List FeeComponent) : String :=
  let names := components.map (·.name)
  if markupComponent ∈ names then markupComponent else names.getLastD ""

/-- Add the remainder to the part of the sink. -/
def absorb (sink : String) (remainder : Int) (parts : List (String × Int)) :
    List (String × Int) :=
  parts.map fun part => if part.1 = sink then (part.1, part.2 + remainder) else part

/-- `apportion_fee`. -/
def apportionFee (gross : Money) (components : List FeeComponent) :
    Except Exception FeeBreakdown := do
  if components = [] then
    throw (ruleError .validationError "apportion_fee needs at least one component" [])
  if ¬ (components.map (·.name)).Nodup then
    throw (ruleError .validationError "component names must be unique"
      [("components", .list (components.map fun component => .text component.name))])
  let (exactTotal, parts) ← addComponents gross.amountMinor components (.ofInt 0) []
  let totalMinor ← wholeMinor exactTotal
  let remainder := totalMinor - (parts.map Prod.snd).sum
  pure
    { total := ⟨totalMinor, gross.currency⟩
      components := (absorb (sinkOf components) remainder parts).map fun part =>
        (part.1, ⟨part.2, gross.currency⟩)
      remainderMinor := remainder }

/-- `interchange_plus_components`. -/
def interchangePlusComponents (markupBps markupFixedMinor interchangeMinor schemeFeeMinor : Int) :
    List FeeComponent :=
  [{ name := "interchange", bps := 0, fixedMinor := interchangeMinor },
   { name := "scheme_fee", bps := 0, fixedMinor := schemeFeeMinor },
   { name := markupComponent, bps := markupBps, fixedMinor := markupFixedMinor }]

/-! ## What is asked of a breakdown -/

/-- The fee of a component, exactly. -/
def exactFee (grossMinor : Int) (component : FeeComponent) : ℚ :=
  grossMinor * component.bps / 10000 + component.fixedMinor

def exactTotal (grossMinor : Int) (components : List FeeComponent) : ℚ :=
  (components.map (exactFee grossMinor)).sum

/-- A part as it is to be. -/
structure PartOf (gross : Money) (components : List FeeComponent) (component : FeeComponent)
    (part : String × Money) : Prop where
  name : part.1 = component.name
  currency : part.2.currency = gross.currency
  rounded : component.name ≠ sinkOf components →
    part.2.amountMinor = halfUp (exactFee gross.amountMinor component)
  close : component.name = sinkOf components →
    |(part.2.amountMinor : ℚ) - exactFee gross.amountMinor component| ≤
      components.length / 2 + 1 / 2
  nonneg : 0 ≤ part.2.amountMinor

/-- The parts add up to the exact total, rounded, and each is as it is to be. -/
structure Apportioned (gross : Money) (components : List FeeComponent)
    (breakdown : FeeBreakdown) : Prop where
  parts : List.Forall₂ (PartOf gross components) components breakdown.components
  conserved : (breakdown.components.map fun part => part.2.amountMinor).sum =
    breakdown.total.amountMinor
  total : breakdown.total =
    ⟨halfUp (exactTotal gross.amountMinor components), gross.currency⟩

/-- What the components other than the sink are rounded to. -/
def othersMinor (grossMinor : Int) (sink : String) (components : List FeeComponent) : Int :=
  ((components.filter fun component => component.name ≠ sink).map fun component =>
    halfUp (exactFee grossMinor component)).sum

/-- The others leave something, or nothing, of the rounded total to the sink. -/
def SinkCovers (grossMinor : Int) (components : List FeeComponent) : Prop :=
  othersMinor grossMinor (sinkOf components) components ≤
    halfUp (exactTotal grossMinor components)

instance (grossMinor : Int) (components : List FeeComponent) :
    Decidable (SinkCovers grossMinor components) :=
  inferInstanceAs (Decidable (_ ≤ _))

/-! ## Exactness -/

/-- A number of ten-thousandths that the context can hold. -/
def OnGrid (x : ℚ) : Prop :=
  ∃ count : Nat, x = count / 10 ^ 4 ∧ count < 10 ^ decimalPrecision

theorem OnGrid.representable {x : ℚ} (h : OnGrid x) : Decimal.Representable decimalPrecision x := by
  obtain ⟨count, rfl, hcount⟩ := h
  refine ⟨count, -4, by simpa using hcount, ?_⟩
  rw [zpow_neg, div_eq_mul_inv]
  norm_num

theorem onGrid_of_lt {x : ℚ} {count : Nat} (hvalue : x = count / 10 ^ 4) (h : x < 10 ^ 24) :
    OnGrid x := by
  refine ⟨count, hvalue, ?_⟩
  rw [hvalue, div_lt_iff₀ (by norm_num)] at h
  have hlt : (count : ℚ) < ((10 ^ 28 : Nat) : ℚ) := by
    push_cast
    linarith
  exact_mod_cast hlt

variable {gross : Money} {component : FeeComponent} {components : List FeeComponent}

/-- A fee in ten-thousandths. -/
theorem exactFee_grid (grossMinor : Int) (hgross : 0 ≤ grossMinor) (hbps : 0 ≤ component.bps)
    (hfixed : 0 ≤ component.fixedMinor) :
    exactFee grossMinor component =
      ((grossMinor * component.bps).toNat + 10000 * component.fixedMinor.toNat : Nat) / 10 ^ 4 := by
  have hproduct : (((grossMinor * component.bps).toNat : Nat) : ℚ) =
      grossMinor * component.bps := by
    have := Int.toNat_of_nonneg (mul_nonneg hgross hbps)
    exact_mod_cast this
  have hminor : ((component.fixedMinor.toNat : Nat) : ℚ) = component.fixedMinor := by
    have := Int.toNat_of_nonneg hfixed
    exact_mod_cast this
  unfold exactFee
  push_cast
  rw [hproduct, hminor]
  ring

theorem exactFee_nonneg {grossMinor : Int} (hgross : 0 ≤ grossMinor) (hbps : 0 ≤ component.bps)
    (hfixed : 0 ≤ component.fixedMinor) : 0 ≤ exactFee grossMinor component := by
  rw [exactFee_grid grossMinor hgross hbps hfixed]
  positivity

/-- Rounding a number of the context's digits makes it no longer. -/
theorem halfUp_lt {x : ℚ} (h : Decimal.Representable decimalPrecision x) (hsmall : x < 10 ^ 28) :
    halfUp x < 10 ^ 28 := by
  obtain ⟨coefficient, exponent, hshort, rfl⟩ := h
  rcases le_or_gt 0 exponent with hwhole | hpart
  · obtain ⟨places, rfl⟩ := Int.eq_ofNat_of_zero_le hwhole
    have hinteger : (coefficient : ℚ) * 10 ^ (places : Int) =
        ((coefficient * 10 ^ places : Int) : ℚ) := by
      push_cast
      rw [zpow_natCast]
    rw [hinteger] at hsmall ⊢
    rw [halfUp_intCast]
    exact_mod_cast hsmall
  · have hpower : (10 : ℚ) ^ exponent ≤ 10 ^ (-1 : Int) :=
      zpow_le_zpow_right₀ (by norm_num) (by omega)
    have hcoefficient : (coefficient : ℚ) ≤ 10 ^ 28 := by
      unfold decimalPrecision at hshort
      have hint : coefficient ≤ 10 ^ 28 := by omega
      exact_mod_cast hint
    have hpositive : (0 : ℚ) < 10 ^ exponent := zpow_pos (by norm_num) exponent
    have hbound : (coefficient : ℚ) * 10 ^ exponent ≤ ((10 ^ 27 : Int) : ℚ) := by
      calc (coefficient : ℚ) * 10 ^ exponent ≤ 10 ^ 28 * 10 ^ exponent :=
            mul_le_mul_of_nonneg_right hcoefficient hpositive.le
        _ ≤ 10 ^ 28 * 10 ^ (-1 : Int) := mul_le_mul_of_nonneg_left hpower (by norm_num)
        _ = ((10 ^ 27 : Int) : ℚ) := by norm_num
    have hrounded := halfUp_le hbound
    omega

/-- The context loses nothing of a fee whose product and sum have its digits. -/
theorem value_feeDecimal {grossMinor : Int}
    (hproduct : Decimal.Representable decimalPrecision (grossMinor * component.bps))
    (hfee : Decimal.Representable decimalPrecision (exactFee grossMinor component)) :
    (feeDecimal grossMinor component).value = exactFee grossMinor component := by
  have hmul : (Decimal.mul decimalPrecision (.ofInt grossMinor) (.ofInt component.bps)).value =
      grossMinor * component.bps := by
    rw [Decimal.value_mul, Decimal.value_ofInt, Decimal.value_ofInt]
    rw [Decimal.value_ofInt, Decimal.value_ofInt]
    exact hproduct
  have hscaled : (Decimal.scaleb decimalPrecision (-4)
      (Decimal.mul decimalPrecision (.ofInt grossMinor) (.ofInt component.bps))).value =
      grossMinor * component.bps / 10000 := by
    rw [Decimal.value_scaleb, hmul]
    · rw [zpow_neg, div_eq_mul_inv]
      norm_num
    · obtain ⟨coefficient, exponent, hshort, hvalue⟩ := hproduct
      refine ⟨coefficient, exponent - 4, hshort, ?_⟩
      rw [hmul, hvalue, sub_eq_add_neg, zpow_add₀ (by norm_num)]
      ring
  unfold feeDecimal
  rw [Decimal.value_add, hscaled, Decimal.value_ofInt]
  · rfl
  · rw [hscaled, Decimal.value_ofInt]
    exact hfee

theorem wholeMinor_eq {decimal : Decimal} (hnonneg : 0 ≤ decimal.value)
    (hsmall : halfUp decimal.value < 10 ^ 28) :
    wholeMinor decimal = .ok (halfUp decimal.value) := by
  have hlower : 0 ≤ halfUp decimal.value := le_halfUp (by exact_mod_cast hnonneg)
  have hquantised := Decimal.quantize_eq decimalPrecision decimal 0 (by
    rw [neg_zero, zpow_zero, mul_one]
    unfold decimalPrecision
    omega)
  unfold wholeMinor
  rw [hquantised, neg_zero, zpow_zero, mul_one]

/-! ## The loop -/

/-- No rate and no fixed part is negative. -/
def Charging (components : List FeeComponent) : Prop :=
  ∀ component ∈ components, 0 ≤ component.bps ∧ 0 ≤ component.fixedMinor

instance (components : List FeeComponent) : Decidable (Charging components) :=
  inferInstanceAs (Decidable (∀ component ∈ components, _))

theorem Charging.of_cons (charging : Charging (component :: components)) : Charging components :=
  fun other hother => charging other (List.mem_cons_of_mem _ hother)

theorem exactTotal_cons (grossMinor : Int) :
    exactTotal grossMinor (component :: components) =
      exactFee grossMinor component + exactTotal grossMinor components := by
  simp [exactTotal]

theorem exactTotal_grid {grossMinor : Int} (hgross : 0 ≤ grossMinor)
    (charging : Charging components) :
    ∃ count : Nat, exactTotal grossMinor components = count / 10 ^ 4 := by
  induction components with
  | nil => exact ⟨0, by simp [exactTotal]⟩
  | cons component components ih =>
      obtain ⟨count, hcount⟩ := ih charging.of_cons
      obtain ⟨hbps, hfixed⟩ := charging component List.mem_cons_self
      refine ⟨(grossMinor * component.bps).toNat + 10000 * component.fixedMinor.toNat + count, ?_⟩
      rw [exactTotal_cons, hcount, exactFee_grid grossMinor hgross hbps hfixed]
      push_cast
      ring

/-- From this total on, every product, fee and sum of the computation has the digits of the
context. -/
def FitsContext (grossMinor : Int) : ℚ → List FeeComponent → Prop
  | _, [] => True
  | held, component :: components =>
      Decimal.Representable decimalPrecision (grossMinor * component.bps) ∧
        Decimal.Representable decimalPrecision (exactFee grossMinor component) ∧
        Decimal.Representable decimalPrecision (held + exactFee grossMinor component) ∧
        FitsContext grossMinor (held + exactFee grossMinor component) components

theorem exactTotal_nonneg {grossMinor : Int} (hgross : 0 ≤ grossMinor)
    (charging : Charging components) : 0 ≤ exactTotal grossMinor components := by
  obtain ⟨count, hcount⟩ := exactTotal_grid hgross charging
  rw [hcount]
  positivity

/-- A total in ten-thousandths below the bound has the digits, and all that it is the sum of. -/
theorem fitsContext_of_lt {grossMinor : Int} (hgross : 0 ≤ grossMinor)
    (charging : Charging components) {held : ℚ} {count : Nat} (hheld : held = count / 10 ^ 4)
    (hsmall : held + exactTotal grossMinor components < 10 ^ 24) :
    FitsContext grossMinor held components := by
  induction components generalizing held count with
  | nil => trivial
  | cons component components ih =>
      obtain ⟨hbps, hfixed⟩ := charging component List.mem_cons_self
      have hrest := exactTotal_nonneg hgross charging.of_cons
      have hfee := exactFee_nonneg hgross hbps hfixed
      have hpositive : 0 ≤ held := by
        rw [hheld]
        positivity
      rw [exactTotal_cons] at hsmall
      have hfeeGrid := exactFee_grid grossMinor hgross hbps hfixed
      have hgrid : held + exactFee grossMinor component =
          ((count + ((grossMinor * component.bps).toNat +
            10000 * component.fixedMinor.toNat) : Nat) : ℚ) / 10 ^ 4 := by
        rw [hheld, hfeeGrid]
        push_cast
        ring
      refine ⟨?_, (onGrid_of_lt hfeeGrid (by linarith)).representable,
        (onGrid_of_lt hgrid (by linarith)).representable,
        ih charging.of_cons hgrid (by linarith)⟩
      have hproduct : (grossMinor * component.bps : ℚ) < 10 ^ 28 := by
        have hminor : (0 : ℚ) ≤ component.fixedMinor := by exact_mod_cast hfixed
        have hless : (grossMinor * component.bps : ℚ) / 10000 < 10 ^ 24 := by
          unfold exactFee at hsmall
          linarith
        rw [div_lt_iff₀ (by norm_num)] at hless
        linarith
      refine ⟨grossMinor * component.bps, 0, ?_, by simp⟩
      have hint : grossMinor * component.bps < 10 ^ 28 := by exact_mod_cast hproduct
      have hsign := mul_nonneg hgross hbps
      unfold decimalPrecision
      zify
      rw [abs_of_nonneg hsign]
      exact hint

/-- Where the digits suffice every part is its own fee, rounded, and the total is exact. -/
theorem addComponents_eq {grossMinor : Int} (hgross : 0 ≤ grossMinor)
    (charging : Charging components) {held : Decimal} (hheld : 0 ≤ held.value)
    (fits : FitsContext grossMinor held.value components)
    (hsmall : held.value + exactTotal grossMinor components < 10 ^ 28)
    (parts : List (String × Int)) :
    ∃ total, addComponents grossMinor components held parts =
        .ok (total, parts ++ components.map fun component =>
          (component.name, halfUp (exactFee grossMinor component))) ∧
      total.value = held.value + exactTotal grossMinor components := by
  induction components generalizing held parts with
  | nil =>
      refine ⟨held, ?_, ?_⟩
      · rw [List.map_nil, List.append_nil]
        rfl
      · simp [exactTotal]
  | cons component components ih =>
      obtain ⟨hbps, hfixed⟩ := charging component List.mem_cons_self
      obtain ⟨hproduct, hfeeFits, hsumFits, hrestFits⟩ := fits
      have hrest := exactTotal_nonneg hgross charging.of_cons
      have hfee := exactFee_nonneg hgross hbps hfixed
      rw [exactTotal_cons] at hsmall ⊢
      have hvalue := value_feeDecimal hproduct hfeeFits
      have hsum : (Decimal.add decimalPrecision held (feeDecimal grossMinor component)).value =
          held.value + exactFee grossMinor component := by
        rw [Decimal.value_add, hvalue]
        rw [hvalue]
        exact hsumFits
      have hminor : wholeMinor (feeDecimal grossMinor component) =
          .ok (halfUp (exactFee grossMinor component)) := by
        rw [wholeMinor_eq, hvalue]
        · rw [hvalue]
          exact hfee
        · rw [hvalue]
          exact halfUp_lt hfeeFits (by linarith)
      obtain ⟨total, htotal, htotalValue⟩ := ih charging.of_cons
        (by rw [hsum]; linarith) (by rw [hsum]; exact hrestFits) (by rw [hsum]; linarith)
        (parts ++ [(component.name, halfUp (exactFee grossMinor component))])
      refine ⟨total, ?_, ?_⟩
      · unfold addComponents
        dsimp only
        rw [hminor]
        change addComponents grossMinor components _ _ = _
        rw [htotal, List.map_cons, List.append_assoc]
        rfl
      · rw [htotalValue, hsum]
        ring

/-- The total that the context's digits suffice for has them itself. -/
theorem FitsContext.total {grossMinor : Int} {held : ℚ}
    (fits : FitsContext grossMinor held components)
    (hheld : Decimal.Representable decimalPrecision held) :
    Decimal.Representable decimalPrecision (held + exactTotal grossMinor components) := by
  induction components generalizing held with
  | nil => simpa [exactTotal] using hheld
  | cons component components ih =>
      rw [exactTotal_cons, ← add_assoc]
      exact ih fits.2.2.2 fits.2.2.1

/-! ## The remainder -/

theorem sinkOf_mem (h : components ≠ []) : sinkOf components ∈ components.map (·.name) := by
  unfold sinkOf
  dsimp only
  split
  · next hmarkup => exact hmarkup
  · have hnames : components.map (·.name) ≠ [] := by simpa using h
    rw [List.getLastD_eq_getLast?, List.getLast?_eq_some_getLast hnames]
    exact List.getLast_mem hnames

/-- The others, plus what the one component of the sink's name has, are all. -/
theorem sum_filter_ne {α : Type} [AddCommMonoid α] {sink : String} (f : FeeComponent → α)
    (hunique : (components.map (·.name)).Nodup) (hmem : component ∈ components)
    (hname : component.name = sink) :
    (components.map f).sum =
      ((components.filter fun other => other.name ≠ sink).map f).sum + f component := by
  induction components with
  | nil => cases hmem
  | cons first components ih =>
      rw [List.map_cons, List.nodup_cons] at hunique
      rcases List.mem_cons.mp hmem with rfl | hmem
      · have hothers : components.filter (fun other => other.name ≠ sink) = components := by
          refine List.filter_eq_self.mpr fun other hother => ?_
          have hne : other.name ≠ sink := fun hsame =>
            hunique.1 (List.mem_map.mpr ⟨other, hother, hsame.trans hname.symm⟩)
          simpa using hne
        rw [List.map_cons, List.sum_cons, List.filter_cons, if_neg (by simp [hname]), hothers,
          add_comm]
      · have hne : first.name ≠ sink := fun hsame =>
          hunique.1 (List.mem_map.mpr ⟨component, hmem, hname.trans hsame.symm⟩)
        rw [List.map_cons, List.sum_cons, List.filter_cons, if_pos (by simpa using hne),
          List.map_cons, List.sum_cons, ih hunique.2 hmem, add_assoc]

/-- Each fee that is rounded moves by at most a half. -/
theorem abs_sum_halfUp_sub_le (grossMinor : Int) (components : List FeeComponent) :
    |(((components.map fun component => halfUp (exactFee grossMinor component)).sum : Int) : ℚ) -
        (components.map (exactFee grossMinor)).sum| ≤ components.length / 2 := by
  induction components with
  | nil => simp
  | cons component components ih =>
      have hfirst := abs_halfUp_sub_le (exactFee grossMinor component)
      simp only [List.map_cons, List.sum_cons, List.length_cons]
      rw [Int.cast_add, Nat.cast_add, Nat.cast_one]
      rw [abs_le] at ih hfirst ⊢
      constructor
      · linarith [ih.1, hfirst.1]
      · linarith [ih.2, hfirst.2]

/-- The part that the loop and the sink leave a component with. -/
def partMinor (grossMinor : Int) (components : List FeeComponent) (component : FeeComponent) :
    Int :=
  let sink := sinkOf components
  if component.name = sink then
    halfUp (exactTotal grossMinor components) - othersMinor grossMinor sink components
  else halfUp (exactFee grossMinor component)

/-- Where the digits suffice the breakdown is this one. -/
theorem apportionFee_eq (hgross : 0 ≤ gross.amountMinor) (hnonempty : components ≠ [])
    (hunique : (components.map (·.name)).Nodup) (charging : Charging components)
    (fits : FitsContext gross.amountMinor 0 components)
    (hsmall : exactTotal gross.amountMinor components < 10 ^ 28) :
    ∃ remainder, apportionFee gross components = .ok
      { total := ⟨halfUp (exactTotal gross.amountMinor components), gross.currency⟩
        components := components.map fun component =>
          (component.name, ⟨partMinor gross.amountMinor components component, gross.currency⟩)
        remainderMinor := remainder } := by
  have hzero : (Decimal.ofInt 0).value = 0 := by simp
  obtain ⟨total, hloop, htotal⟩ := addComponents_eq hgross charging hzero.ge
    (by rw [hzero]; exact fits) (by rw [hzero, zero_add]; exact hsmall) []
  rw [hzero, zero_add] at htotal
  have htotalFits := fits.total ⟨0, 0, by decide, by simp⟩
  rw [zero_add] at htotalFits
  have hwhole : wholeMinor total = .ok (halfUp (exactTotal gross.amountMinor components)) := by
    rw [wholeMinor_eq, htotal]
    · rw [htotal]
      exact exactTotal_nonneg hgross charging
    · rw [htotal]
      exact halfUp_lt htotalFits hsmall
  unfold apportionFee
  rw [if_neg hnonempty, if_neg (not_not.mpr hunique), hloop]
  simp only [bind, Except.bind, pure, Except.pure, hwhole]
  generalize hremainder : halfUp (exactTotal gross.amountMinor components) - _ = remainder
  refine ⟨remainder, ?_⟩
  rw [List.nil_append] at hremainder ⊢
  rw [List.map_map] at hremainder
  congr 2
  unfold absorb
  rw [List.map_map, List.map_map]
  refine List.map_congr_left fun component hcomponent => ?_
  have hsplit (hname : component.name = sinkOf components) :=
    sum_filter_ne (fun other => halfUp (exactFee gross.amountMinor other)) hunique hcomponent hname
  unfold partMinor othersMinor
  by_cases hname : component.name = sinkOf components
  · have hsum := hsplit hname
    simp only [Function.comp_def] at hremainder
    simp only [Function.comp_def, hname, if_true]
    rw [← hremainder, hsum]
    congr 2
    ring
  · simp only [Function.comp_def, if_neg hname]

theorem apportioned_parts (hgross : 0 ≤ gross.amountMinor)
    (hunique : (components.map (·.name)).Nodup) (charging : Charging components)
    (covers : SinkCovers gross.amountMinor components) (hcomponent : component ∈ components) :
    PartOf gross components component
      (component.name, ⟨partMinor gross.amountMinor components component, gross.currency⟩) := by
  obtain ⟨hbps, hfixed⟩ := charging component hcomponent
  have hfee := exactFee_nonneg hgross hbps hfixed
  constructor
  · rfl
  · rfl
  · intro hname
    exact if_neg hname
  · intro hname
    have hothers := abs_sum_halfUp_sub_le gross.amountMinor
      (components.filter fun other => other.name ≠ sinkOf components)
    have htotal := abs_halfUp_sub_le (exactTotal gross.amountMinor components)
    have hexact := sum_filter_ne (exactFee gross.amountMinor) hunique hcomponent hname
    have hfewer : ((components.filter fun other => other.name ≠ sinkOf components).length : ℚ) ≤
        components.length := by exact_mod_cast List.length_filter_le _ _
    have hpart : partMinor gross.amountMinor components component =
        halfUp (exactTotal gross.amountMinor components) -
          othersMinor gross.amountMinor (sinkOf components) components := if_pos hname
    dsimp only
    rw [hpart]
    unfold othersMinor
    push_cast at hothers ⊢
    change exactTotal gross.amountMinor components = _ at hexact
    rw [abs_le] at hothers htotal ⊢
    constructor
    · linarith [hothers.2, htotal.1]
    · linarith [hothers.1, htotal.2]
  · dsimp only
    unfold partMinor
    dsimp only
    split
    · exact sub_nonneg.mpr covers
    · exact le_halfUp (by exact_mod_cast hfee)

/-- What the others are rounded to is no more than the sum of parts that are not negative. -/
theorem othersMinor_le_sum {all : List FeeComponent} {parts : List (String × Money)}
    (h : List.Forall₂ (PartOf gross all) components parts) :
    othersMinor gross.amountMinor (sinkOf all) components ≤
      (parts.map fun part => part.2.amountMinor).sum := by
  induction h with
  | nil => simp [othersMinor]
  | @cons component part components parts hpart _ ih =>
      unfold othersMinor at ih ⊢
      rw [List.map_cons, List.sum_cons]
      by_cases hname : component.name = sinkOf all
      · rw [List.filter_cons, if_neg (by simp [hname])]
        exact ih.trans (le_add_of_nonneg_left hpart.nonneg)
      · rw [List.filter_cons, if_pos (by simpa using hname), List.map_cons, List.sum_cons,
          hpart.rounded hname]
        exact add_le_add_right ih _

theorem wholeMinor_lt {decimal : Decimal} {minor : Int} (h : wholeMinor decimal = .ok minor) :
    minor < 10 ^ 28 := by
  unfold wholeMinor at h
  cases hquantised : decimal.quantize decimalPrecision 0 with
  | none =>
      rw [hquantised] at h
      cases h
  | some quantised =>
      rw [hquantised] at h
      cases h
      obtain ⟨hvalue, hshort⟩ := Decimal.quantize_eq_some.mp hquantised
      rw [hvalue]
      unfold decimalPrecision at hshort
      norm_num
      omega

theorem total_lt {breakdown : FeeBreakdown} (h : apportionFee gross components = .ok breakdown) :
    breakdown.total.amountMinor < 10 ^ 28 := by
  simp only [apportionFee, bind, Except.bind, pure, Except.pure] at h
  split at h
  · cases h
  · split at h
    · cases h
    · split at h
      · cases h
      · split at h
        · cases h
        · next hwhole =>
            cases h
            exact wholeMinor_lt hwhole

/-- A breakdown is as asked only if the others leave the sink something, or nothing, and the
total fits the context.  That is enough where the context has the digits for every step, as it
has below ten to the twenty-fourth. -/
theorem apportionFee_apportions (gross : Money) (components : List FeeComponent)
    (hgross : 0 ≤ gross.amountMinor) (hnonempty : components ≠ [])
    (hunique : (components.map (·.name)).Nodup) (charging : Charging components) :
    ((∃ breakdown, apportionFee gross components = .ok breakdown ∧
          Apportioned gross components breakdown) →
        SinkCovers gross.amountMinor components ∧
          exactTotal gross.amountMinor components < 10 ^ 28) ∧
      (SinkCovers gross.amountMinor components ∧
          (exactTotal gross.amountMinor components < 10 ^ 24 ∨
            exactTotal gross.amountMinor components < 10 ^ 28 ∧
              FitsContext gross.amountMinor 0 components) →
        ∃ breakdown, apportionFee gross components = .ok breakdown ∧
          Apportioned gross components breakdown) := by
  constructor
  · rintro ⟨breakdown, hbreakdown, apportioned⟩
    have hamount : breakdown.total.amountMinor =
        halfUp (exactTotal gross.amountMinor components) :=
      congrArg Money.amountMinor apportioned.total
    constructor
    · have hothers := othersMinor_le_sum apportioned.parts
      rwa [apportioned.conserved, hamount] at hothers
    · by_contra hlarge
      have hbound : (10 : Int) ^ 28 ≤ halfUp (exactTotal gross.amountMinor components) :=
        le_halfUp (by push_cast; exact not_lt.mp hlarge)
      have hlt := total_lt hbreakdown
      omega
  · rintro ⟨covers, hdigits⟩
    have hfits : exactTotal gross.amountMinor components < 10 ^ 28 ∧
        FitsContext gross.amountMinor 0 components := by
      rcases hdigits with hsmall | hfits
      · have hstart : (0 : ℚ) + exactTotal gross.amountMinor components < 10 ^ 24 := by
          rwa [zero_add]
        exact ⟨hsmall.trans (by norm_num),
          fitsContext_of_lt hgross charging (by simp : (0 : ℚ) = ((0 : Nat) : ℚ) / 10 ^ 4) hstart⟩
      · exact hfits
    obtain ⟨remainder, heq⟩ := apportionFee_eq hgross hnonempty hunique charging hfits.2 hfits.1
    refine ⟨_, heq, ?_⟩
    constructor
    · refine List.forall₂_map_right_iff.mpr (List.forall₂_same.mpr fun component hcomponent => ?_)
      exact apportioned_parts hgross hunique charging covers hcomponent
    · obtain ⟨component, hcomponent, hname⟩ := List.mem_map.mp (sinkOf_mem hnonempty)
      rw [List.map_map]
      change (components.map (partMinor gross.amountMinor components)).sum = _
      rw [sum_filter_ne (partMinor gross.amountMinor components) hunique hcomponent hname]
      have hothers : (components.filter fun other => other.name ≠ sinkOf components).map
          (partMinor gross.amountMinor components) =
          (components.filter fun other => other.name ≠ sinkOf components).map
            fun other => halfUp (exactFee gross.amountMinor other) := by
        refine List.map_congr_left fun other hother => ?_
        have hne : other.name ≠ sinkOf components := by
          simpa using (List.mem_filter.mp hother).2
        exact if_neg hne
      rw [hothers]
      have hsink : partMinor gross.amountMinor components component =
          halfUp (exactTotal gross.amountMinor components) -
            othersMinor gross.amountMinor (sinkOf components) components := if_pos hname
      rw [hsink]
      unfold othersMinor
      ring
    · rfl

/-- A dollar with ten cents of interchange, five of scheme fee and a markup of one percent. -/
theorem markup_apportioned : ∃ breakdown,
    apportionFee ⟨100, "USD"⟩ (interchangePlusComponents 100 0 10 5) = .ok breakdown ∧
      Apportioned ⟨100, "USD"⟩ (interchangePlusComponents 100 0 10 5) breakdown :=
  (apportionFee_apportions ⟨100, "USD"⟩ (interchangePlusComponents 100 0 10 5) (by decide)
    (by decide) (by decide) (by decide)).2 ⟨by decide +kernel, .inl (by decide +kernel)⟩

/-- Half a cent twice rounds up twice, and the markup, which charges nothing, pays for it. -/
theorem sink_overdrawn : ∃ breakdown,
    apportionFee ⟨100, "USD"⟩
        [⟨"interchange", 50, 0⟩, ⟨"scheme_fee", 50, 0⟩, ⟨"platform_markup", 0, 0⟩] =
      .ok breakdown ∧
    breakdown.components =
      [("interchange", ⟨1, "USD"⟩), ("scheme_fee", ⟨1, "USD"⟩), ("platform_markup", ⟨-1, "USD"⟩)] ∧
    ¬ Apportioned ⟨100, "USD"⟩
      [⟨"interchange", 50, 0⟩, ⟨"scheme_fee", 50, 0⟩, ⟨"platform_markup", 0, 0⟩] breakdown := by
  refine ⟨⟨⟨1, "USD"⟩, [("interchange", ⟨1, "USD"⟩), ("scheme_fee", ⟨1, "USD"⟩),
    ("platform_markup", ⟨-1, "USD"⟩)], -1⟩, by rfl, rfl, fun apportioned => ?_⟩
  have hparts := apportioned.parts
  simp only [List.forall₂_cons] at hparts
  have hnonneg := hparts.2.2.1.nonneg
  revert hnonneg
  decide

end PayzenoLedger
