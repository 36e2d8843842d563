import PayzenoLedger.Domain.Fx
import PayzenoLedger.Domain.Registry
import PayzenoLedger.Library.Apportion
import PayzenoLedger.Library.DecimalError
import Mathlib.Algebra.BigOperators.Fin

/-!
# Splitting an amount

An amount is split into equal parts, or along weights.  The shares along weights are divided
in the decimal context, so they are known to its digits only; what their whole parts leave
over goes to the largest fractions.
-/

set_option autoImplicit false

namespace PayzenoLedger

open Library

/-- Split an amount into parts that sum exactly to it. -/
def splitEvenly (m : Money) (parts : Int) : Except Exception (List Money) :=
  if parts ≤ 0 then
    .error (ruleError .validationError "parts must be positive" [("parts", .int parts)])
  else
    let base := m.amountMinor / parts
    let remainder := m.amountMinor % parts
    .ok ((List.range parts.toNat).map fun i : Nat =>
      ⟨base + (if (i : Int) < remainder then 1 else 0), m.currency⟩)

/-- `Decimal(total) * Decimal(weight) / Decimal(weight_total)`. -/
def exactShare (totalMinor weight weightTotal : Int) : Except Exception Decimal :=
  match Decimal.div decimalPrecision
      (Decimal.mul decimalPrecision (.ofInt totalMinor) (.ofInt weight)) (.ofInt weightTotal) with
  | none => .error (.builtin .arithmeticError)
  | some share => .ok share

/-- `items[:stop]`. -/
def slice {α : Type} (items : List α) (stop : Int) : List α :=
  items.take (if 0 ≤ stop then stop else items.length + stop).toNat

/-- `exact[i] - floors[i]`. -/
def fraction (exact : List Decimal) (i : Fin exact.length) : Decimal :=
  Decimal.sub decimalPrecision (exact.get i) (.ofInt (exact.get i).floor)

/-- The floors of the shares, and one more for each of the first ones in the order. -/
def allocate (totalMinor : Int) (exact : List Decimal) : List Int :=
  let floors := exact.map Decimal.floor
  let shortfall := totalMinor - floors.sum
  let order := (List.finRange exact.length).insertionSort fun i j =>
    (fraction exact j).value ≤ (fraction exact i).value
  let raised := slice order shortfall
  (List.finRange exact.length).map fun i =>
    (exact.get i).floor + if i ∈ raised then 1 else 0

/-- Largest-remainder allocation of a total across weights. -/
def allocateRemainder (total : Money) (weights : List Int) : Except Exception (List Money) := do
  let weightTotal := weights.sum
  if weightTotal ≤ 0 then
    throw (ruleError .validationError "weights must sum to a positive value"
      [("weights", .list (weights.map .int))])
  let exact ← weights.mapM fun weight => exactShare total.amountMinor weight weightTotal
  pure ((allocate total.amountMinor exact).map fun amountMinor => ⟨amountMinor, total.currency⟩)

/-! ## Equal parts -/

/-- The parts are whole, add up, and are as equal as whole parts can be. -/
structure EvenParts (m : Money) (parts : Int) (split : List Money) : Prop where
  length : (split.length : Int) = parts
  currency : ∀ part ∈ split, part.currency = m.currency
  conserved : (split.map (·.amountMinor)).sum = m.amountMinor
  close : ∀ part ∈ split, |(part.amountMinor : ℚ) - m.amountMinor / parts| < 1
  equal : ∀ part ∈ split, ∀ other ∈ split, |part.amountMinor - other.amountMinor| ≤ 1

theorem sum_range_lt (base : Int) (remainder count : Nat) :
    ((List.range count).map fun i : Nat =>
      base + (if (i : Int) < remainder then 1 else 0)).sum =
        base * count + min remainder count := by
  induction count with
  | zero => simp
  | succ count ih =>
      rw [List.range_succ, List.map_append, List.sum_append, ih]
      simp only [List.map_cons, List.map_nil, List.sum_cons, List.sum_nil]
      split_ifs <;> (push_cast; rw [mul_add]; omega)

theorem splitEvenly_even (m : Money) {parts : Int} (h : 0 < parts) :
    ∃ split, splitEvenly m parts = .ok split ∧ EvenParts m parts split := by
  obtain ⟨count, rfl⟩ := Int.eq_ofNat_of_zero_le h.le
  obtain ⟨remainder, hremainder⟩ :=
    Int.eq_ofNat_of_zero_le (Int.emod_nonneg m.amountMinor h.ne')
  have hless := Int.emod_lt_of_pos m.amountMinor h
  have hdivided := Int.mul_ediv_add_emod m.amountMinor count
  generalize hbase : m.amountMinor / (count : Int) = base at hdivided
  rw [hremainder] at hless hdivided
  refine ⟨_, if_neg (not_le.mpr h), ?_⟩
  rw [hbase, hremainder, Int.toNat_natCast]
  have hpart {part : Money} (hmem : part ∈ (List.range count).map fun i : Nat =>
      (⟨base + (if (i : Int) < remainder then 1 else 0), m.currency⟩ : Money)) :
      part.currency = m.currency ∧
        (part.amountMinor = base ∨ part.amountMinor = base + 1 ∧ 0 < remainder) := by
    obtain ⟨i, -, rfl⟩ := List.mem_map.mp hmem
    refine ⟨rfl, ?_⟩
    dsimp only
    split_ifs <;> omega
  constructor
  · rw [List.length_map, List.length_range]
  · exact fun part hmem => (hpart hmem).1
  · rw [List.map_map]
    have hsum := sum_range_lt base remainder count
    rw [min_eq_left (by omega)] at hsum
    refine Eq.trans hsum ?_
    rw [← hdivided, mul_comm]
  · intro part hmem
    have hcount : (0 : ℚ) < count := by exact_mod_cast h
    have hexact : (m.amountMinor : ℚ) / (count : Int) = base + remainder / count := by
      rw [← hdivided]
      push_cast
      field_simp
    have hlow : (0 : ℚ) ≤ remainder / count := by positivity
    have hhigh : (remainder : ℚ) / count < 1 := by
      rw [div_lt_one hcount]
      exact_mod_cast hless
    rw [hexact, abs_lt]
    rcases (hpart hmem).2 with heq | ⟨heq, hsome⟩
    · rw [heq]
      exact ⟨by linarith, by linarith⟩
    · have hmore : (0 : ℚ) < remainder / count := div_pos (by exact_mod_cast hsome) hcount
      rw [heq]
      push_cast
      exact ⟨by linarith, by linarith⟩
  · intro part hmem other hother
    rw [abs_le]
    have hfirst := (hpart hmem).2
    have hsecond := (hpart hother).2
    omega

/-! ## Shares -/

/-- The share of a weight, exactly. -/
def shareOf (totalMinor weightTotal weight : Int) : ℚ :=
  totalMinor * weight / weightTotal

/-- What the two roundings can be wrong by, relative to the share. -/
def shareError : ℚ := 106 / 10 ^ 29

/-- A share is divided to the digits of the context. -/
theorem exactShare_spec {totalMinor weight weightTotal : Int} (htotal : 0 ≤ totalMinor)
    (hweight : 0 ≤ weight) (hsum : 0 < weightTotal) :
    ∃ share, exactShare totalMinor weight weightTotal = .ok share ∧
      0 ≤ share.coefficient ∧ share.coefficient.natAbs < 10 ^ decimalPrecision ∧
      |share.value - shareOf totalMinor weightTotal weight| ≤
        shareOf totalMinor weightTotal weight * shareError := by
  have hprecision : 0 < decimalPrecision := by decide
  have hmul := @Decimal.abs_value_mul_sub_le decimalPrecision (.ofInt totalMinor)
    (.ofInt weight) hprecision (mul_nonneg htotal hweight)
  rw [Decimal.value_ofInt, Decimal.value_ofInt] at hmul
  unfold exactShare shareOf
  generalize Decimal.mul decimalPrecision (.ofInt totalMinor) (.ofInt weight) = product at hmul ⊢
  have hexact : (0 : ℚ) ≤ totalMinor * weight := by
    exact_mod_cast mul_nonneg htotal hweight
  have hpositive : (0 : ℚ) < weightTotal := by exact_mod_cast hsum
  generalize (totalMinor * weight : ℚ) = exact at hmul hexact ⊢
  obtain ⟨hlow, hhigh⟩ := abs_le.mp hmul
  rcases hexact.eq_or_lt with rfl | hexact
  · have hzero : product.coefficient = 0 := by
      rw [← Decimal.value_eq_zero_iff]
      rw [zero_div] at hlow hhigh
      linarith
    refine ⟨⟨0, product.exponent - 0⟩, ?_, le_refl _, Nat.pow_pos (by norm_num), ?_⟩
    · unfold Decimal.div
      rw [if_neg (show (Decimal.ofInt weightTotal).coefficient ≠ 0 from hsum.ne'), if_pos hzero]
      rfl
    · rw [Decimal.value_eq_zero_iff.mpr rfl]
      simp
  · have hfactor : (2 * 10 ^ (decimalPrecision - 1) : ℚ) = 2 * 10 ^ 27 := by
      unfold decimalPrecision
      norm_num
    rw [hfactor] at hlow
    have hproduct : 0 < product.coefficient := by
      rw [← Decimal.value_pos_iff]
      norm_num at hlow
      linarith
    obtain ⟨quotient, hquotient, herror⟩ := @Decimal.abs_value_div_sub_le _ product
      (.ofInt weightTotal) hprecision hproduct hsum
    rw [Decimal.value_ofInt] at herror
    rw [hfactor] at hhigh
    have hlow' : exact / weightTotal * (1 - 1 / (2 * 10 ^ 27)) ≤ product.value / weightTotal := by
      rw [div_mul_eq_mul_div]
      exact div_le_div_of_nonneg_right (by linarith) hpositive.le
    have hhigh' : product.value / weightTotal ≤ exact / weightTotal * (1 + 1 / (2 * 10 ^ 27)) := by
      rw [div_mul_eq_mul_div]
      exact div_le_div_of_nonneg_right (by linarith) hpositive.le
    have hshare : 0 < exact / weightTotal := div_pos hexact hpositive
    rw [show decimalPrecision - 1 = 27 from rfl] at herror
    generalize exact / (weightTotal : ℚ) = share at hlow' hhigh' hshare ⊢
    generalize product.value / (weightTotal : ℚ) = rounded at hlow' hhigh' herror
    obtain ⟨hbelow, habove⟩ := abs_le.mp herror
    refine ⟨quotient, by rw [hquotient], ?_, Decimal.div_fits hprecision hquotient, ?_⟩
    · rw [← Decimal.value_nonneg_iff]
      norm_num at hbelow hlow'
      linarith
    · unfold shareError
      rw [abs_le]
      norm_num at hbelow habove hlow' hhigh' ⊢
      constructor
      · linarith
      · linarith

/-- The shares as numbers. -/
def shareValue (exact : List Decimal) (i : Fin exact.length) : ℚ :=
  (exact.get i).value

/-- The shares of the weights, divided to the digits of the context. -/
structure Divided (totalMinor : Int) (weights : List Int) (exact : List Decimal) : Prop where
  length : exact.length = weights.length
  digits : ∀ share ∈ exact, 0 ≤ share.coefficient ∧
    share.coefficient.natAbs < 10 ^ decimalPrecision
  divides : ∀ i, exactShare totalMinor (weights.get (i.cast length)) weights.sum =
    .ok (exact.get i)
  near : ∀ i, |shareValue exact i -
      shareOf totalMinor weights.sum (weights.get (i.cast length))| ≤
    shareOf totalMinor weights.sum (weights.get (i.cast length)) * shareError

theorem exactShares_divided {totalMinor : Int} (htotal : 0 ≤ totalMinor) {weights : List Int}
    (hweights : ∀ weight ∈ weights, 0 ≤ weight) (hsum : 0 < weights.sum) :
    ∃ exact, (weights.mapM fun weight => exactShare totalMinor weight weights.sum) = .ok exact ∧
      Divided totalMinor weights exact := by
  have hspecs {some : List Int} (hsome : ∀ weight ∈ some, 0 ≤ weight) : ∃ exact : List Decimal,
      (some.mapM fun weight => exactShare totalMinor weight weights.sum) = .ok exact ∧
      List.Forall₂ (fun weight share =>
        (0 ≤ share.coefficient ∧ share.coefficient.natAbs < 10 ^ decimalPrecision) ∧
        exactShare totalMinor weight weights.sum = .ok share ∧
        |share.value - shareOf totalMinor weights.sum weight| ≤
          shareOf totalMinor weights.sum weight * shareError) some exact := by
    induction some with
    | nil => exact ⟨[], rfl, .nil⟩
    | cons weight some ih =>
        obtain ⟨share, hshare, hsign, hfits, hnear⟩ :=
          exactShare_spec htotal (hsome weight List.mem_cons_self) hsum
        obtain ⟨exact, hexact, hspecs⟩ := ih fun other hmem =>
          hsome other (List.mem_cons_of_mem _ hmem)
        refine ⟨share :: exact, ?_, .cons ⟨⟨hsign, hfits⟩, hshare, hnear⟩ hspecs⟩
        rw [List.mapM_cons, hshare, hexact]
        rfl
  obtain ⟨exact, hexact, hspec⟩ := hspecs hweights
  obtain ⟨hlength, hspec⟩ := List.forall₂_iff_get.mp hspec
  refine ⟨exact, hexact, hlength.symm, ?_, ?_, ?_⟩
  · intro share hmem
    obtain ⟨i, rfl⟩ := List.get_of_mem hmem
    exact (hspec i.1 (i.2.trans_eq hlength.symm) i.2).1
  · intro i
    exact (hspec i.1 (i.2.trans_eq hlength.symm) i.2).2.1
  · intro i
    exact (hspec i.1 (i.2.trans_eq hlength.symm) i.2).2.2

/-! ## The allocation -/

section

variable {totalMinor : Int} {exact : List Decimal}

/-- The shares that get one more. -/
def raisedShares (totalMinor : Int) (exact : List Decimal) : List (Fin exact.length) :=
  slice ((List.finRange exact.length).insertionSort fun i j =>
    (fraction exact j).value ≤ (fraction exact i).value)
    (totalMinor - (exact.map Decimal.floor).sum)

theorem sum_floors (exact : List Decimal) :
    (exact.map Decimal.floor).sum = ∑ i, ⌊shareValue exact i⌋ := by
  have hmap : exact.map Decimal.floor = List.ofFn fun i => ⌊shareValue exact i⌋ := by
    conv_lhs => rw [← List.ofFn_get exact]
    rw [List.map_ofFn]
    exact congrArg List.ofFn (funext fun i => Decimal.floor_eq _)
  rw [hmap, List.sum_ofFn]

theorem allocate_eq (totalMinor : Int) (exact : List Decimal) :
    allocate totalMinor exact = List.ofFn
      (Apportion.part (shareValue exact) (raisedShares totalMinor exact).toFinset) := by
  unfold allocate
  rw [List.ofFn_eq_map]
  refine List.map_congr_left fun i _ => ?_
  unfold Apportion.part
  rw [Decimal.floor_eq]
  simp only [List.mem_toFinset]
  rfl

/-- The shares at the head of the order are those with the largest fractions. -/
theorem raises_raisedShares
    (hshort : ∀ share ∈ exact, 0 ≤ share.coefficient ∧
      share.coefficient.natAbs < 10 ^ decimalPrecision)
    (hlow : 0 ≤ totalMinor - ∑ i, ⌊shareValue exact i⌋)
    (hhigh : totalMinor - ∑ i, ⌊shareValue exact i⌋ ≤ exact.length) :
    Apportion.Raises (shareValue exact) totalMinor (raisedShares totalMinor exact).toFinset := by
  have hfraction (i : Fin exact.length) :
      (fraction exact i).value = Int.fract (shareValue exact i) := by
    obtain ⟨hsign, hfits⟩ := hshort _ (List.get_mem exact i)
    exact Decimal.value_sub_floor hsign hfits
  obtain ⟨order, horder⟩ : ∃ order, order = (List.finRange exact.length).insertionSort fun i j =>
    (fraction exact j).value ≤ (fraction exact i).value := ⟨_, rfl⟩
  have hperm : order.Perm (List.finRange exact.length) := horder ▸ List.perm_insertionSort _ _
  have hsorted : order.Pairwise fun i j => (fraction exact j).value ≤ (fraction exact i).value := by
    have htotal : Std.Total fun i j : Fin exact.length =>
      (fraction exact j).value ≤ (fraction exact i).value := ⟨fun i j => le_total _ _⟩
    have htrans : IsTrans (Fin exact.length) fun i j =>
      (fraction exact j).value ≤ (fraction exact i).value := ⟨fun _ _ _ h h' => h'.trans h⟩
    rw [horder]
    exact List.pairwise_insertionSort _ _
  obtain ⟨count, hcount⟩ := Int.eq_ofNat_of_zero_le hlow
  have hraised : raisedShares totalMinor exact = order.take count := by
    unfold raisedShares slice
    rw [← horder, sum_floors, hcount, if_pos (Int.natCast_nonneg _), Int.toNat_natCast]
  have hnodup : order.Nodup := hperm.nodup_iff.mpr (List.nodup_finRange _)
  rw [hraised]
  constructor
  · rw [List.toFinset_card_of_nodup (hnodup.sublist (List.take_sublist _ _)), List.length_take,
      hperm.length_eq, List.length_finRange, hcount]
    omega
  · intro i hi j hj
    rw [List.mem_toFinset] at hi hj
    rw [← hfraction, ← hfraction]
    have hmem : j ∈ order.drop count := by
      have hall : j ∈ order := hperm.mem_iff.mpr (List.mem_finRange j)
      rw [← List.take_append_drop count order, List.mem_append] at hall
      exact hall.resolve_left hj
    rw [← List.take_append_drop count order, List.pairwise_append] at hsorted
    exact hsorted.2.2 i hi j hmem

end

/-- What is asked of the parts along weights. -/
structure Allocated (total : Money) (weights : List Int) (parts : List Money) : Prop where
  length : parts.length = weights.length
  currency : ∀ part ∈ parts, part.currency = total.currency
  conserved : (parts.map (·.amountMinor)).sum = total.amountMinor
  close : ∀ (i : Nat) weight part, weights[i]? = some weight → parts[i]? = some part →
    |(part.amountMinor : ℚ) - shareOf total.amountMinor weights.sum weight| ≤
      1 + shareOf total.amountMinor weights.sum weight * shareError
  within : (weights.length + 1) * total.amountMinor * 106 ≤ 10 ^ 29 ∨
      (∀ weight ∈ weights, total.amountMinor * weight * 106 < 10 ^ 29) →
    ∀ (i : Nat) weight part, weights[i]? = some weight → parts[i]? = some part →
      |(part.amountMinor : ℚ) - shareOf total.amountMinor weights.sum weight| ≤ 1
  equal : ∀ (i j : Nat) weight part other, weights[i]? = some weight → weights[j]? = some weight →
    parts[i]? = some part → parts[j]? = some other → |part.amountMinor - other.amountMinor| ≤ 1
  ordered : ∀ (i j : Nat) weight weight' part part', weights[i]? = some weight →
    weights[j]? = some weight' → weight < weight' → parts[i]? = some part →
      parts[j]? = some part' → part.amountMinor ≤ part'.amountMinor

theorem sum_cast_get {n : Nat} (f : Int → ℚ) (weights : List Int) (h : n = weights.length) :
    ∑ i : Fin n, f (weights.get (i.cast h)) = (weights.map f).sum := by
  subst h
  conv_rhs => rw [← List.ofFn_get weights, List.map_ofFn, List.sum_ofFn]
  rfl

theorem sum_shareOf (totalMinor weightTotal : Int) (weights : List Int) :
    (weights.map (shareOf totalMinor weightTotal)).sum =
      shareOf totalMinor weightTotal weights.sum := by
  unfold shareOf
  induction weights with
  | nil => simp
  | cons weight weights ih =>
      rw [List.map_cons, List.sum_cons, ih, List.sum_cons]
      push_cast
      ring

section

variable {totalMinor : Int} {weights : List Int} {exact : List Decimal}

theorem Divided.known (divided : Divided totalMinor weights exact) (hsum : 0 < weights.sum) :
    Apportion.Known (fun i => shareOf totalMinor weights.sum (weights.get (i.cast divided.length)))
      (shareValue exact) totalMinor (totalMinor * shareError) := by
  have hwhole : ∑ i : Fin exact.length,
      shareOf totalMinor weights.sum (weights.get (i.cast divided.length)) = totalMinor := by
    rw [sum_cast_get, sum_shareOf]
    unfold shareOf
    have hne : (weights.sum : ℚ) ≠ 0 := by exact_mod_cast hsum.ne'
    field_simp
  constructor
  · exact hwhole
  · refine (Finset.sum_le_sum fun i _ => divided.near i).trans ?_
    rw [← Finset.sum_mul, hwhole]

theorem Divided.eq_zero (divided : Divided 0 weights exact) (i : Fin exact.length) :
    shareValue exact i = 0 := by
  have hnear := divided.near i
  unfold shareOf at hnear
  rw [Int.cast_zero, zero_mul, zero_div, zero_mul, sub_zero] at hnear
  exact abs_nonpos_iff.mp hnear

/-- The shares of two weights of the database's integers are told apart. -/
theorem Divided.lt (divided : Divided totalMinor weights exact) (htotal : 0 < totalMinor)
    (hsum : 0 < weights.sum) (hweights : ∀ weight ∈ weights, 0 ≤ weight ∧ weight < 2 ^ 63)
    {i j : Fin exact.length}
    (h : weights.get (i.cast divided.length) < weights.get (j.cast divided.length)) :
    shareValue exact i < shareValue exact j := by
  have hi := abs_le.mp (divided.near i)
  have hj := abs_le.mp (divided.near j)
  have hlow := (hweights _ (List.get_mem weights (i.cast divided.length))).1
  have hhigh := (hweights _ (List.get_mem weights (j.cast divided.length))).2
  generalize weights.get (i.cast divided.length) = small at h hi hlow
  generalize weights.get (j.cast divided.length) = large at h hj hhigh
  unfold shareOf at hi hj
  have hunit : (0 : ℚ) < totalMinor / weights.sum :=
    div_pos (by exact_mod_cast htotal) (by exact_mod_cast hsum)
  rw [mul_div_right_comm] at hi hj
  generalize (totalMinor : ℚ) / weights.sum = unit at hi hj hunit
  have hgap : (small : ℚ) + 1 ≤ large := by exact_mod_cast h
  have hbound : (large : ℚ) < 2 ^ 63 := by exact_mod_cast hhigh
  have hsmall : (0 : ℚ) ≤ small := by exact_mod_cast hlow
  have hstep := mul_le_mul_of_nonneg_left hgap hunit.le
  have hmore := mul_lt_mul_of_pos_left hbound hunit
  have hless := mul_nonneg hunit.le hsmall
  unfold shareError at hi hj
  norm_num at hi hj hmore
  linarith

/-- A share whose product fits is known to less than one part in the weights. -/
theorem shareOf_mul_shareError_lt {weightTotal weight : Int} (hpositive : 0 < weightTotal)
    (hfits : totalMinor * weight * 106 < 10 ^ 29) :
    shareOf totalMinor weightTotal weight * shareError < 1 / weightTotal := by
  have hcast : (totalMinor : ℚ) * weight * 106 < 10 ^ 29 := by exact_mod_cast hfits
  have hpositive : (0 : ℚ) < weightTotal := by exact_mod_cast hpositive
  unfold shareOf shareError
  rw [div_mul_eq_mul_div]
  refine div_lt_div_of_pos_right ?_ hpositive
  linarith

/-- With few parts or short products each part is within one of its share. -/
theorem Divided.within (divided : Divided totalMinor weights exact) (hsum : 0 < weights.sum)
    {raised : Finset (Fin exact.length)}
    (raises : Apportion.Raises (shareValue exact) totalMinor raised)
    (hdigits : (weights.length + 1) * totalMinor * 106 ≤ 10 ^ 29 ∨
      ∀ weight ∈ weights, totalMinor * weight * 106 < 10 ^ 29) (i : Fin exact.length) :
    |(Apportion.part (shareValue exact) raised i : ℚ) -
      shareOf totalMinor weights.sum (weights.get (i.cast divided.length))| ≤ 1 := by
  rcases hdigits with hfew | hshort
  · -- All the errors together are less than one unit.
    refine raises.abs_part_sub_le_one (divided.known hsum) ?_ i
    have hcast : ((weights.length : ℚ) + 1) * totalMinor * 106 ≤ 10 ^ 29 := by
      exact_mod_cast hfew
    rw [divided.length]
    unfold shareError
    linarith
  · -- A share is a multiple of one part in the weights, and known to less than that.
    have hgrid : shareOf totalMinor weights.sum (weights.get (i.cast divided.length)) =
        ((totalMinor * weights.get (i.cast divided.length) : Int) : ℚ) / weights.sum := by
      unfold shareOf
      push_cast
      rfl
    have hfits := hshort _ (List.get_mem weights (i.cast divided.length))
    exact Apportion.abs_part_sub_le_one_of_lt hsum hgrid
      ((divided.near i).trans_lt (shareOf_mul_shareError_lt hsum hfits))

end

section

variable {total : Money} {weights : List Int}

/-- The parts along weights that the context can tell apart. -/
theorem allocateRemainder_allocated (htotal : 0 ≤ total.amountMinor)
    (hbig : total.amountMinor < 2 ^ 63)
    (hweights : ∀ weight ∈ weights, 0 ≤ weight ∧ weight < 2 ^ 63) (hsum : 0 < weights.sum) :
    ∃ parts, allocateRemainder total weights = .ok parts ∧ Allocated total weights parts := by
  obtain ⟨exact, hexact, divided⟩ :=
    exactShares_divided htotal (fun weight hmem => (hweights weight hmem).1) hsum
  have known := divided.known hsum
  have hslack : total.amountMinor * shareError < 1 := by
    have hcast : (total.amountMinor : ℚ) < 2 ^ 63 := by exact_mod_cast hbig
    unfold shareError
    norm_num at hcast ⊢
    linarith
  obtain ⟨hlow, hhigh⟩ := known.leftover hslack
  have raises := raises_raisedShares divided.digits hlow hhigh
  have hparts : allocateRemainder total weights =
      .ok ((allocate total.amountMinor exact).map fun amountMinor =>
        ⟨amountMinor, total.currency⟩) := by
    unfold allocateRemainder
    dsimp only
    rw [if_neg (not_le.mpr hsum), hexact]
    rfl
  refine ⟨_, hparts, ?_⟩
  rw [allocate_eq]
  generalize (raisedShares total.amountMinor exact).toFinset = raised at raises ⊢
  have hpart {i : Nat} {part : Money} (h : ((List.ofFn (Apportion.part (shareValue exact)
      raised)).map fun amountMinor => (⟨amountMinor, total.currency⟩ : Money))[i]? = some part) :
      ∃ hi : i < exact.length, part.currency = total.currency ∧
        part.amountMinor = Apportion.part (shareValue exact) raised ⟨i, hi⟩ := by
    rw [List.getElem?_map, List.getElem?_ofFn] at h
    split at h
    · next hi =>
        cases h
        exact ⟨hi, rfl, rfl⟩
    · cases h
  have hweight {i : Nat} {weight : Int} (h : weights[i]? = some weight) (hi : i < exact.length) :
      weights.get (Fin.cast divided.length ⟨i, hi⟩) = weight := by
    obtain ⟨_, hget⟩ := List.getElem?_eq_some_iff.mp h
    exact hget
  constructor
  · rw [List.length_map, List.length_ofFn, divided.length]
  · intro part hmem
    obtain ⟨amountMinor, -, rfl⟩ := List.mem_map.mp hmem
    rfl
  · rw [List.map_map, ← raises.sum_part, ← List.sum_ofFn]
    congr 1
    exact List.map_id _
  · intro i weight part hi h
    obtain ⟨hlt, -, hamount⟩ := hpart h
    have hnear := divided.near ⟨i, hlt⟩
    rw [hweight hi hlt] at hnear
    rw [hamount]
    exact (Apportion.abs_part_sub_le _ _).trans (add_le_add_right hnear 1)
  · intro hdigits i weight part hi h
    obtain ⟨hlt, -, hamount⟩ := hpart h
    rw [hamount, ← hweight hi hlt]
    exact divided.within hsum raises hdigits ⟨i, hlt⟩
  · intro i j weight part other hi hj h h'
    obtain ⟨hlt, -, hamount⟩ := hpart h
    obtain ⟨hlt', -, hamount'⟩ := hpart h'
    rw [hamount, hamount']
    refine Apportion.abs_part_sub_part_le (congrArg Decimal.value ?_)
    have hfirst := divided.divides ⟨i, hlt⟩
    have hsecond := divided.divides ⟨j, hlt'⟩
    rw [hweight hi hlt] at hfirst
    rw [hweight hj hlt'] at hsecond
    exact Except.ok.inj (hfirst.symm.trans hsecond)
  · intro i j weight weight' part part' hi hj hless h h'
    obtain ⟨hlt, -, hamount⟩ := hpart h
    obtain ⟨hlt', -, hamount'⟩ := hpart h'
    rw [hamount, hamount']
    rcases htotal.eq_or_lt with hzero | hpositive
    · rw [← hzero] at raises divided
      rw [raises.part_eq_zero divided.eq_zero, raises.part_eq_zero divided.eq_zero]
    · refine raises.part_mono (divided.lt hpositive hsum hweights ?_)
      rw [hweight hi hlt, hweight hj hlt']
      exact hless

end

/-- Parts of an amount add up to it and are as equal as they can be; parts along weights add up
to the total and follow the order of the weights, and each is within one of its share but for the
error of the division, which neither few enough weights nor short enough products bring to bear. -/
theorem splits_conserve :
    (∀ (m : Money) (parts : Int), 0 < parts →
      ∃ split, splitEvenly m parts = .ok split ∧ EvenParts m parts split) ∧
    ∀ (total : Money) (weights : List Int), isBigInteger total.amountMinor = true →
      0 ≤ total.amountMinor → (∀ weight ∈ weights, isBigInteger weight = true ∧ 0 ≤ weight) →
        0 < weights.sum →
          ∃ parts, allocateRemainder total weights = .ok parts ∧ Allocated total weights parts := by
  have hbelow {value : Int} (h : isBigInteger value = true) : value < 2 ^ 63 :=
    (decide_eq_true_eq.mp h).2
  constructor
  · intro m parts hparts
    exact splitEvenly_even m hparts
  · intro total weights htotal hnonneg hweights hsum
    exact allocateRemainder_allocated hnonneg (hbelow htotal)
      (fun weight hmem => ⟨(hweights weight hmem).2, hbelow (hweights weight hmem).1⟩) hsum

/-- A dollar in three equal parts, and along two weights. -/
theorem splits_conserve_dollar :
    (∃ split, splitEvenly ⟨100, "USD"⟩ 3 = .ok split ∧ EvenParts ⟨100, "USD"⟩ 3 split) ∧
    ∃ parts, allocateRemainder ⟨100, "USD"⟩ [2, 1] = .ok parts ∧
      Allocated ⟨100, "USD"⟩ [2, 1] parts ∧
      ∀ (i : Nat) weight part, [2, 1][i]? = some weight → parts[i]? = some part →
        |(part.amountMinor : ℚ) - shareOf 100 [2, 1].sum weight| ≤ 1 := by
  obtain ⟨parts, hparts, allocated⟩ := splits_conserve.2 ⟨100, "USD"⟩ [2, 1] (by decide)
    (by decide) (by decide) (by decide)
  exact ⟨splits_conserve.1 ⟨100, "USD"⟩ 3 (by decide), parts, hparts, allocated,
    allocated.within (.inr (by decide))⟩

/-! ## So many weights that the errors tell -/

/-- Of one share, and many equal ones with a smaller fraction, the one is raised by what a
single unit is left over. -/
theorem head_allocate {large small : Decimal} {count : Nat}
    (hlarge : 0 ≤ large.coefficient ∧ large.coefficient.natAbs < 10 ^ decimalPrecision)
    (hsmall : 0 ≤ small.coefficient ∧ small.coefficient.natAbs < 10 ^ decimalPrecision)
    (hfract : Int.fract small.value < Int.fract large.value) {totalMinor : Int}
    (htotal : totalMinor = large.floor + count * small.floor + 1) :
    (allocate totalMinor (large :: List.replicate count small)).head? =
      some (large.floor + 1) := by
  have hsum : ∑ i, ⌊shareValue (large :: List.replicate count small) i⌋ =
      large.floor + count * small.floor := by
    rw [← sum_floors, List.map_cons, List.sum_cons, List.map_replicate, List.sum_replicate,
      nsmul_eq_mul]
  have raises : Apportion.Raises (shareValue (large :: List.replicate count small)) totalMinor
      (raisedShares totalMinor (large :: List.replicate count small)).toFinset := by
    refine raises_raisedShares ?_ ?_ ?_
    · intro share hmem
      rcases List.mem_cons.mp hmem with rfl | hmem
      · exact hlarge
      · rw [List.eq_of_mem_replicate hmem]
        exact hsmall
    · rw [hsum]
      omega
    · rw [hsum, List.length_cons]
      omega
  rw [allocate_eq]
  generalize (raisedShares totalMinor (large :: List.replicate count small)).toFinset = raised
    at raises ⊢
  have hone : raised.card = 1 := by
    have hcount := raises.count
    rw [hsum] at hcount
    omega
  have hfirst : (⟨0, Nat.succ_pos _⟩ : Fin (large :: List.replicate count small).length) ∈
      raised := by
    obtain ⟨i, hi⟩ := Finset.card_pos.mp (hone ▸ Nat.one_pos)
    by_contra hfirst
    have hless := raises.largest i hi _ hfirst
    obtain ⟨i, hlt⟩ := i
    cases i with
    | zero => exact hfirst hi
    | succ i =>
        have hvalue : shareValue (large :: List.replicate count small) ⟨i + 1, hlt⟩ =
            small.value := by
          unfold shareValue
          rw [List.get_eq_getElem, List.getElem_cons_succ, List.getElem_replicate]
        rw [hvalue] at hless
        exact absurd hless (not_le.mpr hfract)
  have hhead : (List.ofFn (Apportion.part (shareValue (large :: List.replicate count small))
      raised)).head? = some (Apportion.part (shareValue (large :: List.replicate count small))
        raised ⟨0, Nat.succ_pos _⟩) := by
    rw [List.head?_eq_getElem?, List.getElem?_ofFn]
    exact dif_pos _
  rw [hhead]
  unfold Apportion.part
  rw [if_pos hfirst, Decimal.floor_eq]
  rfl

theorem mapM_replicate {α β : Type} {f : α → Except Exception β} {a : α} {b : β}
    (h : f a = .ok b) (count : Nat) :
    (List.replicate count a).mapM f = .ok (List.replicate count b) := by
  induction count with
  | zero => rfl
  | succ count ih =>
      rw [List.replicate_succ, List.mapM_cons, h, ih, List.replicate_succ]
      rfl

/-- One weight, and a quarter of a billion of ones. -/
def strayWeights : List Int :=
  1152653415903507096 :: List.replicate 250009051 1

def strayTotal : Money :=
  ⟨9221227333838575924, "USD"⟩

/-- The product of the total and the first weight has 37 digits; rounded to 28 it takes the share
past a whole number, and the one unit that is left over goes to it. -/
theorem allocation_strays :
    isBigInteger strayTotal.amountMinor = true ∧ 0 ≤ strayTotal.amountMinor ∧
      (∀ weight ∈ strayWeights, isBigInteger weight = true ∧ 0 ≤ weight) ∧
      0 < strayWeights.sum ∧ isBigInteger strayWeights.sum = true ∧
      ∃ parts weight part, allocateRemainder strayTotal strayWeights = .ok parts ∧
        strayWeights[0]? = some weight ∧ parts[0]? = some part ∧
        1 < |(part.amountMinor : ℚ) -
          shareOf strayTotal.amountMinor strayWeights.sum weight| := by
  have hsum : strayWeights.sum = 1152653416153516147 := by
    unfold strayWeights
    rw [List.sum_cons, List.sum_replicate, nsmul_eq_mul]
    norm_num
  have hlarge : exactShare 9221227333838575924 1152653415903507096 1152653416153516147 =
      .ok ⟨9221227331838503515000000004, -9⟩ := by
    unfold exactShare
    rw [show Decimal.div decimalPrecision (Decimal.mul decimalPrecision
      (.ofInt 9221227333838575924) (.ofInt 1152653415903507096)) (.ofInt 1152653416153516147) =
        some ⟨9221227331838503515000000004, -9⟩ by decide +kernel]
  have hsmall : exactShare 9221227333838575924 1 1152653416153516147 =
      .ok ⟨8000000003999855189242728660, -27⟩ := by
    unfold exactShare
    rw [show Decimal.div decimalPrecision (Decimal.mul decimalPrecision
      (.ofInt 9221227333838575924) (.ofInt 1)) (.ofInt 1152653416153516147) =
        some ⟨8000000003999855189242728660, -27⟩ by decide +kernel]
  have hallocated : allocateRemainder strayTotal strayWeights =
      .ok ((allocate 9221227333838575924 (⟨9221227331838503515000000004, -9⟩ ::
        List.replicate 250009051 ⟨8000000003999855189242728660, -27⟩)).map fun amountMinor =>
          ⟨amountMinor, "USD"⟩) := by
    have hmany := @mapM_replicate Int Decimal
      (fun weight => exactShare 9221227333838575924 weight 1152653416153516147) 1 _ hsmall 250009051
    unfold allocateRemainder
    dsimp only
    rw [hsum, if_neg (by norm_num)]
    unfold strayWeights strayTotal
    dsimp only
    rw [List.mapM_cons, hlarge, hmany]
    rfl
  have hhead := @head_allocate ⟨9221227331838503515000000004, -9⟩
    ⟨8000000003999855189242728660, -27⟩ 250009051 (by decide +kernel) (by decide +kernel)
    (by decide +kernel) 9221227333838575924 (by decide +kernel)
  refine ⟨by decide, by decide, ?_, by rw [hsum]; norm_num, by rw [hsum]; decide, _,
    1152653415903507096, ⟨9221227331838503516, "USD"⟩, hallocated, rfl, ?_, ?_⟩
  · intro weight hmem
    rcases List.mem_cons.mp hmem with rfl | hmem
    · decide
    · rw [List.eq_of_mem_replicate hmem]
      decide
  · rw [List.getElem?_map, ← List.head?_eq_getElem?, hhead]
    decide +kernel
  · rw [hsum]
    unfold shareOf strayTotal
    norm_num [abs_of_pos]

end PayzenoLedger
