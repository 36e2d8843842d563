import Mathlib.Order.Bounds.Basic

/-!
# The first number that will do

A search upwards over so many numbers for one with a property, the walk from one such
number to the next, and the count of them between two numbers.
-/

set_option autoImplicit false

namespace PayzenoLedger.Library

variable {p : Nat → Bool} {limit start start' found found' : Nat}

/-- The first of so many numbers from here on that has the property. -/
def firstFrom (p : Nat → Bool) : Nat → Nat → Option Nat
  | 0, _ => none
  | limit + 1, start => if p start then some start else firstFrom p limit (start + 1)

theorem firstFrom_eq_some : firstFrom p limit start = some found ↔
    start ≤ found ∧ found < start + limit ∧ p found = true ∧
      ∀ other, start ≤ other → other < found → p other = false := by
  induction limit generalizing start with
  | zero =>
      constructor
      · nofun
      · intro h
        omega
  | succ limit ih =>
      unfold firstFrom
      cases hstart : p start with
      | true =>
          simp only [if_true, Option.some.injEq]
          constructor
          · rintro rfl
            exact ⟨le_refl start, by omega, hstart, fun other hle hlt => by omega⟩
          · rintro ⟨hle, -, -, hnone⟩
            rcases Nat.lt_or_eq_of_le hle with hlt | heq
            · have hfalse := hnone start (le_refl start) hlt
              rw [hstart] at hfalse
              cases hfalse
            · exact heq
      | false =>
          simp only [Bool.false_eq_true, if_false]
          rw [ih]
          constructor
          · rintro ⟨hle, hlt, hfound, hnone⟩
            refine ⟨by omega, by omega, hfound, fun other hother hbefore => ?_⟩
            rcases Nat.lt_or_eq_of_le hother with hlater | rfl
            · exact hnone other hlater hbefore
            · exact hstart
          · rintro ⟨hle, hlt, hfound, hnone⟩
            have hne : start ≠ found := fun heq => by
              rw [heq, hfound] at hstart
              cases hstart
            exact ⟨by omega, by omega, hfound, fun other hother => hnone other (by omega)⟩

theorem firstFrom_eq_none : firstFrom p limit start = none ↔
    ∀ other, start ≤ other → other < start + limit → p other = false := by
  induction limit generalizing start with
  | zero =>
      constructor
      · intro _ other hle hlt
        omega
      · exact fun _ => rfl
  | succ limit ih =>
      unfold firstFrom
      cases hstart : p start with
      | true =>
          simp only [if_true]
          constructor
          · nofun
          · intro hnone
            have hfalse := hnone start (le_refl start) (by omega)
            rw [hstart] at hfalse
            cases hfalse
      | false =>
          simp only [Bool.false_eq_true, if_false]
          rw [ih]
          constructor
          · intro hnone other hle hlt
            rcases Nat.lt_or_eq_of_le hle with hlater | rfl
            · exact hnone other hlater (by omega)
            · exact hstart
          · exact fun hnone other hle hlt => hnone other (by omega) (by omega)

/-- What is found is the least number from here on with the property. -/
theorem firstFrom_isLeast (h : firstFrom p limit start = some found) :
    IsLeast { other | start ≤ other ∧ p other = true } found := by
  obtain ⟨hle, -, hfound, hnone⟩ := firstFrom_eq_some.mp h
  refine ⟨⟨hle, hfound⟩, fun other hother => ?_⟩
  by_contra hlt
  have hfalse := hnone other hother.1 (not_le.mp hlt)
  rw [hother.2] at hfalse
  cases hfalse

theorem firstFrom_of_isLeast (h : IsLeast { other | start ≤ other ∧ p other = true } found)
    (hlimit : found < start + limit) : firstFrom p limit start = some found := by
  refine firstFrom_eq_some.mpr ⟨h.1.1, hlimit, h.1.2, fun other hle hlt => ?_⟩
  cases hother : p other with
  | false => rfl
  | true =>
      have hbound := h.2 ⟨hle, hother⟩
      omega

theorem firstFrom_self (hlimit : 0 < limit) (h : p start = true) :
    firstFrom p limit start = some start :=
  firstFrom_eq_some.mpr ⟨le_refl start, by omega, h, fun other hle hlt => by omega⟩

theorem firstFrom_mono (hle : start ≤ start') (h : firstFrom p limit start = some found)
    (h' : firstFrom p limit start' = some found') : found ≤ found' := by
  have hleast := (firstFrom_isLeast h').1
  exact (firstFrom_isLeast h).2 ⟨le_trans hle hleast.1, hleast.2⟩

/-! ## Counting -/

/-- How many of so many numbers from here on have the property. -/
def countFrom (p : Nat → Bool) : Nat → Nat → Nat
  | 0, _ => 0
  | length + 1, start => (if p start then 1 else 0) + countFrom p length (start + 1)

theorem countFrom_add (first second start : Nat) : countFrom p (first + second) start =
    countFrom p first start + countFrom p second (start + first) := by
  induction first generalizing start with
  | zero => simp [countFrom]
  | succ first ih =>
      rw [show first + 1 + second = first + second + 1 by omega]
      rw [countFrom, ih (start + 1), countFrom,
        show start + 1 + first = start + (first + 1) by omega, Nat.add_assoc]

theorem countFrom_eq_zero {length : Nat} : countFrom p length start = 0 ↔
    ∀ other, start ≤ other → other < start + length → p other = false := by
  induction length generalizing start with
  | zero =>
      constructor
      · intro _ other hle hlt
        omega
      · exact fun _ => rfl
  | succ length ih =>
      unfold countFrom
      cases hstart : p start with
      | true =>
          constructor
          · intro hzero
            rw [if_pos rfl] at hzero
            omega
          · intro hnone
            have hfalse := hnone start (le_refl start) (by omega)
            rw [hstart] at hfalse
            cases hfalse
      | false =>
          rw [if_neg Bool.false_ne_true, Nat.zero_add, ih]
          constructor
          · intro hnone other hle hlt
            rcases Nat.lt_or_eq_of_le hle with hlater | rfl
            · exact hnone other hlater (by omega)
            · exact hstart
          · exact fun hnone other hle hlt => hnone other (by omega) (by omega)

/-- From one number with the property to the next, there is one. -/
theorem countFrom_next (hstart : p start = true)
    (h : firstFrom p limit (start + 1) = some found) :
    countFrom p (found - start) start = 1 := by
  obtain ⟨hle, -, -, hnone⟩ := firstFrom_eq_some.mp h
  rw [show found - start = (found - start - 1) + 1 by omega]
  unfold countFrom
  rw [hstart, if_pos rfl]
  rw [countFrom_eq_zero.mpr fun other hother hlt => hnone other (by omega) (by omega)]

/-- Up to and with the first one found there is one. -/
theorem countFrom_first (h : firstFrom p limit start = some found) :
    countFrom p (found + 1 - start) start = 1 := by
  obtain ⟨hle, -, hfound, hnone⟩ := firstFrom_eq_some.mp h
  rw [show found + 1 - start = (found - start) + 1 by omega, countFrom_add,
    countFrom_eq_zero.mpr fun other hother hlt => hnone other hother (by omega),
    show start + (found - start) = found by omega]
  unfold countFrom countFrom
  rw [hfound, if_pos rfl]

/-! ## The walk -/

/-- The number reached by so many searches after the first, each from past the last. -/
def nthFrom (p : Nat → Bool) (limit : Nat) : Nat → Nat → Option Nat
  | 0, start => firstFrom p limit start
  | count + 1, start =>
      (firstFrom p limit start).bind fun found => nthFrom p limit count (found + 1)

/-- No search between the two numbers comes back without one. -/
def GapsWithin (p : Nat → Bool) (limit start found : Nat) : Prop :=
  ∀ at_, start ≤ at_ → at_ + limit ≤ found →
    ∃ other, at_ ≤ other ∧ other < at_ + limit ∧ p other = true

/-- The walk ends at the number that has so many before it, if no gap is too long. -/
theorem nthFrom_eq_some {count : Nat} : nthFrom p limit count start = some found ↔
    start ≤ found ∧ p found = true ∧ countFrom p (found - start) start = count ∧
      GapsWithin p limit start found := by
  induction count generalizing start with
  | zero =>
      unfold nthFrom
      rw [firstFrom_eq_some, countFrom_eq_zero]
      constructor
      · rintro ⟨hle, hlt, hfound, hnone⟩
        refine ⟨hle, hfound, fun other hother hbefore => hnone other hother (by omega), ?_⟩
        intro at_ hat hwithin
        omega
      · rintro ⟨hle, hfound, hnone, hdense⟩
        refine ⟨hle, ?_, hfound, fun other hother hlt => hnone other hother (by omega)⟩
        by_contra hfar
        obtain ⟨other, hother, hlt, hp⟩ := hdense start (le_refl start) (by omega)
        rw [hnone other hother (by omega)] at hp
        cases hp
  | succ count ih =>
      unfold nthFrom
      constructor
      · intro h
        obtain ⟨first, hfirst, hrest⟩ := Option.bind_eq_some_iff.mp h
        obtain ⟨hle, hfound, hcount, hdense⟩ := ih.mp hrest
        obtain ⟨hstart, hlimit, hp, -⟩ := firstFrom_eq_some.mp hfirst
        refine ⟨by omega, hfound, ?_, ?_⟩
        · rw [show found - start = (first + 1 - start) + (found - (first + 1)) by omega,
            countFrom_add, countFrom_first hfirst,
            show start + (first + 1 - start) = first + 1 by omega, hcount, Nat.add_comm]
        · intro at_ hat hwithin
          by_cases hbefore : at_ ≤ first
          · exact ⟨first, hbefore, by omega, hp⟩
          · exact hdense at_ (by omega) hwithin
      · rintro ⟨hle, hfound, hcount, hdense⟩
        cases hfirst : firstFrom p limit start with
        | none =>
            have hnone := firstFrom_eq_none.mp hfirst
            have hfar : found < start + limit := by
              by_contra hfar
              obtain ⟨other, hother, hlt, hp⟩ := hdense start (le_refl start) (by omega)
              rw [hnone other hother hlt] at hp
              cases hp
            rw [hnone found hle hfar] at hfound
            cases hfound
        | some first =>
            obtain ⟨hstart, -, -, hnone⟩ := firstFrom_eq_some.mp hfirst
            have hbefore : first < found := by
              by_contra hafter
              rw [countFrom_eq_zero.mpr fun other hother hlt =>
                hnone other hother (by omega)] at hcount
              omega
            refine ih.mpr ⟨hbefore, hfound, ?_, fun at_ hat => hdense at_ (by omega)⟩
            rw [show found - start = (first + 1 - start) + (found - (first + 1)) by omega,
              countFrom_add, countFrom_first hfirst,
              show start + (first + 1 - start) = first + 1 by omega] at hcount
            omega

/-- The walk fails where it comes to so many in a row without the property. -/
theorem nthFrom_eq_none {count : Nat} : nthFrom p limit count start = none ↔
    ∃ at_, start ≤ at_ ∧ countFrom p (at_ - start) start ≤ count ∧
      ∀ other, at_ ≤ other → other < at_ + limit → p other = false := by
  induction count generalizing start with
  | zero =>
      unfold nthFrom
      rw [firstFrom_eq_none]
      constructor
      · intro hnone
        exact ⟨start, le_refl start, by rw [Nat.sub_self]; exact Nat.le_refl 0, hnone⟩
      · rintro ⟨at_, hat, hcount, hnone⟩ other hother hlt
        by_cases hbefore : other < at_
        · exact countFrom_eq_zero.mp (Nat.le_zero.mp hcount) other hother (by omega)
        · exact hnone other (by omega) (by omega)
  | succ count ih =>
      unfold nthFrom
      cases hfirst : firstFrom p limit start with
      | none =>
          refine ⟨fun _ => ⟨start, le_refl start, ?_, firstFrom_eq_none.mp hfirst⟩, fun _ => rfl⟩
          rw [Nat.sub_self]
          exact Nat.zero_le _
      | some first =>
          obtain ⟨hstart, hlimit, hp, -⟩ := firstFrom_eq_some.mp hfirst
          have hsplit : ∀ at_, first < at_ → countFrom p (at_ - start) start =
              1 + countFrom p (at_ - (first + 1)) (first + 1) := fun at_ hat => by
            rw [show at_ - start = (first + 1 - start) + (at_ - (first + 1)) by omega,
              countFrom_add, countFrom_first hfirst,
              show start + (first + 1 - start) = first + 1 by omega]
          change nthFrom p limit count (first + 1) = none ↔ _
          rw [ih]
          constructor
          · rintro ⟨at_, hat, hcount, hnone⟩
            refine ⟨at_, by omega, ?_, hnone⟩
            rw [hsplit at_ hat]
            omega
          · rintro ⟨at_, hat, hcount, hnone⟩
            -- The run of misses begins after the first that was found.
            have hafter : first < at_ := by
              by_contra hbefore
              rw [hnone first (by omega) (by omega)] at hp
              cases hp
            rw [hsplit at_ hafter] at hcount
            exact ⟨at_, hafter, by omega, hnone⟩

end PayzenoLedger.Library
