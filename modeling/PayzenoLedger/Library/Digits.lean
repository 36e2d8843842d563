import Mathlib.Tactic.Positivity
import Mathlib.Tactic.Ring

/-!
# Decimal digits

The number that a list of decimal digits stands for.  In a fixed width the digits are
determined by the number, and zeros in front do not change it.
-/

set_option autoImplicit false

namespace PayzenoLedger.Library

def AllDigits (text : List Char) : Prop :=
  ∀ char ∈ text, char.isDigit = true

variable {first second text : List Char}

theorem AllDigits.of_cons {char : Char} (h : AllDigits (char :: text)) : AllDigits text :=
  fun other hother => h other (List.mem_cons_of_mem _ hother)

theorem AllDigits.append (hfirst : AllDigits first) (hsecond : AllDigits second) :
    AllDigits (first ++ second) := by
  intro char hchar
  rcases List.mem_append.mp hchar with hchar | hchar
  · exact hfirst char hchar
  · exact hsecond char hchar

theorem allDigits_replicate_zero (count : Nat) : AllDigits (List.replicate count '0') := by
  intro char hchar
  rw [List.eq_of_mem_replicate hchar]
  decide

/-- A digit is its place after the zero. -/
theorem toNat_of_isDigit {char : Char} (h : char.isDigit = true) :
    ∃ place < 10, char.toNat = 48 + place := by
  obtain ⟨hlow, hhigh⟩ := Char.isDigit_iff_toNat.mp h
  change 48 ≤ char.toNat at hlow
  change char.toNat ≤ 57 at hhigh
  exact ⟨char.toNat - 48, by omega, by omega⟩

theorem ofDigitChars_step {char : Char} {place : Nat} (h : char.toNat = 48 + place) :
    Nat.ofDigitChars 10 (char :: text) 0 =
      10 ^ text.length * place + Nat.ofDigitChars 10 text 0 := by
  have hzero : '0'.toNat = 48 := rfl
  rw [Nat.ofDigitChars_cons, Nat.ofDigitChars_eq_ofDigitChars_zero, h, hzero, mul_zero, zero_add,
    Nat.add_sub_cancel_left]

theorem ofDigitChars_lt (h : AllDigits text) : Nat.ofDigitChars 10 text 0 < 10 ^ text.length := by
  induction text with
  | nil => decide
  | cons char text ih =>
      obtain ⟨place, hplace, hchar⟩ := toNat_of_isDigit (h char List.mem_cons_self)
      have hrest := ih h.of_cons
      have hfew := Nat.mul_le_mul_left (10 ^ text.length) (Nat.le_of_lt_succ hplace)
      rw [ofDigitChars_step hchar, List.length_cons, pow_succ]
      omega

/-- Numbers that are written in as many digits have the same digits. -/
theorem ofDigitChars_injective (hfirst : AllDigits first) (hsecond : AllDigits second)
    (hlength : first.length = second.length)
    (h : Nat.ofDigitChars 10 first 0 = Nat.ofDigitChars 10 second 0) : first = second := by
  induction first generalizing second with
  | nil => exact (List.length_eq_zero_iff.mp hlength.symm).symm
  | cons char text ih =>
      cases second with
      | nil => cases hlength
      | cons char' text' =>
          obtain ⟨place, hplace, hchar⟩ := toNat_of_isDigit (hfirst char List.mem_cons_self)
          obtain ⟨place', hplace', hchar'⟩ := toNat_of_isDigit (hsecond char' List.mem_cons_self)
          have hsame : text.length = text'.length := Nat.succ.inj hlength
          have hlt := ofDigitChars_lt hfirst.of_cons
          have hlt' := ofDigitChars_lt hsecond.of_cons
          rw [ofDigitChars_step hchar, ofDigitChars_step hchar', hsame] at h
          rw [hsame] at hlt
          -- The digit is the quotient by the power and the rest is the remainder.
          have hplaces : place = place' := by
            have hquotients := congrArg (· / 10 ^ text'.length) h
            simp only [Nat.mul_add_div (Nat.pow_pos (by decide : 0 < 10)), Nat.div_eq_of_lt hlt,
              Nat.div_eq_of_lt hlt', add_zero] at hquotients
            exact hquotients
          subst hplaces
          have hchars : char = char' := by
            apply Char.ext
            apply UInt32.toNat_inj.mp
            exact hchar.trans hchar'.symm
          rw [hchars, ih hfirst.of_cons hsecond.of_cons hsame (Nat.add_left_cancel h)]

/-- Zeros in front do not count. -/
theorem ofDigitChars_zeros (count : Nat) (text : List Char) :
    Nat.ofDigitChars 10 (List.replicate count '0' ++ text) 0 = Nat.ofDigitChars 10 text 0 := by
  rw [Nat.ofDigitChars_append, Nat.ofDigitChars_replicate_zero, mul_zero]

theorem allDigits_toDigits (n : Nat) : AllDigits (Nat.toDigits 10 n) :=
  fun _ hchar => Nat.isDigit_of_mem_toDigits (by decide) (by decide) hchar

end PayzenoLedger.Library
