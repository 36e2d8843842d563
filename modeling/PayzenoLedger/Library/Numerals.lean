import PayzenoLedger.Library.Decimal
import PayzenoLedger.Library.Digits
import PayzenoLedger.Library.Strings

/-!
# Numerals

What a decimal is read from: digits with a point and an exponent, an infinity or a number
that is none.  A number that is written with a fixed count of decimal places is read back
as itself.
-/

set_option autoImplicit false

namespace PayzenoLedger.Library

/-- What the text of a decimal stands for. -/
inductive Numeral where
  | finite (decimal : Decimal)
  | infinite
  | quietNaN
  | signalingNaN
deriving DecidableEq, Repr

namespace Numeral

/-- A decimal digit as one of ASCII, and any other character as it is. -/
def asciiDigit (char : Char) : Char :=
  match digitValue char with
  | some digit => Char.ofNat (48 + digit)
  | none => char

def readSigned (text : List Char) : Option Int :=
  let (negative, digits) := splitSign text
  if digits = [] ∨ digits.any fun char => !char.isDigit then none
  else if negative then some (-(Nat.ofDigitChars 10 digits 0 : Int))
  else some (Nat.ofDigitChars 10 digits 0)

/-- The exponent that a number ends with, if any. -/
def readExponent : List Char → Option Int
  | [] => some 0
  | 'e' :: rest => readSigned rest
  | 'E' :: rest => readSigned rest
  | _ => none

/-- The decimal places after a point, and the rest. -/
def readFraction : List Char → List Char × List Char
  | '.' :: rest => (rest.takeWhile Char.isDigit, rest.dropWhile Char.isDigit)
  | rest => ([], rest)

def readNumber (negative : Bool) (text : List Char) : Option Decimal :=
  let whole := text.takeWhile Char.isDigit
  let (fraction, rest) := readFraction (text.dropWhile Char.isDigit)
  if whole ++ fraction = [] then none
  else
    match readExponent rest with
    | none => none
    | some exponent =>
        let coefficient : Int := Nat.ofDigitChars 10 (whole ++ fraction) 0
        some ⟨if negative then -coefficient else coefficient, exponent - fraction.length⟩

/-- The numerals that are no number, in small letters. -/
def readSpecial (text : List Char) : Option Numeral :=
  if text = "inf".toList ∨ text = "infinity".toList then some .infinite
  else if text.take 3 = "nan".toList ∧ (text.drop 3).all Char.isDigit then some .quietNaN
  else if text.take 4 = "snan".toList ∧ (text.drop 4).all Char.isDigit then some .signalingNaN
  else none

/-- `Decimal` of a text; `none` is its `InvalidOperation`. -/
def parse (text : List Char) : Option Numeral :=
  let chars := ((strip text).filter (· ≠ '_')).map asciiDigit
  let (negative, rest) := splitSign chars
  match readSpecial (rest.map Char.toLower) with
  | some special => some special
  | none => (readNumber negative rest).map finite

/-- A number of so many decimal places, in the last of them. -/
def write (places : Nat) (value : Int) : List Char :=
  let digits := Nat.toDigits 10 value.natAbs
  let padded := List.replicate (places + 1 - digits.length) '0' ++ digits
  (if value < 0 then ['-'] else []) ++ padded.take (padded.length - places) ++
    if places = 0 then [] else '.' :: padded.drop (padded.length - places)

example : write 2 (-5) = "-0.05".toList := by decide

example : parse " +1_2.3٤e-1".toList = some (.finite ⟨1234, -3⟩) := by decide

/-! ## What is written is read back -/

/-- The characters of a written number. -/
def Plain (char : Char) : Prop :=
  char.isDigit = true ∨ char = '-' ∨ char = '.'

theorem mem_digits {char : Char} (h : char.isDigit = true) : char ∈ "0123456789".toList := by
  obtain ⟨place, hplace, hchar⟩ := toNat_of_isDigit h
  have hofNat : char = Char.ofNat (48 + place) := by
    rw [← hchar, Char.ofNat_toNat]
  have hall : ∀ place < 10, Char.ofNat (48 + place) ∈ "0123456789".toList := by decide
  rw [hofNat]
  exact hall place hplace

theorem Plain.mem {char : Char} (h : Plain char) : char ∈ "0123456789-.".toList := by
  rcases h with h | rfl | rfl
  · have hmem := mem_digits h
    exact List.mem_append_left "-.".toList hmem
  · decide
  · decide

theorem Plain.kept {char : Char} (h : Plain char) :
    isSpace char = false ∧ char ≠ '_' ∧ asciiDigit char = char := by
  have hall : ("0123456789-.".toList.all fun char =>
      !isSpace char && char != '_' && asciiDigit char == char) = true := by decide
  have hchar := List.all_eq_true.mp hall char h.mem
  simpa [and_assoc] using hchar

variable {text whole fraction : List Char} {negative : Bool}

theorem takeWhile_digits (hwhole : AllDigits whole) (hrest : ∀ char ∈ text.head?, char = '.') :
    (whole ++ text).takeWhile Char.isDigit = whole ∧
      (whole ++ text).dropWhile Char.isDigit = text := by
  induction whole with
  | nil =>
      cases text with
      | nil => exact ⟨rfl, rfl⟩
      | cons char text =>
          obtain rfl := hrest char rfl
          exact ⟨rfl, rfl⟩
  | cons char whole ih =>
      obtain ⟨htake, hdrop⟩ := ih hwhole.of_cons
      have hchar := hwhole char List.mem_cons_self
      rw [List.cons_append, List.takeWhile_cons, List.dropWhile_cons, if_pos hchar, if_pos hchar,
        htake, hdrop]
      exact ⟨rfl, rfl⟩

/-- The places of a number after its point. -/
def pointed (fraction : List Char) : List Char :=
  if fraction = [] then [] else '.' :: fraction

theorem readNumber_digits (hwhole : AllDigits whole) (hfraction : AllDigits fraction)
    (hne : whole ≠ []) :
    readNumber negative (whole ++ pointed fraction) =
      some ⟨if negative then -(Nat.ofDigitChars 10 (whole ++ fraction) 0 : Int)
        else Nat.ofDigitChars 10 (whole ++ fraction) 0, -(fraction.length : Int)⟩ := by
  have hhead : ∀ char ∈ (pointed fraction).head?, char = '.' := by
    intro char hchar
    unfold pointed at hchar
    split at hchar
    · cases hchar
    · exact (Option.some.inj hchar).symm
  obtain ⟨htake, hdrop⟩ := takeWhile_digits hwhole hhead
  have hread : readFraction (pointed fraction) = (fraction, []) := by
    unfold pointed
    split
    · next hnone =>
        rw [hnone]
        rfl
    · obtain ⟨htake, hdrop⟩ := @takeWhile_digits [] fraction hfraction (by simp)
      rw [List.append_nil] at htake hdrop
      change (fraction.takeWhile Char.isDigit, fraction.dropWhile Char.isDigit) = _
      rw [htake, hdrop]
  unfold readNumber
  dsimp only
  rw [htake, hdrop, hread]
  dsimp only
  rw [if_neg (by simp [hne])]
  simp only [readExponent, zero_sub]

theorem readSpecial_digit {char : Char} (h : char.isDigit = true) :
    readSpecial ((char :: text).map Char.toLower) = none := by
  have hall : ("0123456789".toList.all fun char => char.toLower == char &&
      char != 'i' && char != 'n' && char != 's') = true := by decide
  have hchar := List.all_eq_true.mp hall char (mem_digits h)
  simp only [Bool.and_eq_true, beq_iff_eq, bne_iff_ne] at hchar
  obtain ⟨⟨⟨hlower, hi⟩, hn⟩, hs⟩ := hchar
  rw [List.map_cons, hlower]
  unfold readSpecial
  rw [if_neg, if_neg, if_neg]
  · rintro ⟨hsnan, -⟩
    exact hs (List.cons.inj hsnan).1
  · rintro ⟨hnan, -⟩
    exact hn (List.cons.inj hnan).1
  · rintro (hinf | hinf)
    · exact hi (List.cons.inj hinf).1
    · exact hi (List.cons.inj hinf).1

theorem splitSign_digit {char : Char} (h : char.isDigit = true) :
    splitSign (char :: text) = (false, char :: text) := by
  unfold splitSign
  split
  · next hminus =>
      obtain rfl := (List.cons.inj hminus).1
      cases h
  · next hplus =>
      obtain rfl := (List.cons.inj hplus).1
      cases h
  · rfl

theorem plain_digits (hwhole : AllDigits whole) (hfraction : AllDigits fraction) :
    ∀ char ∈ (if negative then ['-'] else []) ++ whole ++ pointed fraction, Plain char := by
  intro char hchar
  rw [List.mem_append, List.mem_append] at hchar
  rcases hchar with (hchar | hchar) | hchar
  · split at hchar
    · exact .inr (.inl (List.mem_singleton.mp hchar))
    · cases hchar
  · exact .inl (hwhole char hchar)
  · unfold pointed at hchar
    split at hchar
    · cases hchar
    · rcases List.mem_cons.mp hchar with rfl | hchar
      · exact .inr (.inr rfl)
      · exact .inl (hfraction char hchar)

/-- Digits with a point are read as the number that they write. -/
theorem parse_digits (hwhole : AllDigits whole) (hfraction : AllDigits fraction)
    (hne : whole ≠ []) :
    parse ((if negative then ['-'] else []) ++ whole ++ pointed fraction) =
      some (.finite ⟨if negative then -(Nat.ofDigitChars 10 (whole ++ fraction) 0 : Int)
        else Nat.ofDigitChars 10 (whole ++ fraction) 0, -(fraction.length : Int)⟩) := by
  have hplain := @plain_digits whole fraction negative hwhole hfraction
  generalize htext : (if negative then ['-'] else []) ++ whole ++ pointed fraction = text
    at hplain
  have hstrip : strip text = text :=
    strip_of_not_space fun char hchar => (hplain char hchar).kept.1
  have hfilter : text.filter (· ≠ '_') = text :=
    List.filter_eq_self.mpr fun char hchar => by simpa using (hplain char hchar).kept.2.1
  have hmap : text.map asciiDigit = text := by
    conv_rhs => rw [← List.map_id text]
    exact List.map_congr_left fun char hchar => (hplain char hchar).kept.2.2
  obtain ⟨first, rest, rfl⟩ := List.exists_cons_of_ne_nil hne
  have hfirst := hwhole first List.mem_cons_self
  have hsign : splitSign text = (negative, first :: rest ++ pointed fraction) := by
    rw [← htext]
    cases negative with
    | false => exact splitSign_digit hfirst
    | true => rfl
  unfold parse
  rw [hstrip, hfilter, hmap]
  dsimp only
  rw [hsign]
  dsimp only
  rw [List.cons_append, readSpecial_digit hfirst, ← List.cons_append,
    readNumber_digits hwhole hfraction hne]
  rfl

/-- What is written: a sign, the digits before the point and those after it. -/
theorem write_eq (places : Nat) (value : Int) : ∃ whole fraction, AllDigits whole ∧
    AllDigits fraction ∧ whole ≠ [] ∧ fraction.length = places ∧
    Nat.ofDigitChars 10 (whole ++ fraction) 0 = value.natAbs ∧
    write places value =
      (if decide (value < 0) then ['-'] else []) ++ whole ++ pointed fraction := by
  unfold write
  dsimp only
  generalize hdigits : List.replicate (places + 1 - (Nat.toDigits 10 value.natAbs).length) '0' ++
    Nat.toDigits 10 value.natAbs = digits
  have hall : AllDigits digits := by
    rw [← hdigits]
    exact (allDigits_replicate_zero _).append (allDigits_toDigits _)
  have hlong : places + 1 ≤ digits.length := by
    rw [← hdigits, List.length_append, List.length_replicate]
    omega
  have hfraction : (digits.drop (digits.length - places)).length = places := by
    rw [List.length_drop]
    omega
  refine ⟨digits.take (digits.length - places), digits.drop (digits.length - places),
    fun char hchar => hall char (List.mem_of_mem_take hchar),
    fun char hchar => hall char (List.mem_of_mem_drop hchar), ?_, hfraction, ?_, ?_⟩
  · intro hnone
    have hlength := congrArg List.length hnone
    rw [List.length_take, List.length_nil] at hlength
    omega
  · rw [List.take_append_drop, ← hdigits, ofDigitChars_zeros, Nat.ofDigitChars_ten_toDigits]
  · simp only [decide_eq_true_eq]
    congr 1
    unfold pointed
    by_cases hnone : places = 0
    · rw [if_pos hnone, if_pos (List.length_eq_zero_iff.mp (hfraction.trans hnone))]
    · rw [if_neg hnone, if_neg fun hempty => hnone (by rw [← hfraction, hempty]; rfl)]

theorem write_plain (places : Nat) (value : Int) :
    write places value ≠ [] ∧ ∀ char ∈ write places value, Plain char := by
  obtain ⟨whole, fraction, hwhole, hfraction, hne, -, -, heq⟩ := write_eq places value
  rw [heq]
  refine ⟨?_, plain_digits hwhole hfraction⟩
  simp [hne]

/-- A number is read back from what is written of it. -/
theorem parse_write (places : Nat) (value : Int) :
    parse (write places value) = some (.finite ⟨value, -(places : Int)⟩) := by
  obtain ⟨whole, fraction, hwhole, hfraction, hne, hplaces, hvalue, heq⟩ := write_eq places value
  rw [heq, parse_digits hwhole hfraction hne, hvalue, hplaces]
  simp only [decide_eq_true_eq]
  congr 3
  split <;> omega

/-- No digit of a number is lost, so a short text is of a small number. -/
theorem natAbs_lt_write (places : Nat) (value : Int) :
    value.natAbs < 10 ^ (write places value).length := by
  obtain ⟨whole, fraction, hwhole, hfraction, hne, -, hvalue, heq⟩ := write_eq places value
  rw [← hvalue]
  refine lt_of_lt_of_le (ofDigitChars_lt (hwhole.append hfraction)) ?_
  refine Nat.pow_le_pow_right (by decide) ?_
  have hpointed : fraction.length ≤ (pointed fraction).length := by
    unfold pointed
    split
    · next hnone => rw [hnone]
    · exact Nat.le_succ _
  rw [heq]
  simp only [List.length_append]
  omega

end Numeral

end PayzenoLedger.Library
