import Mathlib.Data.List.DropRight

/-!
# Base64

The encoding of bytes over the alphabet that is safe in an address, and the lenient reader:
it takes the usual signs for the last two digits as well, passes over every other character,
and stops at the padding that completes a group.
-/

set_option autoImplicit false

namespace PayzenoLedger.Library

namespace Base64

def alphabet : List Char :=
  "ABCDEFGHIJKLMNOPQRSTUVWXYZabcdefghijklmnopqrstuvwxyz0123456789-_".toList

def digit (value : Nat) : Char :=
  alphabet.getD value '='

/-- The value of a digit; `none` is a character that is passed over. -/
def digitValue (char : Char) : Option Nat :=
  if char = '+' then some 62
  else if char = '/' then some 63
  else alphabet.idxOf? char

/-- `urlsafe_b64encode`: three bytes make four digits. -/
def encode : List UInt8 → List Char
  | [] => []
  | [first] => [digit (first.toNat / 4), digit (first.toNat % 4 * 16), '=', '=']
  | [first, second] =>
      [digit (first.toNat / 4), digit (first.toNat % 4 * 16 + second.toNat / 16),
        digit (second.toNat % 16 * 4), '=']
  | first :: second :: third :: rest =>
      digit (first.toNat / 4) :: digit (first.toNat % 4 * 16 + second.toNat / 16) ::
        digit (second.toNat % 16 * 4 + third.toNat / 64) :: digit (third.toNat % 64) ::
          encode rest

/-- The reader at a place in a group of four, with the bits left over from the last digit and
the padding seen since. -/
def decodeFrom (place left pads : Nat) : List Char → Option (List UInt8)
  | [] => if place = 0 then some [] else none
  | char :: rest =>
      if char = '=' then
        if 2 ≤ place then
          if 4 ≤ place + (pads + 1) then some [] else decodeFrom place left (pads + 1) rest
        else decodeFrom place left pads rest
      else
        match digitValue char with
        | none => decodeFrom place left pads rest
        | some value =>
            match place with
            | 0 => decodeFrom 1 value 0 rest
            | 1 => (decodeFrom 2 (value % 16) 0 rest).map (UInt8.ofNat (left * 4 + value / 16) :: ·)
            | 2 => (decodeFrom 3 (value % 4) 0 rest).map (UInt8.ofNat (left * 16 + value / 4) :: ·)
            | _ => (decodeFrom 0 0 0 rest).map (UInt8.ofNat (left * 64 + value) :: ·)

/-- `urlsafe_b64decode`; `none` is `binascii.Error`. -/
def decode (text : List Char) : Option (List UInt8) :=
  decodeFrom 0 0 0 text

/-! ## Round trip -/

theorem digitValue_digit {value : Nat} (h : value < 64) :
    digitValue (digit value) = some value := by
  have hall : (List.range 64).all (fun value => digitValue (digit value) == some value) = true := by
    decide
  exact beq_iff_eq.mp (List.all_eq_true.mp hall value (List.mem_range.mpr h))

theorem digit_ne_pad {value : Nat} (h : value < 64) : digit value ≠ '=' := by
  have hall : (List.range 64).all (fun value => digit value != '=') = true := by
    decide
  exact bne_iff_ne.mp (List.all_eq_true.mp hall value (List.mem_range.mpr h))

/-! The digit at each place of a group: the first gives no byte, each of the others one. -/

theorem decodeFrom_first {left pads value : Nat} (h : value < 64) (rest : List Char) :
    decodeFrom 0 left pads (digit value :: rest) = decodeFrom 1 value 0 rest := by
  conv_lhs => unfold decodeFrom
  rw [if_neg (digit_ne_pad h), digitValue_digit h]
  rfl

theorem decodeFrom_second {left pads value : Nat} {byte : UInt8} (h : value < 64)
    (hbyte : byte.toNat = left * 4 + value / 16) (rest : List Char) :
    decodeFrom 1 left pads (digit value :: rest) =
      (decodeFrom 2 (value % 16) 0 rest).map (byte :: ·) := by
  conv_lhs => unfold decodeFrom
  rw [if_neg (digit_ne_pad h), digitValue_digit h]
  change Option.map (UInt8.ofNat (left * 4 + value / 16) :: ·) _ = _
  rw [← hbyte, UInt8.ofNat_toNat]

theorem decodeFrom_third {left pads value : Nat} {byte : UInt8} (h : value < 64)
    (hbyte : byte.toNat = left * 16 + value / 4) (rest : List Char) :
    decodeFrom 2 left pads (digit value :: rest) =
      (decodeFrom 3 (value % 4) 0 rest).map (byte :: ·) := by
  conv_lhs => unfold decodeFrom
  rw [if_neg (digit_ne_pad h), digitValue_digit h]
  change Option.map (UInt8.ofNat (left * 16 + value / 4) :: ·) _ = _
  rw [← hbyte, UInt8.ofNat_toNat]

theorem decodeFrom_fourth {left pads value : Nat} {byte : UInt8} (h : value < 64)
    (hbyte : byte.toNat = left * 64 + value) (rest : List Char) :
    decodeFrom 3 left pads (digit value :: rest) =
      (decodeFrom 0 0 0 rest).map (byte :: ·) := by
  conv_lhs => unfold decodeFrom
  rw [if_neg (digit_ne_pad h), digitValue_digit h]
  change Option.map (UInt8.ofNat (left * 64 + value) :: ·) _ = _
  rw [← hbyte, UInt8.ofNat_toNat]

/-- What is encoded is read back. -/
theorem decode_encode (bytes : List UInt8) : decode (encode bytes) = some bytes := by
  unfold decode
  induction bytes using encode.induct with
  | case1 => rfl
  | case2 first =>
      have hfirst := first.toNat_lt
      unfold encode
      rw [decodeFrom_first (by omega)]
      rw [@decodeFrom_second _ _ _ first (by omega) (by omega)]
      rfl
  | case3 first second =>
      have hfirst := first.toNat_lt
      have hsecond := second.toNat_lt
      unfold encode
      rw [decodeFrom_first (by omega)]
      rw [@decodeFrom_second _ _ _ first (by omega) (by omega)]
      rw [@decodeFrom_third _ _ _ second (by omega) (by omega)]
      rfl
  | case4 first second third rest ih =>
      have hfirst := first.toNat_lt
      have hsecond := second.toNat_lt
      have hthird := third.toNat_lt
      unfold encode
      rw [decodeFrom_first (by omega)]
      rw [@decodeFrom_second _ _ _ first (by omega) (by omega)]
      rw [@decodeFrom_third _ _ _ second (by omega) (by omega)]
      rw [@decodeFrom_fourth _ _ _ third (by omega) (by omega)]
      rw [ih]
      rfl

/-! ## Padding -/

theorem digit_lt_128 {value : Nat} (h : value < 64) : (digit value).toNat < 128 := by
  have hall : (List.range 64).all (fun value => (digit value).toNat < 128) = true := by
    decide
  exact of_decide_eq_true (List.all_eq_true.mp hall value (List.mem_range.mpr h))

/-- An encoding is digits, which the padding completes to groups of four. -/
theorem encode_eq_digits (bytes : List UInt8) :
    ∃ digits pads, encode bytes = digits ++ List.replicate pads '=' ∧
      (∀ char ∈ digits, char ≠ '=' ∧ char.toNat < 128) ∧
      pads = (4 - digits.length % 4) % 4 := by
  have hdigit {value : Nat} (h : value < 64) : digit value ≠ '=' ∧ (digit value).toNat < 128 :=
    ⟨digit_ne_pad h, digit_lt_128 h⟩
  induction bytes using encode.induct with
  | case1 => exact ⟨[], 0, rfl, by simp, rfl⟩
  | case2 first =>
      have hfirst := first.toNat_lt
      refine ⟨[digit (first.toNat / 4), digit (first.toNat % 4 * 16)], 2, rfl, ?_, rfl⟩
      simp only [List.forall_mem_cons]
      exact ⟨hdigit (by omega), hdigit (by omega), by simp⟩
  | case3 first second =>
      have hfirst := first.toNat_lt
      have hsecond := second.toNat_lt
      refine ⟨[digit (first.toNat / 4), digit (first.toNat % 4 * 16 + second.toNat / 16),
        digit (second.toNat % 16 * 4)], 1, rfl, ?_, rfl⟩
      simp only [List.forall_mem_cons]
      exact ⟨hdigit (by omega), hdigit (by omega), hdigit (by omega), by simp⟩
  | case4 first second third rest ih =>
      have hfirst := first.toNat_lt
      have hsecond := second.toNat_lt
      have hthird := third.toNat_lt
      obtain ⟨digits, pads, hrest, hdigits, hpads⟩ := ih
      refine ⟨digit (first.toNat / 4) :: digit (first.toNat % 4 * 16 + second.toNat / 16) ::
        digit (second.toNat % 16 * 4 + third.toNat / 64) :: digit (third.toNat % 64) :: digits,
        pads, ?_, ?_, ?_⟩
      · unfold encode
        rw [hrest]
        rfl
      · simp only [List.forall_mem_cons]
        exact ⟨hdigit (by omega), hdigit (by omega), hdigit (by omega), hdigit (by omega), hdigits⟩
      · simp only [List.length_cons]
        omega

/-- The text of bytes without the padding. -/
def unpadded (bytes : List UInt8) : List Char :=
  (encode bytes).rdropWhile (· == '=')

/-- Padding to groups of four. -/
def padded (text : List Char) : List Char :=
  text ++ List.replicate ((4 - text.length % 4) % 4) '='

theorem rdropWhile_pads {digits : List Char} (h : ∀ char ∈ digits, char ≠ '=') (pads : Nat) :
    (digits ++ List.replicate pads '=').rdropWhile (· == '=') = digits := by
  induction pads with
  | zero =>
      rw [List.replicate_zero, List.append_nil, List.rdropWhile_eq_self_iff]
      intro hne hpad
      exact h _ (List.getLast_mem hne) (beq_iff_eq.mp hpad)
  | succ pads ih =>
      rw [List.replicate_succ', ← List.append_assoc, List.rdropWhile_concat_pos _ _ _ (by rfl), ih]

/-- The padding that was taken off is known from the length. -/
theorem padded_unpadded (bytes : List UInt8) : padded (unpadded bytes) = encode bytes := by
  obtain ⟨digits, pads, hencode, hdigits, hpads⟩ := encode_eq_digits bytes
  unfold unpadded padded
  rw [hencode, rdropWhile_pads fun char h => (hdigits char h).1, ← hpads]

theorem encode_lt_128 (bytes : List UInt8) : ∀ char ∈ encode bytes, char.toNat < 128 := by
  obtain ⟨digits, pads, hencode, hdigits, -⟩ := encode_eq_digits bytes
  intro char hchar
  rw [hencode, List.mem_append] at hchar
  rcases hchar with hchar | hchar
  · exact (hdigits char hchar).2
  · rw [List.eq_of_mem_replicate hchar]
    decide

end Base64

end PayzenoLedger.Library
