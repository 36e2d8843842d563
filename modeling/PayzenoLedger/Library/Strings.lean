import Mathlib.Data.List.DropRight

/-!
# Text

The white space and the decimal digits of Unicode, which is what a program that strips a
text or reads a number from one goes by.  A number may have an underscore between two digits.
-/

set_option autoImplicit false

namespace PayzenoLedger.Library

/-! ## White space -/

/-- `str.isspace` of one character. -/
def isSpace (char : Char) : Bool :=
  [0x9, 0xA, 0xB, 0xC, 0xD, 0x1C, 0x1D, 0x1E, 0x1F, 0x20, 0x85, 0xA0, 0x1680, 0x2000, 0x2001,
    0x2002, 0x2003, 0x2004, 0x2005, 0x2006, 0x2007, 0x2008, 0x2009, 0x200A, 0x2028, 0x2029,
    0x202F, 0x205F, 0x3000].contains char.toNat

/-- `str.strip`. -/
def strip (text : List Char) : List Char :=
  (text.dropWhile isSpace).rdropWhile isSpace

def stripped (text : String) : String :=
  String.ofList (strip text.toList)

section

variable {text : List Char}

theorem strip_of_not_space (h : ∀ char ∈ text, isSpace char = false) : strip text = text := by
  have hdrop : text.dropWhile isSpace = text := by
    cases text with
    | nil => rfl
    | cons char text =>
        exact List.dropWhile_cons_of_neg (by simp [h char List.mem_cons_self])
  have hlast : text.rdropWhile isSpace = text := by
    rw [List.rdropWhile_eq_self_iff]
    intro hne
    simp [h _ (List.getLast_mem hne)]
  unfold strip
  rw [hdrop, hlast]

theorem strip_ne_nil {char : Char} (hmem : char ∈ text) (h : isSpace char = false) :
    strip text ≠ [] := by
  intro hnil
  rw [strip, List.rdropWhile_eq_nil_iff] at hnil
  rw [← List.takeWhile_append_dropWhile (p := isSpace) (l := text), List.mem_append] at hmem
  have hspace : isSpace char = true := by
    rcases hmem with hmem | hmem
    · exact List.mem_takeWhile_imp hmem
    · exact hnil char hmem
  rw [h] at hspace
  cases hspace

/-- `str.ljust`. -/
def ljust (width : Nat) (text : List Char) : List Char :=
  text ++ List.replicate (width - text.length) ' '

theorem length_ljust {width : Nat} (h : text.length ≤ width) :
    (ljust width text).length = width := by
  unfold ljust
  rw [List.length_append, List.length_replicate]
  omega

/-- A beginning without blanks is not made of the blanks after a text. -/
theorem isPrefixOf_ljust {tag : List Char} (htag : (tag.all fun char => char != ' ') = true)
    {width : Nat} (hwidth : tag.length ≤ width) (text rest : List Char) :
    tag.isPrefixOf (ljust width text ++ rest) = tag.isPrefixOf text := by
  induction tag generalizing width text with
  | nil => rfl
  | cons char tag ih =>
      rw [List.all_cons, Bool.and_eq_true] at htag
      obtain ⟨hchar, htag⟩ := htag
      rw [List.length_cons] at hwidth
      obtain ⟨width, rfl⟩ : ∃ less, width = less + 1 := ⟨width - 1, by omega⟩
      cases text with
      | nil =>
          have hblank : (char == ' ') = false := beq_false_of_ne (bne_iff_ne.mp hchar)
          unfold ljust
          rw [List.length_nil, Nat.sub_zero, List.replicate_succ, List.nil_append, List.cons_append,
            List.isPrefixOf_cons_cons, hblank, Bool.false_and]
          rfl
      | cons next text =>
          have hrest := ih htag (Nat.le_of_succ_le_succ hwidth) text
          unfold ljust at hrest ⊢
          rw [List.length_cons, Nat.add_sub_add_right, List.cons_append, List.cons_append,
            List.isPrefixOf_cons_cons, List.isPrefixOf_cons_cons, hrest]

theorem strip_append_space (text : List Char) : strip (text ++ [' ']) = strip text := by
  have hspace : isSpace ' ' = true := rfl
  unfold strip
  rw [List.dropWhile_append]
  split
  · next hblank =>
      rw [List.isEmpty_iff.mp hblank]
      rfl
  · rw [List.rdropWhile_concat_pos _ _ _ hspace]

theorem strip_ljust (width : Nat) (text : List Char) : strip (ljust width text) = strip text := by
  unfold ljust
  generalize width - text.length = count
  induction count with
  | zero => rw [List.replicate_zero, List.append_nil]
  | succ count ih => rw [List.replicate_succ', ← List.append_assoc, strip_append_space, ih]

end

/-! ## Lines -/

/-- Where `str.splitlines` ends a line, besides a carriage return with its line feed. -/
def isLineBreak (char : Char) : Bool :=
  [0xA, 0xB, 0xC, 0xD, 0x1C, 0x1D, 0x1E, 0x85, 0x2028, 0x2029].contains char.toNat

/-- `str.splitlines`. -/
def splitLines : List Char → List (List Char)
  | [] => []
  | '\r' :: '\n' :: rest => [] :: splitLines rest
  | char :: rest =>
      if isLineBreak char then [] :: splitLines rest
      else
        match splitLines rest with
        | [] => [[char]]
        | line :: lines => (char :: line) :: lines

section

variable {char : Char} {text rest : List Char}

theorem splitLines_cons (h : isLineBreak char = false) :
    splitLines (char :: rest) =
      match splitLines rest with
      | [] => [[char]]
      | line :: lines => (char :: line) :: lines := by
  have hreturn : char ≠ '\r' := by
    rintro rfl
    cases h
  rw [splitLines, if_neg (by simp [h])]
  intro _ hchar
  exact absurd hchar hreturn

theorem splitLines_break (h : isLineBreak char = true)
    (hpair : ∀ more, char = '\r' → rest ≠ '\n' :: more) :
    splitLines (char :: rest) = [] :: splitLines rest := by
  rw [splitLines, if_pos h]
  exact hpair

theorem splitLines_ne_nil (h : text ≠ []) : splitLines text ≠ [] := by
  fun_cases splitLines text with
  | case1 => exact absurd rfl h
  | case2 rest => exact List.cons_ne_nil _ _
  | case3 char rest _ hbreak => exact List.cons_ne_nil _ _
  | case4 char rest _ hbreak hnone => exact List.cons_ne_nil _ _
  | case5 char rest _ hbreak line lines hlines => exact List.cons_ne_nil _ _

/-- A text without line breaks is one line. -/
theorem splitLines_of_not_break (hne : text ≠ [])
    (h : ∀ char ∈ text, isLineBreak char = false) : splitLines text = [text] := by
  induction text with
  | nil => exact absurd rfl hne
  | cons char text ih =>
      obtain ⟨hchar, hrest⟩ := List.forall_mem_cons.mp h
      rw [splitLines_cons hchar]
      cases text with
      | nil => rfl
      | cons next text => rw [ih (List.cons_ne_nil _ _) hrest]

/-- A line feed after a text that does not end in a line break ends its last line. -/
theorem splitLines_append_lineFeed (hne : text ≠ [])
    (hlast : isLineBreak (text.getLast hne) = false) (rest : List Char) :
    splitLines (text ++ '\n' :: rest) = splitLines text ++ splitLines rest := by
  induction text using splitLines.induct with
  | case1 => exact absurd rfl hne
  | case2 text ih =>
      cases text with
      | nil => cases hlast
      | cons next text =>
          rw [List.getLast_cons (List.cons_ne_nil _ _), List.getLast_cons (List.cons_ne_nil _ _)]
            at hlast
          have hlines := ih (List.cons_ne_nil _ _) hlast
          rw [List.cons_append, List.cons_append, splitLines, splitLines, hlines]
          rfl
  | case3 char text hpair hbreak ih =>
      cases text with
      | nil =>
          rw [List.getLast_singleton, hbreak] at hlast
          cases hlast
      | cons next text =>
          rw [List.getLast_cons (List.cons_ne_nil _ _)] at hlast
          have hlines := ih (List.cons_ne_nil _ _) hlast
          have hnext : ∀ more, char = '\r' → next :: text ++ '\n' :: rest ≠ '\n' :: more := by
            rintro more hchar hmore
            obtain ⟨rfl, -⟩ := List.cons.inj hmore
            exact hpair text hchar rfl
          rw [List.cons_append, splitLines_break hbreak hnext, hlines,
            splitLines_break hbreak fun more hchar hmore => hpair more hchar hmore]
          rfl
  | case4 char text hpair hbreak hnone ih =>
      rw [Bool.not_eq_true] at hbreak
      cases text with
      | cons next text => exact absurd hnone (splitLines_ne_nil (List.cons_ne_nil _ _))
      | nil =>
          have hfeed : splitLines ('\n' :: rest) = [] :: splitLines rest :=
            splitLines_break rfl (by rintro more ⟨⟩)
          rw [List.singleton_append, splitLines_cons hbreak, splitLines_cons hbreak, hfeed]
          rfl
  | case5 char text hpair hbreak line lines hlines ih =>
      rw [Bool.not_eq_true] at hbreak
      cases text with
      | nil => cases hlines
      | cons next text =>
          rw [List.getLast_cons (List.cons_ne_nil _ _)] at hlast
          have hmore := ih (List.cons_ne_nil _ _) hlast
          rw [List.cons_append, splitLines_cons hbreak, splitLines_cons hbreak, hmore, hlines]
          rfl

theorem length_le_of_mem_splitLines {line : List Char} (h : line ∈ splitLines text) :
    line.length ≤ text.length := by
  induction text using splitLines.induct generalizing line with
  | case1 => cases h
  | case2 text ih =>
      rw [splitLines, List.mem_cons] at h
      rcases h with rfl | h
      · exact Nat.zero_le _
      · have := ih h
        simp only [List.length_cons]
        omega
  | case3 char text hpair hbreak ih =>
      rw [splitLines_break hbreak fun more hchar hmore => hpair more hchar hmore,
        List.mem_cons] at h
      rcases h with rfl | h
      · exact Nat.zero_le _
      · exact (ih h).trans (Nat.le_succ _)
  | case4 char text hpair hbreak hnone ih =>
      rw [splitLines_cons (by simpa using hbreak), hnone, List.mem_singleton] at h
      rw [h]
      exact Nat.succ_le_succ (Nat.zero_le _)
  | case5 char text hpair hbreak first lines hlines ih =>
      rw [splitLines_cons (by simpa using hbreak), hlines, List.mem_cons] at h
      rw [hlines] at ih
      rcases h with rfl | h
      · exact Nat.succ_le_succ (ih List.mem_cons_self)
      · exact (ih (List.mem_cons_of_mem _ h)).trans (Nat.le_succ _)

/-- A line break takes a character of the text. -/
theorem length_lt_of_mem_splitLines {line : List Char}
    (hbreak : ∃ char ∈ text, isLineBreak char = true) (h : line ∈ splitLines text) :
    line.length < text.length := by
  induction text using splitLines.induct generalizing line with
  | case1 => cases h
  | case2 text ih =>
      rw [splitLines, List.mem_cons] at h
      rcases h with rfl | h
      · exact Nat.succ_pos _
      · have := length_le_of_mem_splitLines h
        simp only [List.length_cons]
        omega
  | case3 char text hpair hends ih =>
      rw [splitLines_break hends fun more hchar hmore => hpair more hchar hmore,
        List.mem_cons] at h
      rcases h with rfl | h
      · exact Nat.succ_pos _
      · exact Nat.lt_succ_of_le (length_le_of_mem_splitLines h)
  | case4 char text hpair hplain hnone ih =>
      cases text with
      | cons next text => exact absurd hnone (splitLines_ne_nil (List.cons_ne_nil _ _))
      | nil =>
          obtain ⟨other, hother, hends⟩ := hbreak
          rw [List.mem_singleton.mp hother] at hends
          exact absurd hends hplain
  | case5 char text hpair hplain first lines hlines ih =>
      have hrest : ∃ other ∈ text, isLineBreak other = true := by
        obtain ⟨other, hother, hends⟩ := hbreak
        rcases List.mem_cons.mp hother with rfl | hother
        · exact absurd hends hplain
        · exact ⟨other, hother, hends⟩
      rw [splitLines_cons (by simpa using hplain), hlines, List.mem_cons] at h
      rw [hlines] at ih
      rcases h with rfl | h
      · exact Nat.succ_lt_succ (ih hrest List.mem_cons_self)
      · exact (ih hrest (List.mem_cons_of_mem _ h)).trans (Nat.lt_succ_self _)

end

/-! ## Numbers -/

/-- The zeros of the decimal digits of Unicode 15, each followed by its one to nine. -/
def digitZeros : List Nat :=
  [0x30, 0x660, 0x6F0, 0x7C0, 0x966, 0x9E6, 0xA66, 0xAE6, 0xB66, 0xBE6, 0xC66, 0xCE6, 0xD66,
    0xDE6, 0xE50, 0xED0, 0xF20, 0x1040, 0x1090, 0x17E0, 0x1810, 0x1946, 0x19D0, 0x1A80, 0x1A90,
    0x1B50, 0x1BB0, 0x1C40, 0x1C50, 0xA620, 0xA8D0, 0xA900, 0xA9D0, 0xA9F0, 0xAA50, 0xABF0,
    0xFF10, 0x104A0, 0x10D30, 0x11066, 0x110F0, 0x11136, 0x111D0, 0x112F0, 0x11450, 0x114D0,
    0x11650, 0x116C0, 0x11730, 0x118E0, 0x11950, 0x11C50, 0x11D50, 0x11DA0, 0x11F50, 0x16A60,
    0x16AC0, 0x16B50, 0x1D7CE, 0x1D7D8, 0x1D7E2, 0x1D7EC, 0x1D7F6, 0x1E140, 0x1E2F0, 0x1E4F0,
    0x1E950, 0x1FBF0]

def digitValue (char : Char) : Option Nat :=
  (digitZeros.find? fun first => first ≤ char.toNat ∧ char.toNat < first + 10).map (char.toNat - ·)

/-- Digits, with at most one underscore between two of them. -/
def readDigits : List Char → Option (List Nat)
  | [] => none
  | [char] => (digitValue char).map fun digit => [digit]
  | char :: '_' :: rest => do
      let digit ← digitValue char
      let digits ← readDigits rest
      pure (digit :: digits)
  | char :: rest => do
      let digit ← digitValue char
      let digits ← readDigits rest
      pure (digit :: digits)

def digitsValue (digits : List Nat) : Nat :=
  digits.foldl (fun value digit => 10 * value + digit) 0

/-- A sign and what follows it. -/
def splitSign : List Char → Bool × List Char
  | '-' :: rest => (true, rest)
  | '+' :: rest => (false, rest)
  | rest => (false, rest)

/-- The most digits that `int` reads. -/
def maxStrDigits : Nat := 4300

/-- `int` of a text; `none` is its `ValueError`. -/
def parseInt (text : String) : Option Int :=
  let (negative, rest) := splitSign (strip text.toList)
  match readDigits rest with
  | none => none
  | some digits =>
      if maxStrDigits < digits.length then none
      else if negative then some (-(digitsValue digits : Int))
      else some (digitsValue digits)

example : parseInt " -1_0٣ " = some (-103) := by decide

end PayzenoLedger.Library
