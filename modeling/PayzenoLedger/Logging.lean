import PayzenoLedger.Errors
import PayzenoLedger.Middleware.Cards

/-!
# Log lines

The backstop of the logs: whatever looks like a card number is replaced, without a check of its
digits, in every line and in every text of an event.  The lines that leave hold nothing that
looks like one, also where a replacement has changed what is next to a run of digits.
-/

set_option autoImplicit false

namespace PayzenoLedger

open Library Library.Regex

namespace Logging

/-! ## Scrubbing -/

/-- `(?:\d[ -]?){13,19}`. -/
def panDigits : Regex :=
  .rep 13 19 (.seq (.one isDecimal) (.rep 0 1 (.one isSeparator)))

/-- `PAN_PATTERN`. -/
def panPattern (words : WordChars) : Regex :=
  .seq (.boundary words.isWord) (.seq panDigits (.boundary words.isWord))

def scrub (words : WordChars) (text : List Char) : List Char :=
  (panPattern words).sub (fun _ => redacted) text

/-- `SENSITIVE_KEYS`. -/
def sensitiveKeys : List String :=
  ["account_number", "api_key", "authorization", "card_number", "iban", "internal_api_secret",
    "pan", "routing_number", "secret", "x-payzeno-internal-secret"]

def scrubValue (words : WordChars) : Json → Json
  | .text value => .text (String.ofList (scrub words value.toList))
  | other => other

/-- `_redact_event_dict`; `lower` is `str.lower`. -/
def redactEventDict (words : WordChars) (lower : String → String)
    (eventDict : List (String × Json)) : List (String × Json) :=
  eventDict.map fun entry =>
    (entry.1, if sensitiveKeys.contains (lower entry.1) then .text (String.ofList redacted)
      else scrubValue words entry.2)

/-- So many digits, with at most one separator after each. -/
inductive PanDigits : Nat → List Char → Prop where
  | none : PanDigits 0 []
  | next {char : Char} {count : Nat} {rest : List Char} (h : isDecimal char = true)
      (hrest : PanDigits count rest) : PanDigits (count + 1) (char :: rest)
  | spaced {char separator : Char} {count : Nat} {rest : List Char}
      (h : isDecimal char = true) (hseparator : isSeparator separator = true)
      (hrest : PanDigits count rest) : PanDigits (count + 1) (char :: separator :: rest)

/-- 13 to 19 digits that begin a word, up to a place where a word begins or ends. -/
structure PanShaped (words : WordChars) (before run after : List Char) : Prop where
  digits : ∃ count, 13 ≤ count ∧ count ≤ 19 ∧ PanDigits count run
  begins : wordAt words.isWord before.getLast? = false
  ends : wordAt words.isWord run.getLast? ≠ wordAt words.isWord after.head?

def HoldsPan (words : WordChars) (text : List Char) : Prop :=
  ∃ before run after, text = before ++ run ++ after ∧ PanShaped words before run after

namespace PanDigits

variable {count : Nat} {run : List Char}

theorem mem (h : PanDigits count run) {char : Char} (hchar : char ∈ run) :
    isDecimal char = true ∨ isSeparator char = true := by
  induction h with
  | none => cases hchar
  | next hdecimal _ ih =>
      rcases List.mem_cons.mp hchar with rfl | hrest
      · exact .inl hdecimal
      · exact ih hrest
  | spaced hdecimal hseparator _ ih =>
      rcases List.mem_cons.mp hchar with rfl | hlater
      · exact .inl hdecimal
      · rcases List.mem_cons.mp hlater with rfl | hrest
        · exact .inr hseparator
        · exact ih hrest

theorem head (h : PanDigits count run) (hcount : 0 < count) :
    ∃ char rest, run = char :: rest ∧ isDecimal char = true := by
  cases h with
  | none => cases hcount
  | next hdecimal hrest => exact ⟨_, _, rfl, hdecimal⟩
  | spaced hdecimal hseparator hrest => exact ⟨_, _, rfl, hdecimal⟩

/-- The texts of the pattern are such runs. -/
theorem of_flatten {texts : List (List Char)}
    (htexts : ∀ text ∈ texts,
      (Regex.seq (.one isDecimal) (.rep 0 1 (.one isSeparator))).lang text) :
    PanDigits texts.length texts.flatten := by
  induction texts with
  | nil => exact .none
  | cons text texts ih =>
      have hrest := ih fun other hother => htexts other (List.mem_cons_of_mem _ hother)
      obtain ⟨digit, hdigit, rfl | ⟨separator, hseparator, rfl⟩⟩ :=
        lang_panDigit (htexts text List.mem_cons_self)
      · exact .next hdigit hrest
      · exact .spaced hdigit hseparator hrest

/-- And they are all of them. -/
theorem exists_flatten (h : PanDigits count run) :
    ∃ texts : List (List Char), texts.length = count ∧ texts.flatten = run ∧
      ∀ text ∈ texts, (Regex.seq (.one isDecimal) (.rep 0 1 (.one isSeparator))).lang text := by
  have hdigit {char : Char} (hdecimal : isDecimal char = true) {tail : List Char}
      (htail : (Regex.rep 0 1 (.one isSeparator)).lang tail) :
      (Regex.seq (.one isDecimal) (.rep 0 1 (.one isSeparator))).lang ([char] ++ tail) :=
    ⟨[char], tail, ⟨char, hdecimal, rfl⟩, htail, rfl⟩
  induction h with
  | none => exact ⟨[], rfl, rfl, fun _ h => absurd h List.not_mem_nil⟩
  | @next char count rest hdecimal _ ih =>
      obtain ⟨texts, hlength, hflatten, htexts⟩ := ih
      refine ⟨[char] :: texts, by rw [List.length_cons, hlength], by rw [← hflatten]; rfl, ?_⟩
      refine List.forall_mem_cons.mpr ⟨?_, htexts⟩
      exact hdigit hdecimal ⟨[], by decide, by decide, fun _ h => absurd h List.not_mem_nil, rfl⟩
  | @spaced char separator count rest hdecimal hseparator _ ih =>
      obtain ⟨texts, hlength, hflatten, htexts⟩ := ih
      refine ⟨[char, separator] :: texts, by rw [List.length_cons, hlength],
        by rw [← hflatten]; rfl, ?_⟩
      refine List.forall_mem_cons.mpr ⟨?_, htexts⟩
      have htail : (Regex.rep 0 1 (.one isSeparator)).lang [separator] := by
        refine ⟨[[separator]], Nat.zero_le _, Nat.le_refl _, ?_, rfl⟩
        exact List.forall_mem_singleton.mpr ⟨separator, hseparator, rfl⟩
      exact hdigit hdecimal htail

end PanDigits

theorem lang_panDigits {run : List Char} :
    panDigits.lang run ↔ ∃ count, 13 ≤ count ∧ count ≤ 19 ∧ PanDigits count run := by
  constructor
  · rintro ⟨texts, hleast, hmost, htexts, rfl⟩
    exact ⟨texts.length, hleast, hmost, .of_flatten htexts⟩
  · rintro ⟨count, hleast, hmost, hdigits⟩
    obtain ⟨texts, rfl, rfl, htexts⟩ := hdigits.exists_flatten
    exact ⟨texts, hleast, hmost, htexts, rfl⟩

theorem plain_panDigits : panDigits.Plain :=
  ⟨trivial, trivial⟩

/-! ## What the pattern finds -/

section

variable {words : WordChars}

theorem PanShaped.head {before run after : List Char} (h : PanShaped words before run after) :
    ∃ char rest, run = char :: rest ∧ isDecimal char = true := by
  obtain ⟨count, hleast, -, hdigits⟩ := h.digits
  exact hdigits.head (by omega)

theorem PanShaped.ne_nil {before run after : List Char} (h : PanShaped words before run after) :
    run ≠ [] := by
  obtain ⟨char, rest, rfl, -⟩ := h.head
  exact List.cons_ne_nil char rest

theorem PanShaped.mem {before run after : List Char} (h : PanShaped words before run after)
    {char : Char} (hchar : char ∈ run) : isDecimal char = true ∨ isSeparator char = true := by
  obtain ⟨count, -, -, hdigits⟩ := h.digits
  exact hdigits.mem hchar

theorem wordAt_digit {char : Char} (h : isDecimal char = true) :
    wordAt words.isWord (some char) = true :=
  words.decimal char h

theorem head?_reverse_append {run : List Char} (before : List Char) (h : run ≠ []) :
    (run.reverse ++ before).head? = run.getLast? := by
  rw [List.head?_append_of_ne_nil _ (List.reverse_ne_nil_iff.mpr h), List.head?_reverse]

/-- The ends of the pattern are those of such runs. -/
theorem mem_ends_panPattern {before after : List Char} {last : Place} :
    last ∈ (panPattern words).ends { before, after } ↔
      ∃ run, run <+: after ∧ PanShaped words before.reverse run (after.drop run.length) ∧
        last = Place.advance { before, after } run := by
  constructor
  · intro hlast
    obtain ⟨start, hstart, hlast⟩ := List.mem_flatMap.mp hlast
    obtain ⟨middle, hmiddle, hlast⟩ := List.mem_flatMap.mp hlast
    obtain ⟨hbegin, rfl⟩ := mem_ends_boundary.mp hstart
    obtain ⟨run, hrun, hleads, rfl⟩ := (mem_ends_iff plain_panDigits _ _).mp hmiddle
    obtain ⟨hend, rfl⟩ := mem_ends_boundary.mp hlast
    have hdigits := lang_panDigits.mp hrun
    obtain ⟨count, hleast, -, hcount⟩ := hdigits
    obtain ⟨first, rest, hfirst, hdecimal⟩ := hcount.head (by omega)
    have hne : run ≠ [] := hfirst ▸ List.cons_ne_nil _ _
    refine ⟨run, hleads, ⟨lang_panDigits.mp hrun, ?_, ?_⟩, rfl⟩
    · obtain ⟨later, rfl⟩ := hleads
      rw [hfirst] at hbegin
      change ¬ wordAt words.isWord before.head? = wordAt words.isWord (some first) at hbegin
      rw [wordAt_digit hdecimal] at hbegin
      rw [List.getLast?_reverse]
      exact (Bool.not_eq_true _).mp hbegin
    · rw [← head?_reverse_append before hne]
      exact hend
  · rintro ⟨run, hleads, shaped, rfl⟩
    obtain ⟨first, rest, hfirst, hdecimal⟩ := shaped.head
    have hbegins := shaped.begins
    have hends := shaped.ends
    rw [List.getLast?_reverse] at hbegins
    rw [← head?_reverse_append before shaped.ne_nil] at hends
    refine List.mem_flatMap.mpr ⟨_, mem_ends_boundary.mpr ⟨?_, rfl⟩, ?_⟩
    · obtain ⟨later, rfl⟩ := hleads
      rw [hfirst]
      change ¬ wordAt words.isWord before.head? = wordAt words.isWord (some first)
      rw [hbegins, wordAt_digit hdecimal]
      exact Bool.false_ne_true
    · refine List.mem_flatMap.mpr ⟨_, (mem_ends_iff plain_panDigits _ _).mpr
        ⟨run, lang_panDigits.mpr shaped.digits, hleads, rfl⟩, ?_⟩
      exact mem_ends_boundary.mpr ⟨hends, rfl⟩

/-- Where nothing is found, no such run begins. -/
theorem not_panShaped_of_none {before run rest : List Char}
    (h : (panPattern words).firstMatch before (run ++ rest) = none) :
    ¬ PanShaped words before.reverse run rest := by
  intro shaped
  have hend : Place.advance { before, after := run ++ rest } run ∈
      (panPattern words).ends { before, after := run ++ rest } := by
    refine mem_ends_panPattern.mpr ⟨run, List.prefix_append _ _, ?_, rfl⟩
    rw [List.drop_left]
    exact shaped
  obtain ⟨hit, hhit⟩ := exists_firstMatch (List.ne_nil_of_mem hend) fun last hlast => by
    obtain ⟨other, hleads, hother, rfl⟩ := mem_ends_panPattern.mp hlast
    have hlength := hleads.length_le
    have hpositive := List.length_pos_iff.mpr hother.ne_nil
    change ((run ++ rest).drop other.length).length < _
    rw [List.length_drop]
    omega
  rw [h] at hhit
  cases hhit

/-- What is found is such a run. -/
theorem panShaped_of_some {before rest : List Char} {hit : Match}
    (h : (panPattern words).firstMatch before (hit.text ++ rest) = some hit) :
    PanShaped words before.reverse hit.text rest := by
  obtain ⟨last, hlast, htext, -, -⟩ := firstMatch_eq_some h
  obtain ⟨run, hleads, shaped, rfl⟩ := mem_ends_panPattern.mp hlast
  have hrun : hit.text = run := htext.trans (take_sub_drop hleads)
  rw [← hrun, List.drop_left] at shaped
  exact shaped

theorem not_panChar_of_mem_redacted {char : Char} (h : char ∈ redacted) :
    ¬ (isDecimal char = true ∨ isSeparator char = true) := by
  have hall : redacted.all (fun char => !(isDecimal char || isSeparator char)) = true := by
    decide +kernel
  simpa using List.all_eq_true.mp hall char h

/-- No word begins or ends between a replacement and something else that is of no word. -/
theorem wordAt_redacted : wordAt words.isWord redacted.head? = false ∧
    wordAt words.isWord redacted.getLast? = false :=
  ⟨words.ascii '[' (by decide), words.ascii ']' (by decide)⟩

/-- What is put in for the pieces. -/
def shown (pieces : List Piece) : List Char :=
  substitute (fun _ => redacted) pieces

theorem shown_plain (char : Char) (pieces : List Piece) :
    shown (.plain char :: pieces) = char :: shown pieces := rfl

theorem shown_found (hit : Match) (pieces : List Piece) :
    shown (.found hit :: pieces) = redacted ++ shown pieces := rfl

/-- A run of digits and separators that is shown stood in the text, and where it ends a word
or stops short of one, it did so there. -/
theorem prefix_of_shown {before text run after : List Char} {pieces : List Piece}
    (scans : Scans (panPattern words) before text pieces)
    (hrun : ∀ char ∈ run, isDecimal char = true ∨ isSeparator char = true)
    (hshown : shown pieces = run ++ after) :
    ∃ rest, text = run ++ rest ∧
      (wordAt words.isWord (run.reverse ++ before).head? ≠ wordAt words.isWord after.head? →
        wordAt words.isWord (run.reverse ++ before).head? ≠ wordAt words.isWord rest.head?) := by
  induction scans generalizing run with
  | @done before =>
      obtain ⟨rfl, rfl⟩ := List.append_eq_nil_iff.mp hshown.symm
      exact ⟨[], rfl, id⟩
  | @plain before text char pieces _ _ ih =>
      rw [shown_plain] at hshown
      cases run with
      | nil =>
          rw [List.nil_append] at hshown
          rw [← hshown]
          exact ⟨char :: text, rfl, id⟩
      | cons first run =>
          obtain ⟨rfl, hrest⟩ := List.cons_eq_cons.mp hshown
          obtain ⟨rest, rfl, hends⟩ := ih (fun other h => hrun other (List.mem_cons_of_mem _ h))
            hrest
          refine ⟨rest, rfl, ?_⟩
          rw [List.reverse_cons, List.append_assoc]
          exact hends
  | @found before text hit pieces hhit _ _ =>
      rw [shown_found] at hshown
      cases run with
      | nil =>
          -- the match begins a word, so what is before it is of none
          refine ⟨_, rfl, fun hdiffers => absurd ?_ hdiffers⟩
          have hbegins := (panShaped_of_some hhit).begins
          rw [List.getLast?_reverse] at hbegins
          rw [List.nil_append] at hshown
          change wordAt words.isWord before.head? = _
          rw [hbegins, ← hshown]
          exact wordAt_redacted.1.symm
      | cons first run =>
          have hfirst : '[' = first := (List.cons_eq_cons.mp hshown).1
          exact absurd (hrun first List.mem_cons_self)
            (not_panChar_of_mem_redacted (hfirst ▸ List.mem_cons_self))

/-- What is shown before a place where a word begins is of a word where the text before it is. -/
def Alike (words : WordChars) (before front text : List Char) : Prop :=
  wordAt words.isWord text.head? = true → wordAt words.isWord front.getLast? = false →
    wordAt words.isWord before.head? = false

/-- Nothing that looks like a card number begins in what is shown. -/
theorem not_panShaped_shown {before text front middle run after : List Char}
    {pieces : List Piece} (scans : Scans (panPattern words) before text pieces)
    (alike : Alike words before front text) (hshown : shown pieces = middle ++ run ++ after) :
    ¬ PanShaped words (front ++ middle) run after := by
  intro shaped
  induction scans generalizing front middle with
  | done =>
      obtain ⟨hstart, -⟩ := List.append_eq_nil_iff.mp hshown.symm
      exact shaped.ne_nil (List.append_eq_nil_iff.mp hstart).2
  | @plain before text char pieces hnone hrest ih =>
      cases middle with
      | nil =>
          rw [List.nil_append] at hshown
          obtain ⟨rest, htext, hends⟩ := prefix_of_shown (.plain hnone hrest)
            (fun _ h => shaped.mem h) hshown
          rw [htext] at hnone alike
          obtain ⟨first, others, hfirst, hdecimal⟩ := shaped.head
          refine not_panShaped_of_none hnone ⟨shaped.digits, ?_, ?_⟩
          · rw [List.getLast?_reverse]
            have hbegins := shaped.begins
            rw [List.append_nil] at hbegins
            refine alike ?_ hbegins
            rw [hfirst]
            exact wordAt_digit hdecimal
          · rw [head?_reverse_append before shaped.ne_nil] at hends
            exact hends shaped.ends
      | cons first middle =>
          rw [shown_plain] at hshown
          obtain ⟨rfl, hmore⟩ := List.cons_eq_cons.mp hshown
          have halike : Alike words (char :: before) (front ++ [char]) text := by
            intro _ hfront
            rw [List.getLast?_concat] at hfront
            exact hfront
          refine ih halike hmore ?_
          rw [List.append_assoc]
          exact shaped
  | @found before text hit pieces hhit hrest ih =>
      rw [shown_found, List.append_assoc] at hshown
      have hmiddle : ∃ more, middle = redacted ++ more ∧ shown pieces = more ++ (run ++ after) := by
        rcases List.append_eq_append_iff.mp hshown with ⟨more, hmiddle, hmore⟩ | ⟨left, hleft, hrun⟩
        · exact ⟨more, hmiddle, hmore⟩
        · cases left with
          | nil => exact ⟨[], by simpa using hleft.symm, hrun.symm⟩
          | cons char left =>
              -- the run would begin inside the replacement
              obtain ⟨first, others, rfl, hdecimal⟩ := shaped.head
              obtain ⟨rfl, -⟩ := List.cons_eq_cons.mp hrun
              exact absurd (.inl hdecimal) (not_panChar_of_mem_redacted
                (hleft ▸ List.mem_append_right _ List.mem_cons_self))
      obtain ⟨more, rfl, hmore⟩ := hmiddle
      have hfound := panShaped_of_some hhit
      have halike : Alike words (hit.text.reverse ++ before) (front ++ redacted) text := by
        intro hword _
        have hends := hfound.ends
        rw [hword] at hends
        rw [head?_reverse_append before hfound.ne_nil]
        exact (Bool.not_eq_true _).mp hends
      refine ih halike (hmore.trans (List.append_assoc _ _ _).symm) ?_
      rw [List.append_assoc]
      exact shaped

/-- A scrubbed text holds nothing that looks like a card number. -/
theorem not_holdsPan_scrub (text : List Char) : ¬ HoldsPan words (scrub words text) := by
  rintro ⟨before, run, after, htext, shaped⟩
  have alike : Alike words [] [] text := fun _ _ => rfl
  exact not_panShaped_shown (scans_scan _ text) alike htext shaped

/-! ## What is replaced -/

variable (words) in
/-- A text and what becomes of it if all that is replaced looks like a card number, given what
is before. -/
inductive Replaces : List Char → List Char → List Char → Prop where
  | done {before : List Char} : Replaces before [] []
  | kept {before text left : List Char} {char : Char}
      (hrest : Replaces (before ++ [char]) text left) :
      Replaces before (char :: text) (char :: left)
  | pan {before run text left : List Char} (shaped : PanShaped words before run text)
      (hrest : Replaces (before ++ run) text left) :
      Replaces before (run ++ text) (redacted ++ left)

theorem replaces_shown {before text : List Char} {pieces : List Piece}
    (scans : Scans (panPattern words) before text pieces) :
    Replaces words before.reverse text (shown pieces) := by
  induction scans with
  | done => exact .done
  | plain _ _ ih =>
      rw [List.reverse_cons] at ih
      exact .kept ih
  | found hhit _ ih =>
      rw [List.reverse_append, List.reverse_reverse] at ih
      exact .pan (panShaped_of_some hhit) ih

/-- What holds nothing of the kind is left as it is. -/
theorem Replaces.eq_of_not_holdsPan {before text left : List Char}
    (h : Replaces words before text left) (clear : ¬ HoldsPan words (before ++ text)) :
    left = text := by
  induction h with
  | done => rfl
  | kept _ ih =>
      rw [ih (by rwa [List.append_assoc])]
  | @pan before run text left shaped _ _ =>
      refine absurd ⟨before, run, text, ?_, shaped⟩ clear
      rw [List.append_assoc]

variable (words) in
/-- What a scrubbed line is: it holds nothing that looks like a card number, nothing else was
replaced, and a line that held nothing is the same as before. -/
structure Scrubs (text : List Char) : Prop where
  clean : ¬ HoldsPan words (scrub words text)
  replaces : Replaces words [] text (scrub words text)
  same : scrub words text = text ↔ ¬ HoldsPan words text

theorem scrubs (text : List Char) : Scrubs words text where
  clean := not_holdsPan_scrub text
  replaces := replaces_shown (scans_scan _ text)
  same := by
    constructor
    · intro hsame
      rw [← hsame]
      exact not_holdsPan_scrub text
    · exact (replaces_shown (scans_scan _ text)).eq_of_not_holdsPan

/-! ## Events -/

theorem not_holdsPan_redacted : ¬ HoldsPan words redacted := by
  rintro ⟨before, run, after, htext, shaped⟩
  obtain ⟨char, rest, rfl, hdecimal⟩ := shaped.head
  have hmem : char ∈ redacted := by
    rw [htext]
    exact List.mem_append_left _ (List.mem_append_right _ List.mem_cons_self)
  exact not_panChar_of_mem_redacted hmem (.inl hdecimal)

variable (words) in
/-- A value of an event that a processor has no reason to touch. -/
def ClearValue (value : Json) : Prop :=
  ∀ text, value = .text text → ¬ HoldsPan words text.toList

theorem clear_scrubValue (value : Json) : ClearValue words (scrubValue words value) := by
  intro text htext
  cases value with
  | text inner =>
      cases htext
      rw [String.toList_ofList]
      exact not_holdsPan_scrub inner.toList
  | _ => cases htext

theorem scrubValue_eq_self {value : Json} (clear : ClearValue words value) :
    scrubValue words value = value := by
  cases value with
  | text inner =>
      change Json.text (String.ofList (scrub words inner.toList)) = .text inner
      rw [(scrubs inner.toList).same.mpr (clear inner rfl), String.ofList_toList]
  | _ => rfl

variable (words) in
/-- What becomes of an event: its keys stay, a sensitive key has no value of its own, no text
looks like a card number, and whatever else it held is kept. -/
structure ScrubsEvent (lower : String → String) (eventDict : List (String × Json)) : Prop where
  keys : (redactEventDict words lower eventDict).map Prod.fst = eventDict.map Prod.fst
  sensitive : ∀ entry ∈ redactEventDict words lower eventDict,
    sensitiveKeys.contains (lower entry.1) = true → entry.2 = .text (String.ofList redacted)
  clean : ∀ entry ∈ redactEventDict words lower eventDict, ClearValue words entry.2
  kept : ∀ entry ∈ eventDict, sensitiveKeys.contains (lower entry.1) = false →
    ClearValue words entry.2 → entry ∈ redactEventDict words lower eventDict
  again : redactEventDict words lower (redactEventDict words lower eventDict) =
    redactEventDict words lower eventDict

theorem clear_redacted : ClearValue words (.text (String.ofList redacted)) := by
  intro text htext
  cases htext
  rw [String.toList_ofList]
  exact not_holdsPan_redacted

theorem scrubsEvent (lower : String → String) (eventDict : List (String × Json)) :
    ScrubsEvent words lower eventDict where
  keys := by
    unfold redactEventDict
    rw [List.map_map]
    rfl
  sensitive entry hentry hkey := by
    obtain ⟨before, -, rfl⟩ := List.mem_map.mp hentry
    exact if_pos hkey
  clean entry hentry := by
    obtain ⟨before, -, rfl⟩ := List.mem_map.mp hentry
    dsimp only
    split
    · exact clear_redacted
    · exact clear_scrubValue before.2
  kept entry hentry hkey clear := by
    refine List.mem_map.mpr ⟨entry, hentry, ?_⟩
    rw [hkey, if_neg Bool.false_ne_true, scrubValue_eq_self clear]
  again := by
    unfold redactEventDict
    rw [List.map_map]
    refine List.map_congr_left fun entry _ => ?_
    dsimp only [Function.comp]
    split
    · rfl
    · rw [scrubValue_eq_self (clear_scrubValue entry.2)]

/-- No line and no text of an event leaves with anything that looks like a card number, and
nothing else is lost. -/
theorem logs_scrubbed (words : WordChars) (lower : String → String) :
    (∀ text, Scrubs words text) ∧ ∀ eventDict, ScrubsEvent words lower eventDict :=
  ⟨scrubs, scrubsEvent lower⟩

/-- The separator behind the last digit goes too, and longer runs of digits are no card
numbers. -/
example : scrub .known "card 4111 1111 1111 1111 ok".toList = "card [redacted]ok".toList ∧
    scrub .known "41111111111111111111".toList = "41111111111111111111".toList := by
  decide +kernel

end

end Logging

end PayzenoLedger
