import PayzenoLedger.Middleware.Redaction

/-!
# Card numbers in a text

A card number is a run of 13 to 19 digits between word boundaries that passes the Luhn check.
The numbers that the pattern finds are masked; between two of them lies a stretch of text, to
which the last four digits of the one and the first six of the other are added.  The masked
text holds a card number exactly if such a stretch does.
-/

set_option autoImplicit false

namespace PayzenoLedger

open Library Library.Regex

/-! ## Runs of digits -/

/-- So many digits, with at most one separator between two of them. -/
inductive DigitRun : Nat → List Char → Prop where
  | last {char : Char} (h : isDecimal char = true) : DigitRun 1 [char]
  | next {char : Char} {count : Nat} {rest : List Char} (h : isDecimal char = true)
      (hrest : DigitRun count rest) : DigitRun (count + 1) (char :: rest)
  | spaced {char separator : Char} {count : Nat} {rest : List Char}
      (h : isDecimal char = true) (hseparator : isSeparator separator = true)
      (hrest : DigitRun count rest) : DigitRun (count + 1) (char :: separator :: rest)

/-- A card number between what is before and after it. -/
structure CardNumber (words : WordChars) (before run after : List Char) : Prop where
  digits : ∃ count, 13 ≤ count ∧ count ≤ 19 ∧ DigitRun count run
  begins : wordAt words.isWord before.getLast? = false
  ends : wordAt words.isWord after.head? = false
  luhn : luhnOk (withoutSeparators run) = true

def HoldsCard (words : WordChars) (text : List Char) : Prop :=
  ∃ before run after, text = before ++ run ++ after ∧ CardNumber words before run after

theorem isSeparator_of_isDecimal {char : Char} (h : isDecimal char = true) :
    isSeparator char = false := by
  unfold isSeparator
  rw [Bool.or_eq_false_iff]
  constructor
  · refine beq_eq_false_iff_ne.mpr ?_
    rintro rfl
    exact absurd h (by decide)
  · refine beq_eq_false_iff_ne.mpr ?_
    rintro rfl
    exact absurd h (by decide)

namespace DigitRun

variable {count : Nat} {run : List Char}

theorem mem (h : DigitRun count run) {char : Char} (hchar : char ∈ run) :
    isDecimal char = true ∨ isSeparator char = true := by
  induction h with
  | last h =>
      rw [List.mem_singleton.mp hchar]
      exact .inl h
  | next h _ ih =>
      rcases List.mem_cons.mp hchar with rfl | hchar
      · exact .inl h
      · exact ih hchar
  | spaced h hseparator _ ih =>
      rcases List.mem_cons.mp hchar with rfl | hchar
      · exact .inl h
      · rcases List.mem_cons.mp hchar with rfl | hchar
        · exact .inr hseparator
        · exact ih hchar

theorem head (h : DigitRun count run) : ∃ char rest, run = char :: rest ∧
    isDecimal char = true := by
  cases h with
  | last h => exact ⟨_, _, rfl, h⟩
  | next h _ => exact ⟨_, _, rfl, h⟩
  | spaced h _ _ => exact ⟨_, _, rfl, h⟩

theorem count_le (h : DigitRun count run) : count ≤ run.length := by
  induction h with
  | last h => exact le_refl _
  | next h _ ih =>
      rw [List.length_cons]
      omega
  | spaced h _ _ ih =>
      rw [List.length_cons, List.length_cons]
      omega

theorem length_digits (h : DigitRun count run) : (withoutSeparators run).length = count := by
  induction h with
  | last h =>
      unfold withoutSeparators
      rw [List.filter_cons_of_pos (by rw [isSeparator_of_isDecimal h]; rfl)]
      rfl
  | next h _ ih =>
      unfold withoutSeparators at ih ⊢
      rw [List.filter_cons_of_pos (by rw [isSeparator_of_isDecimal h]; rfl), List.length_cons, ih]
  | spaced h hseparator _ ih =>
      unfold withoutSeparators at ih ⊢
      rw [List.filter_cons_of_pos (by rw [isSeparator_of_isDecimal h]; rfl), List.length_cons,
        List.filter_cons_of_neg (by rw [hseparator]; decide), ih]

/-- Digits, each with a separator or without, and one more digit. -/
theorem of_flatten {texts : List (List Char)} {char : Char}
    (htexts : ∀ text ∈ texts, ∃ digit, isDecimal digit = true ∧
      (text = [digit] ∨ ∃ separator, isSeparator separator = true ∧ text = [digit, separator]))
    (hchar : isDecimal char = true) : DigitRun (texts.length + 1) (texts.flatten ++ [char]) := by
  induction texts with
  | nil => exact .last hchar
  | cons text texts ih =>
      obtain ⟨⟨digit, hdigit, htext⟩, hrest⟩ := List.forall_mem_cons.mp htexts
      rcases htext with rfl | ⟨separator, hseparator, rfl⟩
      · exact .next hdigit (ih hrest)
      · exact .spaced hdigit hseparator (ih hrest)

end DigitRun

/-! ## What breaks a text -/

/-- A character that no card number goes across. -/
def Breaks (words : WordChars) (char : Char) : Prop :=
  words.isWord char = false ∧ isSeparator char = false

theorem breaks_of_ascii (words : WordChars) {char : Char} (hascii : char.toNat < 128)
    (hword : (char.isAlphanum || char == '_') = false) (hseparator : isSeparator char = false) :
    Breaks words char :=
  ⟨(words.ascii char hascii).trans hword, hseparator⟩

theorem DigitRun.not_mem {words : WordChars} {count : Nat} {run : List Char} {char : Char}
    (h : DigitRun count run) (hbreaks : Breaks words char) : char ∉ run := by
  intro hmem
  rcases h.mem hmem with hdecimal | hseparator
  · exact Bool.false_ne_true (hbreaks.1.symm.trans (words.decimal char hdecimal))
  · exact Bool.false_ne_true (hbreaks.2.symm.trans hseparator)

section

variable {words : WordChars}

/-- A text of fewer than 13 characters holds no card number. -/
theorem not_holdsCard_of_short {text : List Char} (h : text.length < 13) :
    ¬ HoldsCard words text := by
  rintro ⟨before, run, after, rfl, card⟩
  obtain ⟨count, hcount, -, hrun⟩ := card.digits
  have hlength := hrun.count_le
  rw [List.length_append, List.length_append] at h
  omega

theorem append_cons_eq {α : Type} {left right before run after : List α} {middle : α}
    (h : left ++ middle :: right = before ++ run ++ after) (hrun : middle ∉ run) :
    (∃ tail, left = before ++ run ++ tail ∧ after = tail ++ middle :: right) ∨
      ∃ front, before = left ++ middle :: front ∧ right = front ++ run ++ after := by
  rw [List.append_assoc] at h
  rcases List.append_eq_append_iff.mp h with ⟨front, hbefore, hmiddle⟩ | ⟨rest, hleft, hrest⟩
  · -- `before` reaches beyond `left`
    cases front with
    | nil =>
        rw [List.nil_append] at hmiddle
        cases run with
        | nil =>
            refine .inl ⟨[], ?_, hmiddle.symm⟩
            rw [hbefore, List.append_nil, List.append_nil, List.append_nil]
        | cons first run =>
            obtain ⟨rfl, -⟩ := List.cons_eq_cons.mp hmiddle
            exact absurd List.mem_cons_self hrun
    | cons first front =>
        obtain ⟨rfl, hright⟩ := List.cons_eq_cons.mp hmiddle
        exact .inr ⟨front, hbefore, hright.trans (List.append_assoc _ _ _).symm⟩
  · rcases List.append_eq_append_iff.mp hrest with ⟨tail, hrest, hafter⟩ | ⟨tail, hrun', hmiddle⟩
    · exact .inl ⟨tail, by rw [hleft, hrest, List.append_assoc], hafter⟩
    · cases tail with
      | nil =>
          refine .inl ⟨[], ?_, hmiddle.symm⟩
          rw [hleft, hrun', List.append_nil, List.append_nil]
      | cons first tail =>
          obtain ⟨rfl, -⟩ := List.cons_eq_cons.mp hmiddle
          refine absurd ?_ hrun
          rw [hrun']
          exact List.mem_append_right _ List.mem_cons_self

/-- A text that is broken at a character holds a card number exactly if one of its parts does. -/
theorem holdsCard_append_cons {left right : List Char} {middle : Char}
    (hbreaks : Breaks words middle) :
    HoldsCard words (left ++ middle :: right) ↔ HoldsCard words left ∨ HoldsCard words right := by
  constructor
  · rintro ⟨before, run, after, h, card⟩
    obtain ⟨count, hleast, hmost, hrun⟩ := card.digits
    rcases append_cons_eq h (hrun.not_mem hbreaks) with ⟨tail, rfl, rfl⟩ | ⟨front, rfl, rfl⟩
    · refine .inl ⟨before, run, tail, rfl, ⟨⟨count, hleast, hmost, hrun⟩, card.begins, ?_,
        card.luhn⟩⟩
      cases tail with
      | nil => rfl
      | cons first tail => exact card.ends
    · refine .inr ⟨front, run, after, rfl, ⟨⟨count, hleast, hmost, hrun⟩, ?_, card.ends,
        card.luhn⟩⟩
      have hbegins := card.begins
      cases front with
      | nil => rfl
      | cons first front =>
          rw [List.getLast?_append_of_ne_nil _ (List.cons_ne_nil _ _),
            List.getLast?_cons_cons] at hbegins
          exact hbegins
  · rintro (⟨before, run, after, rfl, card⟩ | ⟨before, run, after, rfl, card⟩)
    · refine ⟨before, run, after ++ middle :: right, by simp, ⟨card.digits, card.begins, ?_,
        card.luhn⟩⟩
      cases after with
      | nil => exact hbreaks.1
      | cons first after => exact card.ends
    · refine ⟨left ++ middle :: before, run, after, by simp, ⟨card.digits, ?_, card.ends,
        card.luhn⟩⟩
      rw [List.getLast?_append_of_ne_nil _ (List.cons_ne_nil _ _)]
      have hbegins := card.begins
      cases before with
      | nil => exact hbreaks.1
      | cons first before =>
          rw [List.getLast?_cons_cons]
          exact hbegins

/-! ## What the pattern finds -/

theorem plain_panDigits :
    (Regex.rep 12 18 (.seq (.one isDecimal) (.rep 0 1 (.one isSeparator)))).Plain :=
  ⟨trivial, trivial⟩

/-- A digit and at most one separator. -/
theorem lang_panDigit {text : List Char}
    (h : (Regex.seq (.one isDecimal) (.rep 0 1 (.one isSeparator))).lang text) :
    ∃ digit, isDecimal digit = true ∧
      (text = [digit] ∨ ∃ separator, isSeparator separator = true ∧
        text = [digit, separator]) := by
  obtain ⟨left, right, ⟨digit, hdigit, rfl⟩, ⟨texts, -, hmost, htexts, rfl⟩, rfl⟩ := h
  refine ⟨digit, hdigit, ?_⟩
  cases texts with
  | nil => exact .inl rfl
  | cons text texts =>
      cases texts with
      | nil =>
          obtain ⟨separator, hseparator, rfl⟩ := htexts text List.mem_cons_self
          exact .inr ⟨separator, hseparator, rfl⟩
      | cons _ _ => exact absurd hmost (by simp)

/-- What the pattern matches is a run of 13 to 19 digits between word boundaries. -/
theorem pan_sound {before after : List Char} {hit : Match}
    (h : (panPattern words).firstMatch before after = some hit) :
    (∃ count, 13 ≤ count ∧ count ≤ 19 ∧ DigitRun count hit.text) ∧
      wordAt words.isWord before.head? = false ∧
        wordAt words.isWord (after.drop hit.text.length).head? = false := by
  obtain ⟨last, hlast, htext, -, -⟩ := firstMatch_eq_some h
  unfold panPattern at hlast
  obtain ⟨start, hstart, hlast⟩ := List.mem_flatMap.mp hlast
  obtain ⟨middle, hmiddle, hlast⟩ := List.mem_flatMap.mp hlast
  obtain ⟨final, hfinal, hlast⟩ := List.mem_flatMap.mp hlast
  obtain ⟨hbegin, rfl⟩ := mem_ends_boundary.mp hstart
  obtain ⟨text, ⟨texts, hleast, hmost, htexts, rfl⟩, hleads, rfl⟩ :=
    (mem_ends_iff plain_panDigits _ _).mp hmiddle
  obtain ⟨text, ⟨char, hchar, rfl⟩, hrest, rfl⟩ :=
    (mem_ends_iff (show (Regex.one isDecimal).Plain from trivial) _ _).mp hfinal
  obtain ⟨hend, rfl⟩ := mem_ends_boundary.mp hlast
  have hrun : DigitRun (texts.length + 1) (texts.flatten ++ [char]) :=
    .of_flatten (fun text htext => lang_panDigit (htexts text htext)) hchar
  have hwhole : texts.flatten ++ [char] <+: after := prefix_append_iff.mpr ⟨hleads, hrest⟩
  rw [← Place.advance_append] at htext hend
  have hhit : hit.text = texts.flatten ++ [char] := htext.trans (take_sub_drop hwhole)
  have hword {digit : Char} (hdigit : isDecimal digit = true) :
      wordAt words.isWord (some digit) = true := words.decimal digit hdigit
  refine ⟨⟨_, by omega, by omega, hhit ▸ hrun⟩, ?_, ?_⟩
  · obtain ⟨first, rest, hfirst, hdigit⟩ := hrun.head
    obtain ⟨later, rfl⟩ := hwhole
    rw [hfirst] at hbegin
    change ¬ wordAt words.isWord before.head? = wordAt words.isWord (some first) at hbegin
    rw [hword hdigit] at hbegin
    exact (Bool.not_eq_true _).mp hbegin
  · rw [hhit]
    have hbefore : ((Place.advance ⟨before, after, []⟩ (texts.flatten ++ [char])).before).head? =
        some char := by
      unfold Place.advance
      rw [List.reverse_append]
      rfl
    rw [hbefore, hword hchar] at hend
    exact (Bool.not_eq_true _).mp fun h => hend h.symm

/-- A match that passes the check is a card number. -/
theorem cardNumber_of_firstMatch {before rest : List Char} {hit : Match}
    (h : (panPattern words).firstMatch before (hit.text ++ rest) = some hit)
    (hluhn : luhnOk (withoutSeparators hit.text) = true) :
    CardNumber words before.reverse hit.text rest := by
  obtain ⟨hdigits, hbegins, hends⟩ := pan_sound h
  rw [List.drop_left] at hends
  refine ⟨hdigits, ?_, hends, hluhn⟩
  rw [List.getLast?_reverse]
  exact hbegins

/-! ## Portions -/

/-- A character that masking leaves alone, or a card number that it masks. -/
inductive Portion where
  | plain (char : Char)
  | number (run : List Char)

def Portion.text : Portion → List Char
  | .plain char => [char]
  | .number run => run

def Portion.shown : Portion → List Char
  | .plain char => [char]
  | .number run => maskPan run

/-- A match that does not pass the check is left as it is. -/
def portionsOf : Piece → List Portion
  | .plain char => [.plain char]
  | .found hit =>
      if luhnOk (withoutSeparators hit.text) then [.number hit.text]
      else hit.text.map Portion.plain

theorem portionsOf_number {hit : Match} (h : luhnOk (withoutSeparators hit.text) = true) :
    portionsOf (.found hit) = [.number hit.text] := if_pos h

theorem portionsOf_other {hit : Match} (h : ¬ luhnOk (withoutSeparators hit.text) = true) :
    portionsOf (.found hit) = hit.text.map Portion.plain := if_neg h

variable (words) in
def portions (text : List Char) : List Portion :=
  ((panPattern words).scan text).flatMap portionsOf

variable (words) in
/-- The first substitution of `redact_text`. -/
def scrub (text : List Char) : List Char :=
  (panPattern words).sub (fun hit => maskPan hit.text) text

theorem flatMap_plain {image : Portion → List Char} (h : ∀ char, image (.plain char) = [char])
    (text : List Char) : (text.map Portion.plain).flatMap image = text := by
  induction text with
  | nil => rfl
  | cons char text ih =>
      rw [List.map_cons, List.flatMap_cons, h, ih]
      rfl

theorem portionsOf_text (piece : Piece) : (portionsOf piece).flatMap Portion.text = piece.text := by
  cases piece with
  | plain char => rfl
  | found hit =>
      by_cases hluhn : luhnOk (withoutSeparators hit.text) = true
      · rw [portionsOf_number hluhn]
        exact List.append_nil _
      · rw [portionsOf_other hluhn, flatMap_plain fun _ => rfl]
        rfl

theorem portionsOf_shown (hit : Match) :
    (portionsOf (.found hit)).flatMap Portion.shown = maskPan hit.text := by
  by_cases hluhn : luhnOk (withoutSeparators hit.text) = true
  · rw [portionsOf_number hluhn]
    exact List.append_nil _
  · rw [portionsOf_other hluhn, flatMap_plain fun _ => rfl]
    exact (if_neg hluhn).symm

theorem flatMap_portionsOf_text {before text : List Char} {pieces : List Piece}
    (h : Scans (panPattern words) before text pieces) :
    (pieces.flatMap portionsOf).flatMap Portion.text = text := by
  rw [List.flatMap_assoc, List.flatMap_congr fun piece _ => portionsOf_text piece]
  exact h.flatMap_text

theorem portions_text (text : List Char) : (portions words text).flatMap Portion.text = text :=
  flatMap_portionsOf_text (scans_scan (panPattern words) text)

theorem portions_shown (text : List Char) : (portions words text).flatMap Portion.shown =
    scrub words text := by
  unfold portions scrub sub substitute
  rw [List.flatMap_assoc]
  refine List.flatMap_congr fun piece _ => ?_
  cases piece with
  | plain char => rfl
  | found hit => exact portionsOf_shown hit

variable (words) in
/-- Every number that is masked is a card number where it stands. -/
def Placed : List Char → List Portion → Prop
  | _, [] => True
  | before, .plain char :: portions => Placed (before ++ [char]) portions
  | before, .number run :: portions =>
      CardNumber words before run (portions.flatMap Portion.text) ∧ Placed (before ++ run) portions

theorem placed_plain {before text : List Char} {portions : List Portion}
    (h : Placed words (before ++ text) portions) :
    Placed words before (text.map Portion.plain ++ portions) := by
  induction text generalizing before with
  | nil =>
      rw [List.append_nil] at h
      exact h
  | cons char text ih =>
      rw [List.append_cons] at h
      exact ih h

theorem placed_of_scans {before text : List Char} {pieces : List Piece}
    (h : Scans (panPattern words) before text pieces) :
    Placed words before.reverse (pieces.flatMap portionsOf) := by
  induction h with
  | done => trivial
  | plain hnone hrest ih =>
      rw [List.reverse_cons] at ih
      exact ih
  | @found _ _ hit _ hhit hrest ih =>
      rw [List.reverse_append, List.reverse_reverse] at ih
      rw [List.flatMap_cons]
      by_cases hluhn : luhnOk (withoutSeparators hit.text) = true
      · rw [portionsOf_number hluhn, List.singleton_append]
        refine ⟨?_, ih⟩
        rw [flatMap_portionsOf_text hrest]
        exact cardNumber_of_firstMatch hhit hluhn
      · rw [portionsOf_other hluhn]
        exact placed_plain ih

theorem placed_portions (text : List Char) : Placed words [] (portions words text) :=
  placed_of_scans (scans_scan (panPattern words) text)

/-- What is masked is a card number. -/
theorem Placed.of_mem {before : List Char} {portions : List Portion}
    (h : Placed words before portions)
    {run : List Char} (hrun : Portion.number run ∈ portions) :
    ∃ before after, CardNumber words before run after := by
  induction portions generalizing before with
  | nil => cases hrun
  | cons portion portions ih =>
      cases portion with
      | plain char =>
          rcases List.mem_cons.mp hrun with hsame | hrun
          · cases hsame
          · exact ih h hrun
      | number other =>
          rcases List.mem_cons.mp hrun with hsame | hrun
          · cases hsame
            exact ⟨before, _, h.1⟩
          · exact ih h.2 hrun

/-! ## Stretches -/

def firstSix (run : List Char) : List Char :=
  (withoutSeparators run).take 6

def lastFour (run : List Char) : List Char :=
  (withoutSeparators run).drop ((withoutSeparators run).length - 4)

theorem maskPan_eq {before run after : List Char} (card : CardNumber words before run after) :
    ∃ stars, maskPan run = firstSix run ++ '*' :: (List.replicate stars '*' ++ lastFour run) := by
  obtain ⟨count, hleast, -, hrun⟩ := card.digits
  have hlength := hrun.length_digits
  obtain ⟨stars, hstars⟩ : ∃ stars, (withoutSeparators run).length - 10 = stars + 1 :=
    ⟨count - 11, by omega⟩
  refine ⟨stars, ?_⟩
  unfold maskPan firstSix lastFour
  rw [if_pos card.luhn, hstars, List.replicate_succ, List.append_assoc, List.cons_append]

/-- What lies between two numbers that are masked: the digits kept of the one before it, its own
text, and the digits kept of the one after it. -/
structure Stretch where
  kept : List Char
  own : List Char
  next : List Char

def Stretch.text (stretch : Stretch) : List Char :=
  stretch.kept ++ stretch.own ++ stretch.next

def stretches (kept own : List Char) : List Portion → List Stretch
  | [] => [{ kept, own, next := [] }]
  | .plain char :: portions => stretches kept (own ++ [char]) portions
  | .number run :: portions =>
      { kept, own, next := firstSix run } :: stretches (lastFour run) [] portions

theorem breaks_star (words : WordChars) : Breaks words '*' :=
  breaks_of_ascii words (by decide) (by decide) (by decide)

/-- Stars hold no card number and let none across. -/
theorem holdsCard_stars (stars : Nat) (right : List Char) :
    HoldsCard words (List.replicate stars '*' ++ right) ↔ HoldsCard words right := by
  induction stars with
  | zero => rfl
  | succ stars ih =>
      rw [List.replicate_succ, List.cons_append, ← ih]
      have hsplit : HoldsCard words ([] ++ '*' :: (List.replicate stars '*' ++ right)) ↔ _ :=
        holdsCard_append_cons (breaks_star words)
      exact hsplit.trans (or_iff_right (not_holdsCard_of_short (by decide)))

/-- The masked text holds a card number exactly if a stretch does. -/
theorem holdsCard_shown_iff (kept own : List Char) {portions : List Portion}
    (hportions : ∀ run, Portion.number run ∈ portions →
      ∃ before after, CardNumber words before run after) :
    HoldsCard words (kept ++ own ++ portions.flatMap Portion.shown) ↔
      ∃ stretch ∈ stretches kept own portions, HoldsCard words stretch.text := by
  induction portions generalizing kept own with
  | nil =>
      unfold stretches
      simp only [List.mem_singleton, exists_eq_left]
      rfl
  | cons portion portions ih =>
      have hrest := fun run hrun => hportions run (List.mem_cons_of_mem _ hrun)
      cases portion with
      | plain char =>
          refine Iff.trans ?_ (ih kept (own ++ [char]) hrest)
          rw [List.flatMap_cons, ← List.append_assoc kept own [char], List.append_assoc _ [char]]
          rfl
      | number run =>
          obtain ⟨before, after, card⟩ := hportions run List.mem_cons_self
          obtain ⟨stars, hmask⟩ := maskPan_eq card
          have hmore := ih (lastFour run) [] hrest
          rw [List.append_nil] at hmore
          have hshown : kept ++ own ++ (Portion.number run :: portions).flatMap Portion.shown =
              (kept ++ own ++ firstSix run) ++ '*' :: (List.replicate stars '*' ++
                (lastFour run ++ portions.flatMap Portion.shown)) := by
            rw [List.flatMap_cons]
            change _ ++ (maskPan run ++ _) = _
            rw [hmask]
            simp only [List.append_assoc, List.cons_append]
          rw [hshown, holdsCard_append_cons (breaks_star words), holdsCard_stars, hmore]
          change _ ↔ ∃ stretch ∈ { kept, own, next := firstSix run } ::
            stretches (lastFour run) [] portions, HoldsCard words stretch.text
          simp only [List.mem_cons, exists_eq_or_imp]
          rfl

end

end PayzenoLedger
