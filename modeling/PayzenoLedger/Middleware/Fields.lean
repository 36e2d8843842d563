import PayzenoLedger.Middleware.Cards

/-!
# CVV fields in a text

A CVV field is a quoted key, a colon and a quoted value of three or four digits.  Two fields
overlap when the quote that closes the value of the one opens the key of the other; the
substitution then replaces the value of the first alone.
-/

set_option autoImplicit false

namespace PayzenoLedger

open Library Library.Regex

/-! ## Fields -/

/-- `cvc`, `cvv`, `cvv2` or `security_code`, in letters of either case. -/
def CvvKey (key : List Char) : Prop :=
  ∃ name ∈ ["cvc", "cvv", "cvv2", "security_code"],
    List.Forall₂ (fun letter char => foldsTo letter char = true) name.toList key

/-- A key between quotes, the colon and the quote that opens the value. -/
def Opens (opening : List Char) : Prop :=
  ∃ key blank space, CvvKey key ∧ (∀ char ∈ blank, isSpace char = true) ∧
    (∀ char ∈ space, isSpace char = true) ∧
      opening = ['"'] ++ (key ++ (['"'] ++ (blank ++ ([':'] ++ (space ++ ['"'])))))

/-- Three or four digits. -/
def IsCvv (value : List Char) : Prop :=
  3 ≤ value.length ∧ value.length ≤ 4 ∧ ∀ char ∈ value, isDecimal char = true

def IsField (text : List Char) : Prop :=
  ∃ opening value, Opens opening ∧ IsCvv value ∧ text = opening ++ value ++ ['"']

/-! ## What the pattern finds -/

theorem lang_ones {test : Char → Bool} {texts : List (List Char)} {text : List Char}
    (htexts : ∀ text ∈ texts, (Regex.one test).lang text) (h : text = texts.flatten) :
    text.length = texts.length ∧ ∀ char ∈ text, test char = true := by
  induction texts generalizing text with
  | nil =>
      subst h
      exact ⟨rfl, by simp⟩
  | cons first texts ih =>
      obtain ⟨⟨char, hchar, rfl⟩, hrest⟩ := List.forall_mem_cons.mp htexts
      obtain ⟨hlength, hall⟩ := ih hrest rfl
      subst h
      refine ⟨?_, List.forall_mem_cons.mpr ⟨hchar, hall⟩⟩
      rw [List.length_cons, ← hlength]
      rfl

theorem ones_of_all {test : Char → Bool} {text : List Char}
    (h : ∀ char ∈ text, test char = true) :
    (∀ each ∈ text.map fun char => [char], (Regex.one test).lang each) ∧
      text = (text.map fun char => [char]).flatten := by
  constructor
  · intro each heach
    obtain ⟨char, hchar, rfl⟩ := List.mem_map.mp heach
    exact ⟨char, h char hchar, rfl⟩
  · induction text with
    | nil => rfl
    | cons char text ih =>
        rw [List.map_cons, List.flatten_cons, ← ih (List.forall_mem_cons.mp h).2]
        rfl

theorem lang_star_one {test : Char → Bool} {text : List Char} :
    (Regex.star (.one test)).lang text ↔ ∀ char ∈ text, test char = true := by
  constructor
  · rintro ⟨texts, htexts, htext⟩
    exact (lang_ones htexts htext).2
  · intro h
    exact ⟨_, ones_of_all h⟩

theorem lang_cvvValue {value : List Char} : cvvValue.lang value ↔ IsCvv value := by
  constructor
  · rintro ⟨texts, hleast, hmost, htexts, hvalue⟩
    obtain ⟨hlength, hall⟩ := lang_ones htexts hvalue
    exact ⟨hlength ▸ hleast, hlength ▸ hmost, hall⟩
  · rintro ⟨hleast, hmost, hall⟩
    obtain ⟨htexts, hvalue⟩ := ones_of_all hall
    refine ⟨_, ?_, ?_, htexts, hvalue⟩
    · rw [List.length_map]
      exact hleast
    · rw [List.length_map]
      exact hmost

theorem lang_ignoringCase {letters key : List Char} :
    (ignoringCase letters).lang key ↔
      List.Forall₂ (fun letter char => foldsTo letter char = true) letters key := by
  induction letters generalizing key with
  | nil =>
      rw [List.forall₂_nil_left_iff]
      exact Iff.rfl
  | cons letter letters ih =>
      rw [List.forall₂_cons_left_iff]
      constructor
      · rintro ⟨left, right, ⟨char, hchar, rfl⟩, hright, rfl⟩
        exact ⟨char, right, hchar, ih.mp hright, rfl⟩
      · rintro ⟨char, rest, hchar, hrest, rfl⟩
        exact ⟨[char], rest, ⟨char, hchar, rfl⟩, ih.mpr hrest, rfl⟩

theorem lang_cvvKeys {key : List Char} : cvvKeys.lang key ↔ CvvKey key := by
  unfold CvvKey
  simp only [List.mem_cons, List.not_mem_nil, or_false, exists_eq_or_imp, exists_eq_left,
    ← lang_ignoringCase]
  rfl

theorem lang_quote {text : List Char} {mark : Char} :
    (Regex.one (· == mark)).lang text ↔ text = [mark] := by
  constructor
  · rintro ⟨char, hchar, rfl⟩
    rw [beq_iff_eq.mp hchar]
  · rintro rfl
    exact ⟨mark, beq_self_eq_true mark, rfl⟩

theorem lang_cvvOpening {opening : List Char} : cvvOpening.lang opening ↔ Opens opening := by
  constructor
  · rintro ⟨_, _, hfirst, ⟨key, _, hkey, ⟨_, _, hsecond, ⟨blank, _, hblank, ⟨_, _, hcolon,
      ⟨space, _, hspace, hthird, rfl⟩, rfl⟩, rfl⟩, rfl⟩, rfl⟩, rfl⟩
    rw [lang_quote.mp hfirst, lang_quote.mp hsecond, lang_quote.mp hcolon,
      lang_quote.mp hthird]
    exact ⟨key, blank, space, lang_cvvKeys.mp hkey, lang_star_one.mp hblank,
      lang_star_one.mp hspace, rfl⟩
  · rintro ⟨key, blank, space, hkey, hblank, hspace, rfl⟩
    exact ⟨_, _, lang_quote.mpr rfl, ⟨key, _, lang_cvvKeys.mpr hkey,
      ⟨_, _, lang_quote.mpr rfl, ⟨blank, _, lang_star_one.mpr hblank,
        ⟨_, _, lang_quote.mpr rfl, ⟨space, _, lang_star_one.mpr hspace, lang_quote.mpr rfl, rfl⟩,
          rfl⟩, rfl⟩, rfl⟩, rfl⟩, rfl⟩

theorem plain_ignoringCase (letters : List Char) : (ignoringCase letters).Plain := by
  induction letters with
  | nil => trivial
  | cons letter letters ih => exact ⟨trivial, ih⟩

theorem plain_cvvOpening : cvvOpening.Plain := by
  have hspace : (Regex.star (.one isSpace)).Plain := by
    refine ⟨trivial, ?_⟩
    rintro ⟨char, -, h⟩
    cases h
  exact ⟨trivial, ⟨plain_ignoringCase _, plain_ignoringCase _, plain_ignoringCase _,
    plain_ignoringCase _⟩, trivial, hspace, trivial, hspace, trivial⟩

/-- The pattern matches the fields, and captures the opening and the closing quote. -/
theorem mem_ends_cvvPattern {before after : List Char} {last : Place} :
    last ∈ cvvPattern.ends { before, after } ↔
      ∃ opening value, Opens opening ∧ IsCvv value ∧ opening ++ value ++ ['"'] <+: after ∧
        last = { Place.advance { before, after } (opening ++ value ++ ['"']) with
          groups := [(2, ['"']), (1, opening)] } := by
  unfold cvvPattern
  change last ∈ (Regex.ends (.group 1 cvvOpening) _).flatMap (fun place =>
    (cvvValue.ends place).flatMap (Regex.group 2 quote).ends) ↔ _
  simp only [List.mem_flatMap]
  constructor
  · rintro ⟨first, hfirst, second, hsecond, hlast⟩
    obtain ⟨opening, hopening, hleads, rfl⟩ := (mem_ends_group plain_cvvOpening).mp hfirst
    obtain ⟨value, hvalue, hrest, rfl⟩ :=
      (mem_ends_iff (show cvvValue.Plain from trivial) _ _).mp hsecond
    obtain ⟨text, htext, hclose, rfl⟩ :=
      (mem_ends_group (show quote.Plain from trivial)).mp hlast
    obtain rfl := lang_quote.mp htext
    refine ⟨opening, value, lang_cvvOpening.mp hopening, lang_cvvValue.mp hvalue, ?_, ?_⟩
    · rw [List.append_assoc]
      exact prefix_append_iff.mpr ⟨hleads, prefix_append_iff.mpr ⟨hrest, hclose⟩⟩
    · rw [Place.advance_append, Place.advance_append]
      rfl
  · rintro ⟨opening, value, hopening, hvalue, hleads, rfl⟩
    rw [List.append_assoc] at hleads
    obtain ⟨hleads, hrest⟩ := prefix_append_iff.mp hleads
    obtain ⟨hrest, hclose⟩ := prefix_append_iff.mp hrest
    refine ⟨_, (mem_ends_group plain_cvvOpening).mpr
      ⟨opening, lang_cvvOpening.mpr hopening, hleads, rfl⟩, _,
      (mem_ends_iff (show cvvValue.Plain from trivial) _ _).mpr
        ⟨value, lang_cvvValue.mpr hvalue, hrest, rfl⟩,
      (mem_ends_group (show quote.Plain from trivial)).mpr
        ⟨['"'], lang_quote.mpr rfl, hclose, ?_⟩⟩
    rw [Place.advance_append, Place.advance_append]
    rfl

/-- What is found is a field, of which the change keeps all but the value. -/
theorem cvv_sound {before after : List Char} {hit : Match}
    (h : cvvPattern.firstMatch before after = some hit) :
    ∃ opening value, Opens opening ∧ IsCvv value ∧ hit.text = opening ++ value ++ ['"'] ∧
      hit.group 1 = opening ∧ hit.group 2 = ['"'] := by
  obtain ⟨last, hlast, htext, -, hgroups⟩ := firstMatch_eq_some h
  obtain ⟨opening, value, hopening, hvalue, hleads, rfl⟩ := mem_ends_cvvPattern.mp hlast
  refine ⟨opening, value, hopening, hvalue, ?_, ?_, ?_⟩
  · rw [htext]
    exact take_sub_drop hleads
  · unfold Match.group
    rw [hgroups]
    rfl
  · unfold Match.group
    rw [hgroups]
    rfl

/-- A field that begins at a place is found there, or another one is. -/
theorem cvv_complete {before after field : List Char} (hfield : IsField field)
    (hleads : field <+: after) : ∃ hit, cvvPattern.firstMatch before after = some hit := by
  obtain ⟨opening, value, hopening, hvalue, rfl⟩ := hfield
  have hend : { Place.advance { before, after } (opening ++ value ++ ['"']) with
      groups := [(2, ['"']), (1, opening)] } ∈ cvvPattern.ends { before, after } :=
    mem_ends_cvvPattern.mpr ⟨opening, value, hopening, hvalue, hleads, rfl⟩
  refine exists_firstMatch (List.ne_nil_of_mem hend) fun last hlast => ?_
  obtain ⟨opening, value, -, -, hleads, rfl⟩ := mem_ends_cvvPattern.mp hlast
  obtain ⟨rest, rfl⟩ := hleads
  change (List.drop _ _).length < _
  rw [List.drop_left, List.length_append, List.length_append]
  exact Nat.lt_add_of_pos_left (by simp)

/-! ## The characters of a field -/

def keyLetters : List Char := "cvsecurityod_2".toList

/-- What a key may begin with. -/
def beginsKey (char : Char) : Bool :=
  foldsTo 'c' char || foldsTo 's' char

theorem CvvKey.mem {key : List Char} (h : CvvKey key) {char : Char} (hchar : char ∈ key) :
    ∃ letter ∈ keyLetters, foldsTo letter char = true := by
  obtain ⟨name, hname, hfolds⟩ := h
  obtain ⟨letter, hletter, hfold⟩ : ∃ letter ∈ name.toList, foldsTo letter char = true := by
    clear hname
    generalize name.toList = letters at hfolds ⊢
    induction hfolds with
    | nil => cases hchar
    | cons hfold _ ih =>
        rcases List.mem_cons.mp hchar with rfl | hchar
        · exact ⟨_, List.mem_cons_self, hfold⟩
        · obtain ⟨letter, hletter, hfold⟩ := ih hchar
          exact ⟨letter, List.mem_cons_of_mem _ hletter, hfold⟩
  refine ⟨letter, ?_, hfold⟩
  have hall : ["cvc", "cvv", "cvv2", "security_code"].all (fun name =>
      name.toList.all fun letter => keyLetters.contains letter) = true := by
    decide
  exact List.contains_iff_mem.mp (List.all_eq_true.mp (List.all_eq_true.mp hall name hname)
    letter hletter)

/-- A sign that folds to no letter of a key is in none. -/
theorem CvvKey.not_mem {key : List Char} (h : CvvKey key) {mark : Char}
    (hmark : (keyLetters.all fun letter => !foldsTo letter mark) = true) : mark ∉ key := by
  intro hmem
  obtain ⟨letter, hletter, hfold⟩ := h.mem hmem
  have hnot := List.all_eq_true.mp hmark letter hletter
  rw [hfold] at hnot
  cases hnot

theorem CvvKey.head {key : List Char} (h : CvvKey key) :
    ∃ first rest, key = first :: rest ∧ beginsKey first = true := by
  obtain ⟨name, hname, hfolds⟩ := h
  obtain ⟨letter, letters, hletters, hletter⟩ : ∃ letter letters,
      name.toList = letter :: letters ∧ (letter = 'c' ∨ letter = 's') := by
    simp only [List.mem_cons, List.not_mem_nil, or_false] at hname
    rcases hname with rfl | rfl | rfl | rfl
    · exact ⟨'c', ['v', 'c'], rfl, .inl rfl⟩
    · exact ⟨'c', ['v', 'v'], rfl, .inl rfl⟩
    · exact ⟨'c', ['v', 'v', '2'], rfl, .inl rfl⟩
    · exact ⟨'s', "ecurity_code".toList, rfl, .inr rfl⟩
  rw [hletters] at hfolds
  obtain ⟨first, rest, hfirst, -, rfl⟩ := List.forall₂_cons_left_iff.mp hfolds
  refine ⟨first, rest, rfl, ?_⟩
  unfold beginsKey
  rcases hletter with rfl | rfl
  · rw [hfirst, Bool.true_or]
  · rw [hfirst, Bool.or_true]

theorem not_mem_of_all {test : Char → Bool} {text : List Char}
    (h : ∀ char ∈ text, test char = true) {mark : Char} (hmark : test mark = false) :
    mark ∉ text := fun hmem => Bool.false_ne_true (hmark.symm.trans (h mark hmem))

/-- A sign that is neither a quote, a colon, white space, a digit nor in a key is in no field. -/
theorem IsField.not_mem {field : List Char} (h : IsField field) {mark : Char}
    (hkey : (keyLetters.all fun letter => !foldsTo letter mark) = true)
    (hspace : isSpace mark = false) (hdecimal : isDecimal mark = false)
    (hquote : mark ≠ '"') (hcolon : mark ≠ ':') : mark ∉ field := by
  obtain ⟨opening, value, ⟨key, blank, space, hkey', hblank, hspace', rfl⟩, ⟨-, -, hvalue⟩, rfl⟩ :=
    h
  have hnotKey := hkey'.not_mem hkey
  have hnotBlank := not_mem_of_all hblank hspace
  have hnotSpace := not_mem_of_all hspace' hspace
  have hnotValue := not_mem_of_all hvalue hdecimal
  simp only [List.mem_append, List.mem_singleton, hnotKey, hnotBlank, hnotSpace, hnotValue,
    hquote, hcolon, or_false, not_false_eq_true]

theorem Opens.count_quote {opening : List Char} (h : Opens opening) : opening.count '"' = 3 := by
  obtain ⟨key, blank, space, hkey, hblank, hspace, rfl⟩ := h
  have hnotKey : '"' ∉ key := hkey.not_mem (by decide)
  have hnotBlank : '"' ∉ blank := not_mem_of_all hblank (by decide)
  have hnotSpace : '"' ∉ space := not_mem_of_all hspace (by decide)
  simp only [List.count_append, List.count_eq_zero.mpr hnotKey, List.count_eq_zero.mpr hnotBlank,
    List.count_eq_zero.mpr hnotSpace]
  decide

theorem IsCvv.not_mem_quote {value : List Char} (h : IsCvv value) : '"' ∉ value :=
  not_mem_of_all h.2.2 (by decide)

theorem IsField.count_quote {field : List Char} (h : IsField field) : field.count '"' = 4 := by
  obtain ⟨opening, value, hopening, hvalue, rfl⟩ := h
  rw [List.count_append, List.count_append, hopening.count_quote,
    List.count_eq_zero.mpr hvalue.not_mem_quote]
  decide

/-- An opening without its last quote. -/
theorem Opens.split {opening : List Char} (h : Opens opening) :
    ∃ front, opening = front ++ ['"'] := by
  obtain ⟨key, blank, space, -, -, -, rfl⟩ := h
  exact ⟨['"'] ++ (key ++ (['"'] ++ (blank ++ ([':'] ++ space)))), by simp⟩

/-- A field begins with a quote and the beginning of a key. -/
theorem IsField.head {field : List Char} (h : IsField field) :
    ∃ first rest, field = '"' :: first :: rest ∧ beginsKey first = true := by
  obtain ⟨opening, value, ⟨key, blank, space, hkey, -, -, rfl⟩, -, rfl⟩ := h
  obtain ⟨first, rest, rfl, hfirst⟩ := hkey.head
  exact ⟨first, _, rfl, hfirst⟩

theorem IsField.getLast? {field : List Char} (h : IsField field) :
    field.getLast? = some '"' := by
  obtain ⟨opening, value, -, -, rfl⟩ := h
  rw [List.getLast?_append_of_ne_nil _ (List.cons_ne_nil _ _)]
  rfl

theorem mem_of_beginsKey {char : Char} (h : beginsKey char = true) :
    char ∈ ['c', 'C', 's', 'S', 'ſ'] := by
  unfold beginsKey foldsTo at h
  simp only [Bool.or_eq_true, Bool.and_eq_true, beq_iff_eq] at h
  simp only [List.mem_cons, List.not_mem_nil, or_false]
  have hc : 'c'.toUpper = 'C' := by decide
  have hs : 's'.toUpper = 'S' := by decide
  rw [hc, hs] at h
  tauto

theorem not_beginsKey {test : Char → Bool}
    (h : (['c', 'C', 's', 'S', 'ſ'].all fun char => !test char) = true) {char : Char}
    (hchar : test char = true) : beginsKey char = false := by
  refine (Bool.not_eq_true _).mp fun hbegins => ?_
  have hnot := List.all_eq_true.mp h char (mem_of_beginsKey hbegins)
  rw [hchar] at hnot
  cases hnot

/-- Where a text is cut at a mark: at the first one, or after it. -/
theorem cut_at {α : Type} {first rest front tail : List α} {mark : α} (hfirst : mark ∉ first)
    (h : first ++ mark :: rest = front ++ mark :: tail) :
    (front = first ∧ tail = rest) ∨
      ∃ later, front = first ++ mark :: later ∧ rest = later ++ mark :: tail := by
  rcases List.append_eq_append_iff.mp h with ⟨later, hfront, hrest⟩ | ⟨later, hfront, hrest⟩
  · cases later with
    | nil =>
        rw [List.append_nil] at hfront
        exact .inl ⟨hfront, (List.cons_eq_cons.mp hrest).2.symm⟩
    | cons char later =>
        obtain ⟨rfl, hlater⟩ := List.cons_eq_cons.mp hrest
        exact .inr ⟨later, hfront, hlater⟩
  · cases later with
    | nil =>
        rw [List.append_nil] at hfront
        exact .inl ⟨hfront.symm, (List.cons_eq_cons.mp hrest).2⟩
    | cons char later =>
        obtain ⟨rfl, -⟩ := List.cons_eq_cons.mp hrest
        exact absurd (hfront ▸ List.mem_append_right front List.mem_cons_self) hfirst

/-- No quote of a field but the first comes before the beginning of a key. -/
theorem IsField.inner {field front tail : List Char} (h : IsField field)
    (hfield : field = front ++ '"' :: tail) (hfront : front ≠ []) :
    ∀ char ∈ tail.head?, beginsKey char = false := by
  obtain ⟨opening, value, ⟨key, blank, space, hkey, hblank, hspace, rfl⟩, hvalue, rfl⟩ := h
  have hkey : '"' ∉ key := hkey.not_mem (by decide)
  have hgap : '"' ∉ blank ++ ':' :: space := by
    rw [List.mem_append, List.mem_cons]
    rintro (hmem | hmem | hmem)
    · exact not_mem_of_all hblank (by decide) hmem
    · cases hmem
    · exact not_mem_of_all hspace (by decide) hmem
  have hshape : '"' :: (key ++ '"' :: ((blank ++ ':' :: space) ++ '"' :: (value ++ '"' :: []))) =
      front ++ '"' :: tail := by
    rw [← hfield]
    simp
  cases front with
  | nil => exact absurd rfl hfront
  | cons first front =>
      obtain ⟨-, hshape⟩ := List.cons_eq_cons.mp hshape
      rcases cut_at hkey hshape with ⟨-, rfl⟩ | ⟨later, -, hshape⟩
      · intro char hchar
        cases blank with
        | nil =>
            obtain rfl := Option.some.inj hchar
            decide
        | cons first blank =>
            obtain rfl := Option.some.inj hchar
            exact not_beginsKey (by decide) (hblank first List.mem_cons_self)
      · rcases cut_at hgap hshape with ⟨-, rfl⟩ | ⟨later, -, hshape⟩
        · intro char hchar
          cases value with
          | nil => exact absurd hvalue.1 (by decide)
          | cons first value =>
              obtain rfl := Option.some.inj hchar
              exact not_beginsKey (by decide) (hvalue.2.2 first List.mem_cons_self)
        · rcases cut_at hvalue.not_mem_quote hshape with ⟨-, rfl⟩ | ⟨later, -, hshape⟩
          · intro char hchar
            cases hchar
          · cases later <;> cases hshape

/-- A field that begins within another begins at its closing quote. -/
theorem IsField.overlap {field front tail other rest : List Char} (h : IsField field)
    (hfield : field = front ++ tail) (hfront : front ≠ []) (htail : tail ≠ [])
    (hother : IsField other) (hleads : other <+: tail ++ rest) : tail = ['"'] := by
  obtain ⟨first, later, rfl, hfirst⟩ := hother.head
  obtain ⟨after, hafter⟩ := hleads
  cases tail with
  | nil => exact absurd rfl htail
  | cons char tail =>
      obtain ⟨rfl, hrest⟩ := List.cons_eq_cons.mp hafter
      cases tail with
      | nil => rfl
      | cons next tail =>
          obtain ⟨rfl, -⟩ := List.cons_eq_cons.mp hrest
          have hinner := h.inner hfield hfront first rfl
          rw [hfirst] at hinner
          cases hinner

/-- Of two fields at one place neither goes on after the other. -/
theorem IsField.eq_of_prefix {field other : List Char} (h : IsField field)
    (hother : IsField other) (hleads : field <+: other) : field = other := by
  obtain ⟨rest, rfl⟩ := hleads
  have hcount := hother.count_quote
  rw [List.count_append, h.count_quote] at hcount
  cases rest with
  | nil => exact (List.append_nil field).symm
  | cons char rest =>
      have hlast := hother.getLast?
      rw [List.getLast?_append_of_ne_nil _ (List.cons_ne_nil _ _)] at hlast
      have hmem := List.mem_of_getLast? hlast
      have hpos := List.count_pos_iff.mpr hmem
      omega

/-! ## What the substitution leaves -/

def changeCvv (hit : Match) : List Char :=
  hit.group 1 ++ redacted ++ hit.group 2

def HoldsField (text : List Char) : Prop :=
  ∃ before field after, text = before ++ field ++ after ∧ IsField field

/-- A field with another one that opens at the quote that closes its value. -/
def IsOverlap (text : List Char) : Prop :=
  ∃ opening value tail, Opens opening ∧ IsCvv value ∧ IsField ('"' :: tail) ∧
    text = opening ++ value ++ '"' :: tail

def HoldsOverlap (text : List Char) : Prop :=
  ∃ before overlap after, text = before ++ overlap ++ after ∧ IsOverlap overlap

theorem HoldsField.append {text : List Char} (h : HoldsField text) (front : List Char) :
    HoldsField (front ++ text) := by
  obtain ⟨before, field, after, rfl, hfield⟩ := h
  exact ⟨front ++ before, field, after, by simp, hfield⟩

theorem HoldsOverlap.append {text : List Char} (h : HoldsOverlap text) (front : List Char) :
    HoldsOverlap (front ++ text) := by
  obtain ⟨before, overlap, after, rfl, hoverlap⟩ := h
  exact ⟨front ++ before, overlap, after, by simp, hoverlap⟩

section

variable {before text : List Char} {pieces : List Piece}

theorem substitute_plain (char : Char) (pieces : List Piece) :
    substitute changeCvv (.plain char :: pieces) = char :: substitute changeCvv pieces := rfl

theorem substitute_found (hit : Match) (pieces : List Piece) :
    substitute changeCvv (.found hit :: pieces) =
      changeCvv hit ++ substitute changeCvv pieces := rfl

/-- What is found, cut into its opening and its value, and what it is changed to. -/
theorem found_shape {before after : List Char} {hit : Match}
    (h : cvvPattern.firstMatch before after = some hit) :
    ∃ front value, Opens (front ++ ['"']) ∧ IsCvv value ∧
      hit.text = front ++ '"' :: (value ++ ['"']) ∧
        changeCvv hit = front ++ '"' :: (redacted ++ ['"']) := by
  obtain ⟨opening, value, hopening, hvalue, htext, hfirst, hsecond⟩ := cvv_sound h
  obtain ⟨front, rfl⟩ := hopening.split
  refine ⟨front, value, hopening, hvalue, ?_, ?_⟩
  · rw [htext]
    simp
  · unfold changeCvv
    rw [hfirst, hsecond]
    simp

theorem isField_found {before after : List Char} {hit : Match}
    (h : cvvPattern.firstMatch before after = some hit) : IsField hit.text := by
  obtain ⟨opening, value, hopening, hvalue, htext, -⟩ := cvv_sound h
  exact ⟨opening, value, hopening, hvalue, htext⟩

theorem prefix_of_not_mem {part front rest : List Char} {mark : Char} (hpart : mark ∉ part)
    (hleads : part <+: front ++ mark :: rest) : part <+: front := by
  rcases List.prefix_or_prefix_of_prefix hleads (List.prefix_append front _) with
    hshort | ⟨more, rfl⟩
  · exact hshort
  · cases more with
    | nil => exact (List.append_nil front).symm ▸ List.prefix_refl _
    | cons char more =>
        obtain ⟨rfl, -⟩ := List.cons_prefix_cons.mp ((List.prefix_append_right_inj _).mp hleads)
        exact absurd (List.mem_append_right front List.mem_cons_self) hpart

theorem skip_before {first rest front tail : List Char} {mark : Char} (hfirst : mark ∉ first)
    (h : first ++ rest = front ++ mark :: tail) :
    ∃ later, front = first ++ later ∧ rest = later ++ mark :: tail := by
  rcases List.append_eq_append_iff.mp h with ⟨later, hfront, hrest⟩ | ⟨later, hfront, hrest⟩
  · exact ⟨later, hfront, hrest⟩
  · cases later with
    | nil =>
        refine ⟨[], ?_, hrest.symm⟩
        rw [hfront, List.append_nil, List.append_nil]
    | cons char later =>
        obtain ⟨rfl, -⟩ := List.cons_eq_cons.mp hrest
        exact absurd (hfront ▸ List.mem_append_right front List.mem_cons_self) hfirst

/-- Text without a bracket that begins what the substitution leaves begins the text itself. -/
theorem prefix_of_substitute (h : Scans cvvPattern before text pieces) {part : List Char}
    (hpart : '[' ∉ part) (hleads : part <+: substitute changeCvv pieces) : part <+: text := by
  induction h generalizing part with
  | done => exact hleads
  | @plain _ _ char _ _ _ ih =>
      rw [substitute_plain] at hleads
      cases part with
      | nil => exact List.nil_prefix
      | cons first part =>
          obtain ⟨rfl, hrest⟩ := List.cons_prefix_cons.mp hleads
          exact List.cons_prefix_cons.mpr
            ⟨rfl, ih (fun hmem => hpart (List.mem_cons_of_mem _ hmem)) hrest⟩
  | @found _ rest hit pieces hhit _ _ =>
      obtain ⟨front, value, -, -, htext, hchange⟩ := found_shape hhit
      rw [substitute_found, hchange] at hleads
      have hopen : part <+: front ++ ['"'] := by
        have hshape : front ++ '"' :: (redacted ++ ['"']) ++ substitute changeCvv pieces =
            (front ++ ['"']) ++ '[' :: ("redacted]".toList ++ ['"'] ++
              substitute changeCvv pieces) := by
          unfold redacted
          simp
        rw [hshape] at hleads
        exact prefix_of_not_mem hpart hleads
      rw [htext]
      refine hopen.trans ⟨value ++ '"' :: rest, ?_⟩
      simp

/-- What is left of a field after its first quote is not changed before its end. -/
theorem tail_prefix_substitute (h : Scans cvvPattern before text pieces) {front tail : List Char}
    (hfield : IsField (front ++ tail)) (hfront : front ≠ []) (hleads : tail <+: text) :
    tail <+: substitute changeCvv pieces := by
  induction h generalizing front tail with
  | done => exact hleads
  | @plain _ _ char _ _ _ ih =>
      rw [substitute_plain]
      cases tail with
      | nil => exact List.nil_prefix
      | cons first tail =>
          obtain ⟨rfl, hrest⟩ := List.cons_prefix_cons.mp hleads
          rw [List.append_cons] at hfield
          exact List.cons_prefix_cons.mpr ⟨rfl, ih hfield (by simp) hrest⟩
  | @found _ rest hit pieces hhit _ _ =>
      by_cases htail : tail = []
      · rw [htail]
        exact List.nil_prefix
      · -- a match can only begin at the closing quote, which it keeps
        obtain ⟨after, hafter⟩ := hleads
        have hbegins : hit.text <+: tail ++ after := by
          rw [hafter]
          exact List.prefix_append _ _
        have hover : tail = ['"'] :=
          hfield.overlap rfl hfront htail (isField_found hhit) hbegins
        rw [hover, substitute_found]
        obtain ⟨front, value, hopening, -, -, hchange⟩ := found_shape hhit
        obtain ⟨key, blank, space, -, -, -, hkey⟩ := hopening
        rw [hchange]
        cases front with
        | nil => exact ⟨_, rfl⟩
        | cons first front =>
            obtain ⟨rfl, -⟩ := List.cons_eq_cons.mp hkey
            exact ⟨_, rfl⟩

/-- A field that the substitution leaves opens at the closing quote of one that it changed. -/
theorem holdsOverlap_of_substitute (h : Scans cvvPattern before text pieces)
    (hfield : HoldsField (substitute changeCvv pieces)) : HoldsOverlap text := by
  induction h with
  | done =>
      obtain ⟨before, field, after, hempty, hfield⟩ := hfield
      obtain ⟨_, _, rfl, -⟩ := hfield.head
      simp [substitute] at hempty
  | @plain before rest char pieces hnone hrest ih =>
      obtain ⟨front, field, after, hwhole, hfield⟩ := hfield
      rw [substitute_plain] at hwhole
      cases front with
      | nil =>
          -- the field would have been found here
          have hleads : field <+: char :: substitute changeCvv pieces := ⟨after, hwhole.symm⟩
          have hbracket : '[' ∉ field := hfield.not_mem (by decide) (by decide) (by decide)
            (by decide) (by decide)
          have hhere : field <+: char :: rest :=
            prefix_of_substitute (.plain hnone hrest) hbracket hleads
          obtain ⟨hit, hhit⟩ := cvv_complete hfield hhere
          rw [hnone] at hhit
          cases hhit
      | cons first front =>
          obtain ⟨-, hlater⟩ := List.cons_eq_cons.mp hwhole
          exact (ih ⟨front, field, after, hlater, hfield⟩).append [char]
  | @found before rest hit pieces hhit hrest ih =>
      obtain ⟨front, field, after, hwhole, hfield⟩ := hfield
      obtain ⟨opening, value, hopening, hvalue, htext, hchange⟩ := found_shape hhit
      have hbracket : '[' ∉ field := hfield.not_mem (by decide) (by decide) (by decide)
        (by decide) (by decide)
      have hcut : (opening ++ ['"']) ++ (redacted ++ '"' :: substitute changeCvv pieces) =
          front ++ (field ++ after) := by
        rw [← List.append_assoc front, ← hwhole, substitute_found, hchange]
        simp
      rcases List.append_eq_append_iff.mp hcut with ⟨later, rfl, hlater⟩ | ⟨later, hopen, hlater⟩
      · -- the field begins after the opening, and so at or after the closing quote
        obtain ⟨first, tail, rfl, hfirst⟩ := hfield.head
        obtain ⟨skipped, rfl, hskipped⟩ := skip_before (show '"' ∉ redacted by decide) hlater
        cases skipped with
        | nil =>
            obtain ⟨-, htail⟩ := List.cons_eq_cons.mp hskipped
            have hbegins : first :: tail <+: rest :=
              prefix_of_substitute hrest (fun hmem => hbracket (List.mem_cons_of_mem _ hmem))
                ⟨after, htail.symm⟩
            obtain ⟨rest, rfl⟩ := hbegins
            refine ⟨[], (opening ++ ['"']) ++ value ++ '"' :: first :: tail, rest, ?_,
              opening ++ ['"'], value, first :: tail, hopening, hvalue, hfield, rfl⟩
            rw [htext]
            simp
        | cons char skipped =>
            obtain ⟨-, htail⟩ := List.cons_eq_cons.mp hskipped
            have hplace : substitute changeCvv pieces =
                skipped ++ ('"' :: first :: tail) ++ after := by
              rw [List.append_assoc]
              exact htail
            exact (ih ⟨skipped, '"' :: first :: tail, after, hplace, hfield⟩).append hit.text
      · -- a field has more quotes than an opening
        have hbegins : field <+: later := by
          have hnext : field <+: later ++ '[' :: ("redacted]".toList ++ '"' ::
              substitute changeCvv pieces) := ⟨after, hlater⟩
          exact prefix_of_not_mem hbracket hnext
        have hcount := hbegins.sublist.count_le '"'
        have htotal := hopening.count_quote
        rw [hopen, List.count_append] at htotal
        rw [hfield.count_quote] at hcount
        omega

/-- A field of which another one opens at the closing quote leaves a field. -/
theorem holdsField_changed {hit : Match} {front value tail : List Char} {pieces : List Piece}
    (hchange : changeCvv hit = front ++ '"' :: (value ++ ['"']))
    (hfield : IsField ('"' :: tail)) (htail : tail <+: substitute changeCvv pieces) :
    HoldsField (substitute changeCvv (.found hit :: pieces)) := by
  obtain ⟨after, hafter⟩ := htail
  refine ⟨front ++ '"' :: value, '"' :: tail, after, ?_, hfield⟩
  rw [substitute_found, hchange, ← hafter]
  simp

/-- Of two fields that overlap, the substitution leaves one. -/
theorem holdsField_substitute (h : Scans cvvPattern before text pieces)
    (hoverlap : HoldsOverlap text) : HoldsField (substitute changeCvv pieces) := by
  induction h with
  | done =>
      obtain ⟨before, overlap, after, hempty, opening, value, tail, -, -, -, rfl⟩ := hoverlap
      simp at hempty
  | @plain before rest char pieces hnone hrest ih =>
      obtain ⟨front, overlap, after, hwhole, hoverlap⟩ := hoverlap
      rw [substitute_plain]
      cases front with
      | nil =>
          obtain ⟨opening, value, tail, hopening, hvalue, -, rfl⟩ := hoverlap
          have hfield : IsField (opening ++ value ++ ['"']) :=
            ⟨opening, value, hopening, hvalue, rfl⟩
          have hhere : opening ++ value ++ ['"'] <+: char :: rest := by
            rw [hwhole]
            exact ⟨tail ++ after, by simp⟩
          obtain ⟨hit, hhit⟩ := cvv_complete hfield hhere
          rw [hnone] at hhit
          cases hhit
      | cons first front =>
          obtain ⟨-, hlater⟩ := List.cons_eq_cons.mp hwhole
          exact (ih ⟨front, overlap, after, hlater, hoverlap⟩).append [char]
  | @found before rest hit pieces hhit hrest ih =>
      obtain ⟨front, overlap, after, hwhole, opening, value, tail, hopening, hvalue, hsecond,
        rfl⟩ := hoverlap
      obtain ⟨start, _, -, -, -, hchange⟩ := found_shape hhit
      have hfirst : IsField (opening ++ value ++ ['"']) := ⟨opening, value, hopening, hvalue, rfl⟩
      rw [List.append_assoc] at hwhole
      rcases List.append_eq_append_iff.mp hwhole with ⟨later, rfl, hlater⟩ | ⟨later, htext, hlater⟩
      · exact (ih ⟨later, _, after, hlater.trans (List.append_assoc _ _ _).symm, opening, value,
          tail, hopening, hvalue, hsecond, rfl⟩).append _
      · have hbegins : opening ++ value ++ ['"'] <+: later ++ rest := by
          rw [← hlater]
          exact ⟨tail ++ after, by simp⟩
        by_cases hlate : later = []
        · rw [hlate, List.nil_append] at hlater
          exact (ih ⟨[], _, after, hlater.symm, opening, value, tail, hopening, hvalue, hsecond,
            rfl⟩).append _
        · by_cases hearly : front = []
          · -- the first of the two is the one that was found
            rw [hearly, List.nil_append] at htext
            have hsame : opening ++ value ++ ['"'] = later := by
              have hlast : IsField later := htext ▸ isField_found hhit
              rcases List.prefix_or_prefix_of_prefix hbegins (List.prefix_append later rest) with
                hshort | hshort
              · exact hfirst.eq_of_prefix hlast hshort
              · exact (hlast.eq_of_prefix hfirst hshort).symm
            have hrest' : rest = tail ++ after := by
              have hboth : later ++ rest = later ++ (tail ++ after) := by
                rw [← hlater, ← hsame]
                simp
              exact List.append_cancel_left hboth
            refine holdsField_changed hchange hsecond ?_
            exact tail_prefix_substitute hrest (show IsField (['"'] ++ tail) from hsecond)
              (List.cons_ne_nil _ _) ⟨after, hrest'.symm⟩
          · -- the first of the two opens at the closing quote of the one that was found
            have hquote : later = ['"'] :=
              (isField_found hhit).overlap htext hearly hlate hfirst hbegins
            obtain ⟨next, more, hnext, hnext'⟩ := hfirst.head
            rw [hquote, hnext] at hbegins
            have htail : next :: more <+: rest := (List.cons_prefix_cons.mp hbegins).2
            rw [hnext] at hfirst
            refine holdsField_changed hchange hfirst ?_
            exact tail_prefix_substitute hrest (show IsField (['"'] ++ (next :: more)) from hfirst)
              (List.cons_ne_nil _ _) htail

variable {words : WordChars}

theorem breaks_quote (words : WordChars) : Breaks words '"' :=
  breaks_of_ascii words (by decide) (by decide) (by decide)

/-- A change of values neither makes nor unmakes a card number. -/
theorem holdsCard_substitute_iff (h : Scans cvvPattern before text pieces) (front : List Char) :
    HoldsCard words (front ++ substitute changeCvv pieces) ↔ HoldsCard words (front ++ text) := by
  induction h generalizing front with
  | done => rfl
  | @plain _ rest char pieces _ _ ih =>
      rw [substitute_plain, List.append_cons, List.append_cons front char rest]
      exact ih (front ++ [char])
  | @found _ rest hit pieces hhit _ ih =>
      obtain ⟨opening, value, -, hvalue, htext, hchange⟩ := found_shape hhit
      have hbefore : front ++ substitute changeCvv (.found hit :: pieces) =
          (front ++ opening) ++ '"' :: (redacted ++ '"' :: substitute changeCvv pieces) := by
        rw [substitute_found, hchange]
        simp
      have hafter : front ++ (hit.text ++ rest) =
          (front ++ opening) ++ '"' :: (value ++ '"' :: rest) := by
        rw [htext]
        simp
      have hrest := ih []
      rw [List.nil_append, List.nil_append] at hrest
      rw [hbefore, hafter, holdsCard_append_cons (breaks_quote words),
        holdsCard_append_cons (breaks_quote words), holdsCard_append_cons (breaks_quote words),
        holdsCard_append_cons (breaks_quote words), hrest]
      have hredacted : ¬ HoldsCard words redacted := not_holdsCard_of_short (by decide)
      have hshort : ¬ HoldsCard words value :=
        not_holdsCard_of_short (Nat.lt_of_le_of_lt hvalue.2.1 (by decide))
      rw [or_iff_right hredacted, or_iff_right hshort]

/-- The substitution is idle exactly on a text without fields. -/
theorem substitute_eq_iff (h : Scans cvvPattern before text pieces) :
    substitute changeCvv pieces = text ↔ ¬ HoldsField text := by
  have hlength : text.length ≤ (substitute changeCvv pieces).length ∧
      (HoldsField text → text.length < (substitute changeCvv pieces).length) := by
    induction h with
    | done =>
        refine ⟨le_refl _, ?_⟩
        rintro ⟨before, field, after, hempty, hfield⟩
        obtain ⟨_, _, rfl, -⟩ := hfield.head
        simp at hempty
    | @plain before rest char pieces hnone hrest ih =>
        rw [substitute_plain, List.length_cons, List.length_cons]
        refine ⟨Nat.succ_le_succ ih.1, ?_⟩
        rintro ⟨front, field, after, hwhole, hfield⟩
        cases front with
        | nil =>
            obtain ⟨hit, hhit⟩ := cvv_complete hfield ⟨after, hwhole.symm⟩
            rw [hnone] at hhit
            cases hhit
        | cons first front =>
            obtain ⟨-, hlater⟩ := List.cons_eq_cons.mp hwhole
            exact Nat.succ_lt_succ (ih.2 ⟨front, field, after, hlater, hfield⟩)
    | @found before rest hit pieces hhit hrest ih =>
        obtain ⟨opening, value, -, hvalue, htext, hchange⟩ := found_shape hhit
        have hredacted : redacted.length = 10 := by decide
        have hvalue := hvalue.2.1
        have hmore : (hit.text ++ rest).length <
            (substitute changeCvv (.found hit :: pieces)).length := by
          rw [substitute_found, htext, hchange]
          simp only [List.length_append, List.length_cons, List.length_nil, hredacted]
          omega
        exact ⟨le_of_lt hmore, fun _ => hmore⟩
  constructor
  · intro hsame hfield
    have hlonger := hlength.2 hfield
    rw [hsame] at hlonger
    exact lt_irrefl _ hlonger
  · intro hnone
    clear hlength
    induction h with
    | done => rfl
    | @plain before rest char pieces _ _ ih =>
        rw [substitute_plain, ih fun hfield => hnone (hfield.append [char])]
    | @found before rest hit pieces hhit _ _ =>
        exact absurd ⟨[], hit.text, rest, rfl, isField_found hhit⟩ hnone

end

end PayzenoLedger
