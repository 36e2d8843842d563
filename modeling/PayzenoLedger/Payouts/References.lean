import PayzenoLedger.Library.Digits
import PayzenoLedger.Payouts.Arrivals

/-!
# The references of the rails

A reference is cut from the identifier of the payout: the last seven digits of it for a
trace number, the last eighteen or sixteen characters otherwise.  A debit pull is referred to
by the end of its merchant, the month and the day, so neither the currency nor the year tells
two pulls apart.
-/

set_option autoImplicit false

namespace PayzenoLedger

open Library

/-! ## Identifiers -/

/-- The alphabet of a ULID. -/
def crockford : List Char := "0123456789ABCDEFGHJKMNPQRSTVWXYZ".toList

/-- An identifier as it is minted: a prefix of small letters, an underscore and a ULID. -/
structure Minted (id : String) (kind body : List Char) : Prop where
  text : id.toList = kind ++ '_' :: body
  letters : ∀ char ∈ kind, char.isLower = true
  length : body.length = 26
  alphabet : ∀ char ∈ body, char ∈ crockford

theorem minted_of {id : String} {kind body : List Char} (text : id.toList = kind ++ '_' :: body)
    (letters : kind.all Char.isLower = true) (length : body.length = 26)
    (alphabet : (body.all fun char => crockford.contains char) = true) :
    Minted id kind body where
  text := text
  letters := List.all_eq_true.mp letters
  length := length
  alphabet := fun char hchar =>
    List.contains_iff_mem.mp (List.all_eq_true.mp alphabet char hchar)

theorem toUpper_of_mem {char : Char} (h : char ∈ crockford) : char.toUpper = char := by
  have hall : crockford.all (fun char => char.toUpper == char) = true := by decide
  exact beq_iff_eq.mp (List.all_eq_true.mp hall char h)

theorem ne_separator_of_mem {char : Char} (h : char ∈ crockford) : char ≠ separator := by
  have hall : crockford.all (fun char => char != separator) = true := by decide
  exact bne_iff_ne.mp (List.all_eq_true.mp hall char h)

variable {id : String} {kind body : List Char} {count : Nat}

/-- The end of an identifier is the end of its ULID. -/
theorem Minted.lastChars (minted : Minted id kind body) (hcount : count ≤ 26) :
    lastChars count id.toList = body.drop (26 - count) := by
  unfold PayzenoLedger.lastChars
  rw [minted.text, List.length_append, List.length_cons, minted.length]
  have hsplit : kind.length + (26 + 1) - count = kind.length + 1 + (26 - count) := by omega
  have hkind : kind ++ '_' :: body = (kind ++ ['_']) ++ body := by simp
  rw [hsplit, ← List.drop_drop, hkind]
  congr 1
  exact List.drop_left' (by simp)

/-- Upper-casing the end of an identifier changes nothing. -/
theorem Minted.upper (minted : Minted id kind body) (hcount : count ≤ 26) :
    (String.ofList (PayzenoLedger.lastChars count id.toList)).toUpper.toList =
      PayzenoLedger.lastChars count id.toList := by
  unfold String.toUpper
  rw [String.toList_map, String.toList_ofList]
  have hmap : ∀ char ∈ PayzenoLedger.lastChars count id.toList, char.toUpper = char := by
    intro char hchar
    rw [minted.lastChars hcount] at hchar
    exact toUpper_of_mem (minted.alphabet char (List.mem_of_mem_drop hchar))
  rw [List.map_congr_left hmap, List.map_id']

/-! ## The references of payouts -/

namespace PayoutInitiator

variable {cutoffs : PayoutCutoffs} {calendar : BankingCalendar} {rail : Rail}
  {payout payout' : Payout} {bank : BankAccountProjection} {submittedAt : Instant}
  {result : InitiationResult}

/-- The number that the trace number ends in. -/
def traceSequence (payout : Payout) : Nat :=
  Nat.ofDigitChars 10 (lastChars 7 (payout.id.toList.filter Char.isDigit)) 0

/-- What has to differ between two payouts for their references to. -/
def ToldApart (rail : Rail) (payout payout' : Payout) : Prop :=
  match rail with
  | .standardAch => traceSequence payout ≠ traceSequence payout'
  | .sameDayAch =>
      (sameDayLimitMinor < payout.amountMinor ↔ sameDayLimitMinor < payout'.amountMinor) →
        traceSequence payout ≠ traceSequence payout'
  | .sepa => lastChars 18 payout.id.toList ≠ lastChars 18 payout'.id.toList
  | .fasterPayments => lastChars 16 payout.id.toList ≠ lastChars 16 payout'.id.toList

def reference (rail : Rail) (payout : Payout) : String :=
  match rail with
  | .standardAch => buildReference payout
  | .sameDayAch =>
      if sameDayLimitMinor < payout.amountMinor then buildReference payout
      else "SDA" ++ buildReference payout
  | .sepa => sepaReference payout
  | .fasterPayments => fasterPaymentsReference payout

theorem reference_of_initiate
    (h : initiate cutoffs calendar rail payout bank submittedAt = .ok result) :
    result.railReference = reference rail payout := by
  have hach {rail : Rail}
      (h : initiateAch cutoffs calendar rail payout bank submittedAt = .ok result) :
      result.railReference = buildReference payout := by
    simp only [initiateAch, bind, Except.bind, pure, Except.pure] at h
    split at h
    · cases h
    · split at h
      · cases h
      · split at h
        · cases h
        · cases h
          rfl
  cases rail with
  | standardAch => exact hach h
  | sameDayAch =>
      simp only [initiate, initiateSameDayAch, bind, Except.bind, pure, Except.pure] at h
      split at h
      · cases h
      · unfold reference
        dsimp only
        by_cases hlimit : sameDayLimitMinor < payout.amountMinor
        · rw [if_pos hlimit] at h ⊢
          exact hach h
        · rw [if_neg hlimit] at h ⊢
          split at h
          · cases h
          · cases h
            rfl
  | sepa =>
      simp only [initiate, initiateSepa, bind, Except.bind, pure, Except.pure] at h
      split at h
      · cases h
      · split at h
        · cases h
        · split at h
          · cases h
          · split at h
            · cases h
            · split at h
              · cases h
              · cases h
                rfl
  | fasterPayments =>
      simp only [initiate, initiateFasterPayments, bind, Except.bind, pure, Except.pure] at h
      split at h
      · cases h
      · split at h
        · cases h
        · split at h
          · cases h
          · split at h
            · cases h
            · cases h
              rfl

theorem buildReference_inj :
    buildReference payout = buildReference payout' ↔
      traceSequence payout = traceSequence payout' := by
  have hshort (payout : Payout) :
      (lastChars 7 (payout.id.toList.filter Char.isDigit)).length ≤ 7 := by
    unfold lastChars
    rw [List.length_drop]
    omega
  have hdigits (payout : Payout) :
      AllDigits (lastChars 7 (payout.id.toList.filter Char.isDigit)) :=
    fun char hchar => (List.mem_filter.mp (List.mem_of_mem_drop hchar)).2
  unfold buildReference traceSequence rjust
  rw [← String.toList_inj, String.toList_append, String.toList_append,
    List.append_cancel_left_eq, String.toList_ofList, String.toList_ofList]
  constructor
  · intro h
    have hnumbers := congrArg (Nat.ofDigitChars 10 · 0) h
    simpa only [ofDigitChars_zeros] using hnumbers
  · intro h
    apply ofDigitChars_injective
    · exact (allDigits_replicate_zero _).append (hdigits payout)
    · exact (allDigits_replicate_zero _).append (hdigits payout')
    · have := hshort payout
      have := hshort payout'
      simp only [List.length_append, List.length_replicate]
      omega
    · rw [ofDigitChars_zeros, ofDigitChars_zeros]
      exact h

theorem reference_ne_iff {kind body kind' body' : List Char} (minted : Minted payout.id kind body)
    (minted' : Minted payout'.id kind' body') :
    reference rail payout ≠ reference rail payout' ↔ ToldApart rail payout payout' := by
  have hcut {count : Nat} (hcount : count ≤ 26) (mark : String) :
      mark ++ (String.ofList (lastChars count payout.id.toList)).toUpper =
          mark ++ (String.ofList (lastChars count payout'.id.toList)).toUpper ↔
        lastChars count payout.id.toList = lastChars count payout'.id.toList := by
    rw [← String.toList_inj, String.toList_append, String.toList_append,
      List.append_cancel_left_eq, minted.upper hcount, minted'.upper hcount]
  have hmarked (payout payout' : Payout) :
      buildReference payout ≠ "SDA" ++ buildReference payout' := by
    intro h
    have hlists := congrArg (fun text => text.toList.head?) h
    unfold buildReference odfiPrefix at hlists
    simp at hlists
  cases rail with
  | standardAch => exact not_congr buildReference_inj
  | sameDayAch =>
      unfold reference ToldApart
      dsimp only
      by_cases hfirst : sameDayLimitMinor < payout.amountMinor
      · by_cases hsecond : sameDayLimitMinor < payout'.amountMinor
        · simp only [hfirst, hsecond, if_true, forall_const]
          exact not_congr buildReference_inj
        · simp only [hfirst, hsecond, if_true, if_false, iff_false, not_true_eq_false,
            false_implies, iff_true]
          exact hmarked payout payout'
      · by_cases hsecond : sameDayLimitMinor < payout'.amountMinor
        · simp only [hfirst, hsecond, if_true, if_false, iff_true, false_implies]
          exact (hmarked payout' payout).symm
        · simp only [hfirst, hsecond, if_false, forall_const]
          refine (not_congr ?_).trans (not_congr buildReference_inj)
          rw [← String.toList_inj, String.toList_append, String.toList_append,
            List.append_cancel_left_eq, String.toList_inj]
  | sepa => exact not_congr (hcut (by decide) "PZN")
  | fasterPayments => exact not_congr (hcut (by decide) "FPS")

end PayoutInitiator

/-! ## The references of debit pulls -/

/-- A date in two digits for each part. -/
theorem padded_two {value : Nat} (h : value < 100) :
    (padded 2 value).toList.length = 2 ∧ AllDigits (padded 2 value).toList ∧
      Nat.ofDigitChars 10 (padded 2 value).toList 0 = value := by
  have hlist : (padded 2 value).toList =
      List.replicate (2 - (toString value).length) '0' ++ Nat.toDigits 10 value := by
    unfold padded
    rw [String.toList_append, String.toList_ofList, Nat.toString_eq_repr, Nat.toList_repr]
  have hlength : (toString value).length = (Nat.toDigits 10 value).length := by
    rw [← String.length_toList, Nat.toString_eq_repr, Nat.toList_repr]
  have hshort : (Nat.toDigits 10 value).length ≤ 2 :=
    (Nat.length_toDigits_le_iff (by decide) (by decide)).mpr h
  rw [hlist]
  constructor
  · rw [List.length_append, List.length_replicate, hlength]
    omega
  · constructor
    · exact (allDigits_replicate_zero _).append (allDigits_toDigits value)
    · rw [ofDigitChars_zeros, Nat.ofDigitChars_ten_toDigits]

/-- What is left of a day of its era when the years are taken off. -/
theorem dayOfYear_lt {day year : Nat} (h : day < 146097)
    (hyear : year = (day - day / 1460 + day / 36524 - day / 146096) / 365) :
    day - (365 * year + year / 4 - year / 100) < 1000 := by
  omega

theorem civil_small (date : Date) : (Date.civil date).2.1 < 100 ∧ (Date.civil date).2.2 < 100 := by
  have hera (date : Nat) : (date + 719468) % 146097 < 146097 := Nat.mod_lt _ (by decide)
  have hfew := dayOfYear_lt (hera date) rfl
  unfold Date.civil
  dsimp only
  constructor
  · split <;> omega
  · omega

namespace AchPayoutPuller

/-- What a pull is asked for, and the day it takes effect. -/
structure DebitPull where
  merchantId : String
  currency : String
  effective : Date
deriving DecidableEq

def DebitPull.reference (pull : DebitPull) : String :=
  railReference pull.merchantId pull.effective

def DebitPull.key (pull : DebitPull) : Except Exception String :=
  pullKey pull.merchantId pull.effective

/-- The ends of the merchants, the months or the days differ. -/
def DebitPull.ToldApart (pull pull' : DebitPull) : Prop :=
  lastChars 10 pull.merchantId.toList ≠ lastChars 10 pull'.merchantId.toList ∨
    (Date.civil pull.effective).2 ≠ (Date.civil pull'.effective).2

theorem monthDay_spec (effective : Date) :
    (monthDay effective).toList.length = 4 ∧ AllDigits (monthDay effective).toList := by
  obtain ⟨hmonth, hday⟩ := civil_small effective
  obtain ⟨hmonthLength, hmonthDigits, -⟩ := padded_two hmonth
  obtain ⟨hdayLength, hdayDigits, -⟩ := padded_two hday
  unfold monthDay
  rw [String.toList_append]
  constructor
  · rw [List.length_append, hmonthLength, hdayLength]
  · exact hmonthDigits.append hdayDigits

theorem monthDay_inj {effective effective' : Date} :
    monthDay effective = monthDay effective' ↔
      (Date.civil effective).2 = (Date.civil effective').2 := by
  constructor
  · intro h
    obtain ⟨hmonth, hday⟩ := civil_small effective
    obtain ⟨hmonth', hday'⟩ := civil_small effective'
    obtain ⟨hlength, -, hvalue⟩ := padded_two hmonth
    obtain ⟨hlength', -, hvalue'⟩ := padded_two hmonth'
    have hlists := congrArg String.toList h
    unfold monthDay at hlists
    rw [String.toList_append, String.toList_append] at hlists
    obtain ⟨hmonths, hdays⟩ := List.append_inj hlists (hlength.trans hlength'.symm)
    apply Prod.ext
    · rw [← hvalue, ← hvalue', hmonths]
    · rw [← (padded_two hday).2.2, ← (padded_two hday').2.2, hdays]
  · intro h
    unfold monthDay
    rw [h]

variable {pull pull' : DebitPull} {kind body kind' body' : List Char}

theorem reference_inj (minted : Minted pull.merchantId kind body)
    (minted' : Minted pull'.merchantId kind' body') :
    pull.reference = pull'.reference ↔
      lastChars 10 pull.merchantId.toList = lastChars 10 pull'.merchantId.toList ∧
        (Date.civil pull.effective).2 = (Date.civil pull'.effective).2 := by
  unfold DebitPull.reference railReference
  rw [← String.toList_inj, String.toList_append, String.toList_append, String.toList_append,
    String.toList_append, List.append_assoc, List.append_assoc, List.append_cancel_left_eq,
    minted.upper (by decide), minted'.upper (by decide), ← monthDay_inj, ← String.toList_inj]
  constructor
  · intro h
    exact List.append_inj' h ((monthDay_spec _).1.trans (monthDay_spec _).1.symm)
  · rintro ⟨hmerchant, hday⟩
    rw [hmerchant, hday]

/-- A pull of a minted merchant has a key. -/
theorem key_ok (minted : Minted pull.merchantId kind body) :
    ∃ key, pull.key = .ok key := by
  have hkind : ∀ char : Char, char.isLower = true → char ≠ separator := by
    rintro char hlower rfl
    cases hlower
  have hdigit : ∀ char : Char, char.isDigit = true → char ≠ separator := by
    rintro char hdigit rfl
    cases hdigit
  have hmark : ∀ char ∈ "DR".toList, char ≠ separator := by
    have hall : "DR".toList.all (fun char => char != separator) = true := by decide
    exact fun char hchar => bne_iff_ne.mp (List.all_eq_true.mp hall char hchar)
  have hmerchant : hasSeparator pull.merchantId = false := by
    rw [hasSeparator_eq_false, minted.text]
    intro hchar
    rcases List.mem_append.mp hchar with hchar | hchar
    · exact hkind _ (minted.letters _ hchar) rfl
    · rcases List.mem_cons.mp hchar with hmark | hchar
      · cases hmark
      · exact ne_separator_of_mem (minted.alphabet _ hchar) rfl
  have hreference : hasSeparator (railReference pull.merchantId pull.effective) = false := by
    rw [hasSeparator_eq_false]
    unfold railReference
    rw [String.toList_append, String.toList_append, minted.upper (by decide),
      minted.lastChars (by decide)]
    intro hchar
    rcases List.mem_append.mp hchar with hchar | hchar
    · rcases List.mem_append.mp hchar with hchar | hchar
      · exact hmark _ hchar rfl
      · exact ne_separator_of_mem (minted.alphabet _ (List.mem_of_mem_drop hchar)) rfl
    · exact hdigit _ ((monthDay_spec _).2 _ hchar) rfl
  have hnonempty : pull.merchantId ≠ "" := by
    intro hempty
    have htext := minted.text
    rw [hempty] at htext
    simp at htext
  have hsubject : railReference pull.merchantId pull.effective ≠ "" := by
    intro hempty
    have hlist := congrArg String.toList hempty
    unfold railReference at hlist
    simp at hlist
  unfold DebitPull.key pullKey ledgerKey
  simp only [requireComponent, hmerchant, hreference, if_neg hnonempty, if_neg hsubject]
  exact ⟨_, rfl⟩

theorem pulls_ne_iff (minted : Minted pull.merchantId kind body)
    (minted' : Minted pull'.merchantId kind' body') :
    (pull.reference ≠ pull'.reference ∧ pull.key ≠ pull'.key) ↔ pull.ToldApart pull' := by
  have hkeys : pull.reference ≠ pull'.reference → pull.key ≠ pull'.key := by
    intro hne hsame
    obtain ⟨key, hkey⟩ := key_ok minted
    have hkey' := hsame ▸ hkey
    exact hne (ledgerKey_injective hkey hkey').2.2
  unfold DebitPull.ToldApart
  rw [← not_and_or, ← reference_inj minted minted']
  exact ⟨fun h => h.1, fun h => ⟨h, hkeys h⟩⟩

end AchPayoutPuller

open PayoutInitiator AchPayoutPuller in
/-- Payouts of a rail and debit pulls are told apart by their references just when the ends of
their identifiers do it, and for pulls the month or the day. -/
theorem references_identify_iff {cutoffs : PayoutCutoffs} {calendar : BankingCalendar}
    {rail : Rail} {payout payout' : Payout} {bank bank' : BankAccountProjection}
    {submittedAt submittedAt' : Instant} {result result' : InitiationResult}
    {pull pull' : DebitPull} {body body' kind kind' merchant merchant' : List Char}
    (minted : Minted payout.id "po".toList body) (minted' : Minted payout'.id "po".toList body')
    (h : initiate cutoffs calendar rail payout bank submittedAt = .ok result)
    (h' : initiate cutoffs calendar rail payout' bank' submittedAt' = .ok result')
    (pulled : Minted pull.merchantId kind merchant)
    (pulled' : Minted pull'.merchantId kind' merchant') :
    (result.railReference ≠ result'.railReference ↔ PayoutInitiator.ToldApart rail payout payout') ∧
      ((pull.reference ≠ pull'.reference ∧ pull.key ≠ pull'.key) ↔ pull.ToldApart pull') := by
  constructor
  · rw [reference_of_initiate h, reference_of_initiate h']
    exact reference_ne_iff minted minted'
  · exact pulls_ne_iff pulled pulled'

namespace ReferenceSample

open PayoutInitiator AchPayoutPuller

/-- A payout whose ULID differs in its last letter only. -/
def sibling : Payout :=
  { ArrivalSample.payout with id := "po_01K4A2B3C4D5E6F7G8H9J0KMNQ" }

/-- A payout whose ULID differs in a digit. -/
def later : Payout :=
  { ArrivalSample.payout with id := "po_01K4A2B3C4D5E6F7G8H9J1KMNP" }

def merchantId : String := "mch_01K4A2B3C4D5E6F7G8H9J0KMNR"

def pull : DebitPull := ⟨merchantId, "USD", 20515⟩

/-- The same merchant and day in another currency. -/
def inEuro : DebitPull := ⟨merchantId, "EUR", 20515⟩

/-- The same merchant a day later. -/
def nextDay : DebitPull := ⟨merchantId, "USD", 20516⟩

theorem minted_payout :
    Minted ArrivalSample.payout.id "po".toList "01K4A2B3C4D5E6F7G8H9J0KMNP".toList :=
  minted_of (by decide) (by decide) (by decide) (by decide)

theorem minted_later : Minted later.id "po".toList "01K4A2B3C4D5E6F7G8H9J1KMNP".toList :=
  minted_of (by decide) (by decide) (by decide) (by decide)

theorem minted_merchant : Minted merchantId "mch".toList "01K4A2B3C4D5E6F7G8H9J0KMNR".toList :=
  minted_of (by decide) (by decide) (by decide) (by decide)

end ReferenceSample

open PayoutInitiator AchPayoutPuller ReferenceSample ArrivalSample in
/-- A digit among the last seven tells two payouts apart, and the day two pulls. -/
theorem digits_tell_apart : buildReference payout ≠ buildReference later ∧
    pull.reference ≠ nextDay.reference ∧ pull.key ≠ nextDay.key := by
  have hpayout : initiate {} {} .standardAch payout bank (submitted 20514 600) =
      .ok ⟨buildReference payout, 20515, submitted 20514 600⟩ := rfl
  have hlater : initiate {} {} .standardAch later bank (submitted 20514 600) =
      .ok ⟨buildReference later, 20515, submitted 20514 600⟩ := rfl
  obtain ⟨hpayouts, hpulls⟩ := references_identify_iff minted_payout minted_later
    hpayout hlater (show Minted pull.merchantId _ _ from minted_merchant)
    (show Minted nextDay.merchantId _ _ from minted_merchant)
  constructor
  · exact hpayouts.mpr (show traceSequence payout ≠ traceSequence later by decide)
  · exact hpulls.mpr (.inr (by decide))

open PayoutInitiator AchPayoutPuller ReferenceSample ArrivalSample in
/-- Two payouts have one trace number, and the pulls of two currencies one key. -/
theorem references_shared : (∃ result result',
    initiate {} {} .standardAch payout bank (submitted 20514 600) = .ok result ∧
    initiate {} {} .standardAch sibling bank (submitted 20514 600) = .ok result' ∧
    payout.id ≠ sibling.id ∧ result.railReference = result'.railReference) ∧
    pull ≠ inEuro ∧ pull.reference = inEuro.reference ∧ pull.key = inEuro.key := by
  constructor
  · exact ⟨_, _, rfl, rfl, by decide, by decide⟩
  · exact ⟨by decide, rfl, rfl⟩

end PayzenoLedger
