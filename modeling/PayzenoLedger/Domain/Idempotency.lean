import PayzenoLedger.Errors
import Mathlib.Data.List.Basic

/-!
# Ledger idempotency keys

A key is `<purpose>:<scope>:<subject>`, built from the business fact.  No
component contains the separator, so equal keys come from equal components and a
key is read back as the triple it was built of.
-/

set_option autoImplicit false

namespace PayzenoLedger

def separator : Char := ':'

/-- Whether a key component contains the separator. -/
def hasSeparator (value : String) : Bool :=
  value.toList.any (· == separator)

/-- One component must be non-empty and free of the separator; a fee may omit
its subject. -/
def requireComponent (purpose name value : String) : Except Exception Unit :=
  if value = "" then
    if purpose = "fee" ∧ name = "subject" then .ok ()
    else .error (.valueError ("ledger key " ++ name ++ " component is empty"))
  else if hasSeparator value then
    .error (.valueError
      ("ledger key " ++ name ++ " component contains the separator ':'"))
  else .ok ()

/-- The id prefix only, not the body behind it. -/
def requirePrefix (value expected : String) : Except Exception Unit :=
  let actual := value.toList.takeWhile (· ≠ '_')
  if value.toList.any (· == '_') ∧ actual = expected.toList then .ok ()
  else
    .error (ledgerError .validationError "unexpected id prefix"
      [("details", .object [("value", .text value), ("expected", .text expected),
        ("actual", .text (String.ofList actual))])])

/-- `_STRICT_KEY_SHAPES`: only `settle` is held to its id prefixes. -/
def strictKeyShape (purpose : String) : Option (String × String) :=
  if purpose = "settle" then some ("sb", "ri") else none

/-- Build the deterministic `<purpose>:<scope_id>:<subject_id>` key. -/
def ledgerKey (purpose scopeId : String) (subjectId : String := "") :
    Except Exception String := do
  requireComponent purpose "purpose" purpose
  requireComponent purpose "scope" scopeId
  requireComponent purpose "subject" subjectId
  match strictKeyShape purpose with
  | none => pure ()
  | some (scopePrefix, subjectPrefix) =>
      requirePrefix scopeId scopePrefix
      requirePrefix subjectId subjectPrefix
  pure (purpose ++ ":" ++ scopeId ++ ":" ++ subjectId)

/-- Split a ledger key back into purpose, scope and subject. -/
def parseKey (key : String) : Except Exception (String × String × String) :=
  let malformed := ledgerError .validationError "malformed ledger key"
    [("details", .object [("key", .text key)])]
  match (key.toList.splitOn separator).map String.ofList with
  | [purpose, scopeId, subjectId] =>
      if purpose = "" ∨ scopeId = "" then .error malformed else .ok (purpose, scopeId, subjectId)
  | _ => .error malformed

/-- The identifiers that are cut from a key: `ledger_key(…)[:26]`. -/
def cutKey (key : String) : String :=
  String.ofList (key.toList.take 26)

/-! ## Which triples have a key -/

/-- The triples that have a key. -/
structure KeyComponents (purpose scopeId subjectId : String) : Prop where
  separators : separator ∉ purpose.toList ∧ separator ∉ scopeId.toList ∧
    separator ∉ subjectId.toList
  purposeGiven : purpose ≠ ""
  scopeGiven : scopeId ≠ ""
  subject : subjectId = "" → purpose = "fee"
  prefixes : purpose = "settle" →
    ['s', 'b', '_'] <+: scopeId.toList ∧ ['r', 'i', '_'] <+: subjectId.toList

theorem hasSeparator_eq_false {value : String} :
    hasSeparator value = false ↔ separator ∉ value.toList := by
  unfold hasSeparator
  rw [List.any_eq_false]
  constructor
  · intro h hmem
    exact h separator hmem (beq_self_eq_true separator)
  · rintro h char hmem hchar
    exact h (beq_iff_eq.mp hchar ▸ hmem)

theorem requireComponent_ok {purpose name value : String}
    (h : requireComponent purpose name value = .ok ()) : hasSeparator value = false := by
  unfold requireComponent at h
  split at h
  · next hempty => rw [hempty]; rfl
  · split at h
    · cases h
    · next hseparator => simpa using hseparator

theorem requireComponent_eq_ok {purpose name value : String} :
    requireComponent purpose name value = .ok () ↔
      separator ∉ value.toList ∧ (value = "" → purpose = "fee" ∧ name = "subject") := by
  rw [← hasSeparator_eq_false]
  constructor
  · intro h
    refine ⟨requireComponent_ok h, fun hempty => ?_⟩
    unfold requireComponent at h
    rw [if_pos hempty] at h
    split at h
    · next hfee => exact hfee
    · cases h
  · rintro ⟨hseparator, hempty⟩
    unfold requireComponent
    split
    · next hvalue => exact if_pos (hempty hvalue)
    · rw [hseparator]
      rfl

/-- What stands before the first underscore, when there is one. -/
theorem takeWhile_eq_iff_prefix {expected : List Char} (hplain : '_' ∉ expected)
    (value : List Char) :
    ((value.any (· == '_')) = true ∧ value.takeWhile (· ≠ '_') = expected) ↔
      expected ++ ['_'] <+: value := by
  induction expected generalizing value with
  | nil =>
      cases value with
      | nil => simp
      | cons char value =>
          by_cases hchar : char = '_'
          · subst hchar
            simp
          · simp [hchar, Ne.symm hchar]
  | cons first expected ih =>
      rw [List.mem_cons, not_or] at hplain
      obtain ⟨hfirst, hrest⟩ := hplain
      cases value with
      | nil => simp
      | cons char value =>
          rw [List.cons_append, List.cons_prefix_cons, ← ih hrest]
          by_cases hchar : char = '_'
          · subst hchar
            simp [Ne.symm hfirst]
          · rw [List.any_cons, List.takeWhile_cons_of_pos (by simpa using hchar), List.cons.injEq,
              beq_false_of_ne hchar, Bool.false_or, eq_comm (a := char), and_left_comm]

theorem requirePrefix_eq_ok {value expected : String} (hplain : '_' ∉ expected.toList) :
    requirePrefix value expected = .ok () ↔ expected.toList ++ ['_'] <+: value.toList := by
  rw [← takeWhile_eq_iff_prefix hplain]
  unfold requirePrefix
  dsimp only
  split
  · next h => exact iff_of_true rfl h
  · next h => exact iff_of_false (fun herror => by cases herror) h

/-- Two checks in a row. -/
theorem check_eq_ok {α : Type} {first : Except Exception Unit} {next : Except Exception α}
    {result : α} : (first >>= fun _ => next) = .ok result ↔ first = .ok () ∧ next = .ok result := by
  cases first with
  | error raised =>
      constructor
      · intro h
        cases h
      · rintro ⟨h, -⟩
        cases h
  | ok value =>
      constructor
      · intro h
        exact ⟨rfl, h⟩
      · rintro ⟨-, h⟩
        exact h

/-- A triple has a key exactly when every component is as it has to be. -/
theorem ledgerKey_eq_ok (purpose scopeId subjectId key : String) :
    ledgerKey purpose scopeId subjectId = .ok key ↔
      KeyComponents purpose scopeId subjectId ∧
        purpose ++ ":" ++ scopeId ++ ":" ++ subjectId = key := by
  have hshape : ledgerKey purpose scopeId subjectId = .ok key ↔
      requireComponent purpose "purpose" purpose = .ok () ∧
      requireComponent purpose "scope" scopeId = .ok () ∧
      requireComponent purpose "subject" subjectId = .ok () ∧
      (purpose = "settle" → requirePrefix scopeId "sb" = .ok () ∧
        requirePrefix subjectId "ri" = .ok ()) ∧
      purpose ++ ":" ++ scopeId ++ ":" ++ subjectId = key := by
    unfold ledgerKey strictKeyShape
    rw [check_eq_ok, check_eq_ok, check_eq_ok]
    by_cases hsettle : purpose = "settle"
    · rw [if_pos hsettle, forall_prop_of_true hsettle, and_assoc]
      simp only [check_eq_ok]
      exact Iff.and Iff.rfl (Iff.and Iff.rfl (Iff.and Iff.rfl (Iff.and Iff.rfl (Iff.and Iff.rfl
        ⟨Except.ok.inj, congrArg Except.ok⟩))))
    · rw [if_neg hsettle]
      simp only [hsettle, false_implies, true_and]
      exact Iff.and Iff.rfl (Iff.and Iff.rfl (Iff.and Iff.rfl
        ⟨Except.ok.inj, congrArg Except.ok⟩))
  rw [hshape, requireComponent_eq_ok, requireComponent_eq_ok, requireComponent_eq_ok,
    requirePrefix_eq_ok (by decide), requirePrefix_eq_ok (by decide)]
  constructor
  · rintro ⟨⟨hpurpose, hnamed⟩, ⟨hscope, hscoped⟩, ⟨hsubject, hfee⟩, hprefixes, hkey⟩
    refine ⟨⟨⟨hpurpose, hscope, hsubject⟩, fun h => ?_, fun h => ?_, fun h => (hfee h).1,
      hprefixes⟩, hkey⟩
    · exact absurd (hnamed h).2 (by decide)
    · exact absurd (hscoped h).2 (by decide)
  · rintro ⟨accepted, hkey⟩
    obtain ⟨hpurpose, hscope, hsubject⟩ := accepted.separators
    exact ⟨⟨hpurpose, fun h => absurd h accepted.purposeGiven⟩,
      ⟨hscope, fun h => absurd h accepted.scopeGiven⟩,
      ⟨hsubject, fun h => ⟨accepted.subject h, rfl⟩⟩, accepted.prefixes, hkey⟩

/-- A key built is its components, none of which contains the separator. -/
theorem ledgerKey_ok {purpose scopeId subjectId key : String}
    (h : ledgerKey purpose scopeId subjectId = .ok key) :
    key = purpose ++ ":" ++ scopeId ++ ":" ++ subjectId ∧
      hasSeparator purpose = false ∧ hasSeparator scopeId = false ∧
      hasSeparator subjectId = false := by
  obtain ⟨accepted, hkey⟩ := (ledgerKey_eq_ok _ _ _ _).mp h
  obtain ⟨hpurpose, hscope, hsubject⟩ := accepted.separators
  exact ⟨hkey.symm, hasSeparator_eq_false.mpr hpurpose, hasSeparator_eq_false.mpr hscope,
    hasSeparator_eq_false.mpr hsubject⟩

/-! ## A key is read back -/

/-- The components of a triple without separators are read back from its text. -/
theorem splitOn_key {purpose scopeId subjectId : String}
    (hpurpose : separator ∉ purpose.toList) (hscope : separator ∉ scopeId.toList)
    (hsubject : separator ∉ subjectId.toList) :
    (purpose ++ ":" ++ scopeId ++ ":" ++ subjectId).toList.splitOn separator =
      [purpose.toList, scopeId.toList, subjectId.toList] := by
  have hcolon : (":" : String).toList = [separator] := rfl
  simp only [String.toList_append, hcolon, List.append_assoc, List.cons_append,
    List.nil_append]
  rw [List.splitOn_append_cons_self_of_not_mem hpurpose,
    List.splitOn_append_cons_self_of_not_mem hscope, List.splitOn_eq_singleton hsubject]

/-- No part of a text that is split has the separator. -/
theorem not_mem_of_mem_splitOn {α : Type} [DecidableEq α] {mark : α} {text part : List α}
    (h : part ∈ text.splitOn mark) : mark ∉ part := by
  induction text generalizing part with
  | nil =>
      rw [List.splitOn_nil, List.mem_singleton] at h
      rw [h]
      exact List.not_mem_nil
  | cons char text ih =>
      rw [List.splitOn_cons_eq_if_modifyHead] at h
      split at h
      · rcases List.mem_cons.mp h with rfl | hpart
        · exact List.not_mem_nil
        · exact ih hpart
      · next hchar =>
          obtain ⟨first, parts, hparts⟩ :=
            List.exists_cons_of_ne_nil (List.splitOn_ne_nil mark text)
          rw [hparts] at h ih
          rcases List.mem_cons.mp h with rfl | hpart
          · rw [List.mem_cons, not_or]
            exact ⟨fun heq => hchar (beq_iff_eq.mpr heq.symm), ih List.mem_cons_self⟩
          · exact ih (List.mem_cons_of_mem _ hpart)

theorem parseKey_eq_ok (key purpose scopeId subjectId : String) :
    parseKey key = .ok (purpose, scopeId, subjectId) ↔
      separator ∉ purpose.toList ∧ separator ∉ scopeId.toList ∧ separator ∉ subjectId.toList ∧
        purpose ≠ "" ∧ scopeId ≠ "" ∧ purpose ++ ":" ++ scopeId ++ ":" ++ subjectId = key := by
  constructor
  · intro h
    unfold parseKey at h
    dsimp only at h
    split at h
    · next purpose' scopeId' subjectId' hparts =>
        split at h
        · cases h
        · next hgiven =>
            rw [not_or] at hgiven
            simp only [Except.ok.injEq, Prod.mk.injEq] at h
            obtain ⟨rfl, rfl, rfl⟩ := h
            obtain ⟨first, second, third, hsplit, rfl, rfl, rfl⟩ :
                ∃ first second third, key.toList.splitOn separator = [first, second, third] ∧
                  String.ofList first = purpose' ∧ String.ofList second = scopeId' ∧
                  String.ofList third = subjectId' := by
              simpa [List.map_eq_cons_iff, and_assoc] using hparts
            have hplain (part) (hpart : part ∈ [first, second, third]) : separator ∉ part :=
              not_mem_of_mem_splitOn (hsplit ▸ hpart)
            have hkey : List.intercalate [separator] (key.toList.splitOn separator) = key.toList :=
              List.intercalate_splitOn separator
            rw [hsplit] at hkey
            simp only [String.toList_ofList]
            refine ⟨hplain _ (by simp), hplain _ (by simp), hplain _ (by simp), hgiven.1, hgiven.2,
              String.toList_inj.mp ?_⟩
            rw [← hkey]
            simp [separator, List.intercalate]
    · cases h
  · rintro ⟨hpurpose, hscope, hsubject, hpurposeGiven, hscopeGiven, rfl⟩
    unfold parseKey
    rw [splitOn_key hpurpose hscope hsubject]
    simp only [List.map_cons, List.map_nil, String.ofList_toList]
    exact if_neg (not_or.mpr ⟨hpurposeGiven, hscopeGiven⟩)

/-- A key is read back as the triple it was built of. -/
theorem parseKey_of_ledgerKey {purpose scopeId subjectId key : String}
    (h : ledgerKey purpose scopeId subjectId = .ok key) :
    parseKey key = .ok (purpose, scopeId, subjectId) := by
  obtain ⟨accepted, hkey⟩ := (ledgerKey_eq_ok _ _ _ _).mp h
  obtain ⟨hpurpose, hscope, hsubject⟩ := accepted.separators
  exact (parseKey_eq_ok _ _ _ _).mpr
    ⟨hpurpose, hscope, hsubject, accepted.purposeGiven, accepted.scopeGiven, hkey⟩

theorem ledgerKey_injective {purpose scopeId subjectId purpose' scopeId' subjectId' key : String}
    (h : ledgerKey purpose scopeId subjectId = .ok key)
    (h' : ledgerKey purpose' scopeId' subjectId' = .ok key) :
    purpose = purpose' ∧ scopeId = scopeId' ∧ subjectId = subjectId' := by
  have hsame := Except.ok.inj ((parseKey_of_ledgerKey h).symm.trans (parseKey_of_ledgerKey h'))
  simpa using hsame

/-- A key that is built is read back as its triple, so two triples never share a key; the
triples with a key are told by their components; and a key that is read, of another purpose
than `settle` and with a subject, is the key of what is read. -/
theorem ledger_keys_unambiguous :
    (∀ purpose scopeId subjectId key, ledgerKey purpose scopeId subjectId = .ok key →
      parseKey key = .ok (purpose, scopeId, subjectId)) ∧
    (∀ (first second : String × String × String) key,
      ledgerKey first.1 first.2.1 first.2.2 = .ok key →
      ledgerKey second.1 second.2.1 second.2.2 = .ok key → first = second) ∧
    (∀ purpose scopeId subjectId, (∃ key, ledgerKey purpose scopeId subjectId = .ok key) ↔
      KeyComponents purpose scopeId subjectId) ∧
    ∀ key purpose scopeId subjectId, parseKey key = .ok (purpose, scopeId, subjectId) →
      purpose ≠ "settle" → subjectId ≠ "" → ledgerKey purpose scopeId subjectId = .ok key := by
  refine ⟨fun _ _ _ _ h => parseKey_of_ledgerKey h, ?_, ?_, ?_⟩
  · intro first second key hfirst hsecond
    obtain ⟨hpurpose, hscope, hsubject⟩ := ledgerKey_injective hfirst hsecond
    exact Prod.ext hpurpose (Prod.ext hscope hsubject)
  · intro purpose scopeId subjectId
    constructor
    · rintro ⟨key, h⟩
      exact ((ledgerKey_eq_ok _ _ _ _).mp h).1
    · intro accepted
      exact ⟨_, (ledgerKey_eq_ok _ _ _ _).mpr ⟨accepted, rfl⟩⟩
  · intro key purpose scopeId subjectId h hsettle hsubjectGiven
    obtain ⟨hpurpose, hscope, hsubject, hpurposeGiven, hscopeGiven, hkey⟩ :=
      (parseKey_eq_ok _ _ _ _).mp h
    exact (ledgerKey_eq_ok _ _ _ _).mpr ⟨⟨⟨hpurpose, hscope, hsubject⟩, hpurposeGiven,
      hscopeGiven, fun h => absurd h hsubjectGiven, fun h => absurd h hsettle⟩, hkey⟩

/-! ## No key is built of a cut key -/

theorem requireComponent_separator {purpose name value : String}
    (h : hasSeparator value = true) :
    requireComponent purpose name value =
      .error (.valueError
        ("ledger key " ++ name ++ " component contains the separator ':'")) := by
  have hne : value ≠ "" := by
    rintro rfl
    cases h
  unfold requireComponent
  rw [if_neg hne, if_pos h]

theorem requireComponent_error {purpose name value : String} {raised : Exception}
    (h : requireComponent purpose name value = .error raised) :
    ∃ message, raised = .valueError message := by
  unfold requireComponent at h
  split at h
  · split at h
    · cases h
    · cases h
      exact ⟨_, rfl⟩
  · split at h
    · cases h
      exact ⟨_, rfl⟩
    · cases h

/-- A component with the separator is refused, whatever the others are. -/
theorem ledgerKey_separator (purpose scopeId subjectId : String)
    (h : hasSeparator scopeId = true ∨ hasSeparator subjectId = true) :
    ∃ message, ledgerKey purpose scopeId subjectId = .error (.valueError message) := by
  unfold ledgerKey
  cases hpurpose : requireComponent purpose "purpose" purpose with
  | error raised =>
      obtain ⟨message, rfl⟩ := requireComponent_error hpurpose
      exact ⟨message, rfl⟩
  | ok _ =>
      cases hscope : requireComponent purpose "scope" scopeId with
      | error raised =>
          obtain ⟨message, rfl⟩ := requireComponent_error hscope
          exact ⟨message, rfl⟩
      | ok _ =>
          rcases h with h | h
          · rw [requireComponent_separator h] at hscope
            cases hscope
          · rw [requireComponent_separator h]
            exact ⟨_, rfl⟩

/-- The cut keeps the first separator of a key with a short purpose. -/
theorem hasSeparator_cutKey {purpose scopeId subjectId key : String}
    (h : ledgerKey purpose scopeId subjectId = .ok key) (hshort : purpose.length < 26) :
    hasSeparator (cutKey key) = true := by
  obtain ⟨rfl, -⟩ := ledgerKey_ok h
  have hlength : purpose.toList.length < 26 := hshort
  unfold hasSeparator cutKey
  rw [String.toList_ofList, List.any_eq_true]
  refine ⟨separator, ?_, by simp⟩
  simp only [String.toList_append]
  have hcolon : (":" : String).toList = [separator] := rfl
  rw [hcolon, List.append_assoc, List.append_assoc, List.append_assoc, List.take_append]
  refine List.mem_append_right _ ?_
  obtain ⟨count, hcount⟩ : ∃ count, 26 - purpose.toList.length = count + 1 :=
    ⟨25 - purpose.toList.length, by omega⟩
  rw [hcount]
  simp

end PayzenoLedger
