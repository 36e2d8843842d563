import Mathlib.Data.List.Basic

/-!
# Regular expressions

Backtracking matching: from a place in a text an expression has a list of ends, the preferred
one first, and repetition prefers more.  A scan takes the first end from each place, leftmost
first and without overlap, and a substitution rewrites what the scan finds.
-/

set_option autoImplicit false

namespace PayzenoLedger.Library

inductive Regex where
  | empty
  | one (test : Char → Bool)
  /-- A place where a word begins or ends. -/
  | boundary (isWord : Char → Bool)
  | seq (first second : Regex)
  | alt (first second : Regex)
  | rep (least most : Nat) (body : Regex)
  /-- Any number of a body that is not empty. -/
  | star (body : Regex)
  | group (index : Nat) (body : Regex)

namespace Regex

/-- A place in a text: what is before it, the nearest character first, what is after it, and
the groups that have been captured. -/
@[ext]
structure Place where
  before : List Char
  after : List Char
  groups : List (Nat × List Char) := []

/-- The place after some of the characters that follow. -/
def Place.advance (place : Place) (text : List Char) : Place where
  before := text.reverse ++ place.before
  after := place.after.drop text.length
  groups := place.groups

def wordAt (isWord : Char → Bool) : Option Char → Bool
  | none => false
  | some char => isWord char

def repeatEnds (body : Place → List Place) : Nat → Nat → Place → List Place
  | 0, 0, place => [place]
  | _ + 1, 0, _ => []
  | 0, most + 1, place => (body place).flatMap (repeatEnds body 0 most) ++ [place]
  | least + 1, most + 1, place => (body place).flatMap (repeatEnds body least most)

/-- Where a match from a place may end, in the order of preference. -/
def ends : Regex → Place → List Place
  | .empty, place => [place]
  | .one test, place =>
      match place.after with
      | [] => []
      | char :: _ => if test char then [place.advance [char]] else []
  | .boundary isWord, place =>
      if wordAt isWord place.before.head? = wordAt isWord place.after.head? then [] else [place]
  | .seq first second, place => (first.ends place).flatMap second.ends
  | .alt first second, place => first.ends place ++ second.ends place
  | .rep least most body, place => repeatEnds body.ends least most place
  | .star body, place => repeatEnds body.ends 0 place.after.length place
  | .group index body, place =>
      (body.ends place).map fun last =>
        let text := place.after.take (place.after.length - last.after.length)
        { last with groups := (index, text) :: last.groups }

structure Match where
  text : List Char
  groups : List (Nat × List Char)

/-- What a group captured. -/
def Match.group (hit : Match) (index : Nat) : List Char :=
  (hit.groups.lookup index).getD []

/-- The preferred match at a place. One of no characters is none. -/
def firstMatch (regex : Regex) (before after : List Char) : Option Match :=
  match regex.ends { before, after } with
  | [] => none
  | last :: _ =>
      match after.take (after.length - last.after.length) with
      | [] => none
      | char :: text => some { text := char :: text, groups := last.groups }

inductive Piece where
  | plain (char : Char)
  | found (hit : Match)

def Piece.text : Piece → List Char
  | .plain char => [char]
  | .found hit => hit.text

/-- The pieces of a text of which some characters belong to a match already. -/
def scanFrom (regex : Regex) : List Char → Nat → List Char → List Piece
  | _, _, [] => []
  | before, skip + 1, char :: rest => scanFrom regex (char :: before) skip rest
  | before, 0, char :: rest =>
      match regex.firstMatch before (char :: rest) with
      | none => .plain char :: scanFrom regex (char :: before) 0 rest
      | some hit => .found hit :: scanFrom regex (char :: before) (hit.text.length - 1) rest

def scan (regex : Regex) (text : List Char) : List Piece :=
  regex.scanFrom [] 0 text

def substitute (change : Match → List Char) (pieces : List Piece) : List Char :=
  pieces.flatMap fun
    | .plain char => [char]
    | .found hit => change hit

/-- `re.sub`. -/
def sub (regex : Regex) (change : Match → List Char) (text : List Char) : List Char :=
  substitute change (regex.scan text)

/-! ## Expressions without context -/

/-- The texts of an expression. -/
def lang : Regex → List Char → Prop
  | .empty, text => text = []
  | .one test, text => ∃ char, test char = true ∧ text = [char]
  | .boundary _, _ => False
  | .seq first second, text => ∃ left right, first.lang left ∧ second.lang right ∧
      text = left ++ right
  | .alt first second, text => first.lang text ∨ second.lang text
  | .rep least most body, text => ∃ texts : List (List Char), least ≤ texts.length ∧
      texts.length ≤ most ∧ (∀ text ∈ texts, body.lang text) ∧ text = texts.flatten
  | .star body, text => ∃ texts : List (List Char), (∀ text ∈ texts, body.lang text) ∧
      text = texts.flatten
  | .group _ _, _ => False

/-- An expression without boundaries and groups, that repeats no empty text without end. -/
def Plain : Regex → Prop
  | .empty | .one _ => True
  | .boundary _ | .group _ _ => False
  | .seq first second | .alt first second => first.Plain ∧ second.Plain
  | .rep _ _ body => body.Plain
  | .star body => body.Plain ∧ ¬ body.lang []

theorem Place.advance_nil (place : Place) : place.advance [] = place := rfl

theorem Place.advance_append (place : Place) (left right : List Char) :
    place.advance (left ++ right) = (place.advance left).advance right := by
  unfold advance
  rw [List.reverse_append, List.append_assoc, List.length_append, List.drop_drop]

theorem prefix_append_iff {left right text : List Char} :
    left ++ right <+: text ↔ left <+: text ∧ right <+: text.drop left.length := by
  constructor
  · rintro ⟨rest, rfl⟩
    rw [List.append_assoc, List.drop_left]
    exact ⟨List.prefix_append _ _, List.prefix_append _ _⟩
  · rintro ⟨⟨rest, rfl⟩, hright⟩
    rw [List.drop_left] at hright
    exact (List.prefix_append_right_inj left).mpr hright

/-- Repetition goes through the body between `least` and `most` times. -/
theorem mem_repeatEnds {body : Place → List Place} {test : List Char → Prop}
    (hbody : ∀ place last, last ∈ body place ↔
      ∃ text, test text ∧ text <+: place.after ∧ last = place.advance text)
    (least most : Nat) (place last : Place) :
    last ∈ repeatEnds body least most place ↔
      ∃ texts : List (List Char), least ≤ texts.length ∧ texts.length ≤ most ∧
        (∀ text ∈ texts, test text) ∧ texts.flatten <+: place.after ∧
          last = place.advance texts.flatten := by
  have hmore (least most : Nat) (place : Place)
      (ih : ∀ place, last ∈ repeatEnds body least most place ↔
        ∃ texts : List (List Char), least ≤ texts.length ∧ texts.length ≤ most ∧
          (∀ text ∈ texts, test text) ∧ texts.flatten <+: place.after ∧
            last = place.advance texts.flatten) :
      last ∈ (body place).flatMap (repeatEnds body least most) ↔
        ∃ text texts, least ≤ texts.length ∧ texts.length ≤ most ∧
          (∀ each ∈ text :: texts, test each) ∧ (text :: texts).flatten <+: place.after ∧
            last = place.advance (text :: texts).flatten := by
    rw [List.mem_flatMap]
    constructor
    · rintro ⟨middle, hmiddle, hlast⟩
      obtain ⟨text, htext, hleads, rfl⟩ := (hbody place middle).mp hmiddle
      obtain ⟨texts, hleast, hmost, htexts, hrest, rfl⟩ := (ih _).mp hlast
      refine ⟨text, texts, hleast, hmost, List.forall_mem_cons.mpr ⟨htext, htexts⟩, ?_, ?_⟩
      · exact prefix_append_iff.mpr ⟨hleads, hrest⟩
      · rw [List.flatten_cons, Place.advance_append]
    · rintro ⟨text, texts, hleast, hmost, htexts, hleads, rfl⟩
      obtain ⟨htext, htexts⟩ := List.forall_mem_cons.mp htexts
      obtain ⟨hleads, hrest⟩ := prefix_append_iff.mp hleads
      refine ⟨place.advance text, (hbody _ _).mpr ⟨text, htext, hleads, rfl⟩, ?_⟩
      refine (ih _).mpr ⟨texts, hleast, hmost, htexts, hrest, ?_⟩
      rw [List.flatten_cons, Place.advance_append]
  induction most generalizing least place with
  | zero =>
      cases least with
      | zero =>
          unfold repeatEnds
          rw [List.mem_singleton]
          constructor
          · rintro rfl
            exact ⟨[], Nat.le_refl _, Nat.le_refl _, by simp, List.nil_prefix,
              (Place.advance_nil _).symm⟩
          · rintro ⟨texts, -, hmost, -, -, rfl⟩
            rw [List.length_eq_zero_iff.mp (Nat.le_zero.mp hmost)]
            exact place.advance_nil
      | succ least =>
          unfold repeatEnds
          refine iff_of_false List.not_mem_nil ?_
          rintro ⟨texts, hleast, hmost, -⟩
          omega
  | succ most ih =>
      cases least with
      | zero =>
          unfold repeatEnds
          rw [List.mem_append, List.mem_singleton, hmore 0 most place fun place => ih 0 place]
          constructor
          · rintro (⟨text, texts, hleast, hmost, hrest⟩ | rfl)
            · exact ⟨text :: texts, Nat.zero_le _, Nat.succ_le_succ hmost, hrest⟩
            · exact ⟨[], Nat.zero_le _, Nat.zero_le _, by simp, List.nil_prefix,
                (Place.advance_nil _).symm⟩
          · rintro ⟨texts, hleast, hmost, hrest⟩
            cases texts with
            | nil => exact .inr (hrest.2.2.trans place.advance_nil)
            | cons text texts =>
                exact .inl ⟨text, texts, Nat.zero_le _, Nat.le_of_succ_le_succ hmost, hrest⟩
      | succ least =>
          unfold repeatEnds
          rw [hmore least most place fun place => ih least place]
          constructor
          · rintro ⟨text, texts, hleast, hmost, hrest⟩
            exact ⟨text :: texts, Nat.succ_le_succ hleast, Nat.succ_le_succ hmost, hrest⟩
          · rintro ⟨texts, hleast, hmost, hrest⟩
            cases texts with
            | nil => cases hleast
            | cons text texts =>
                exact ⟨text, texts, Nat.le_of_succ_le_succ hleast,
                  Nat.le_of_succ_le_succ hmost, hrest⟩

theorem length_le_length_flatten {texts : List (List Char)} (h : ∀ text ∈ texts, text ≠ []) :
    texts.length ≤ texts.flatten.length := by
  induction texts with
  | nil => exact Nat.le_refl _
  | cons text texts ih =>
      obtain ⟨htext, htexts⟩ := List.forall_mem_cons.mp h
      have hpos := List.length_pos_iff.mpr htext
      have hrest := ih htexts
      rw [List.flatten_cons, List.length_append, List.length_cons]
      omega

/-- An expression without context ends after each of its texts that follow. -/
theorem mem_ends_iff {regex : Regex} (hplain : regex.Plain) (place last : Place) :
    last ∈ regex.ends place ↔
      ∃ text, regex.lang text ∧ text <+: place.after ∧ last = place.advance text := by
  induction regex generalizing place last with
  | empty =>
      unfold ends lang
      rw [List.mem_singleton]
      constructor
      · rintro rfl
        exact ⟨[], rfl, List.nil_prefix, (Place.advance_nil _).symm⟩
      · rintro ⟨text, rfl, -, rfl⟩
        exact place.advance_nil
  | one test =>
      unfold ends lang
      cases hafter : place.after with
      | nil =>
          refine iff_of_false List.not_mem_nil ?_
          rintro ⟨text, ⟨char, -, rfl⟩, hleads, -⟩
          cases List.prefix_nil.mp hleads
      | cons char rest =>
          dsimp only
          constructor
          · intro hlast
            split at hlast
            · next htest =>
                rw [List.mem_singleton.mp hlast]
                exact ⟨[char], ⟨char, htest, rfl⟩, ⟨rest, rfl⟩, rfl⟩
            · cases hlast
          · rintro ⟨text, ⟨other, htest, rfl⟩, hleads, rfl⟩
            obtain ⟨rfl, -⟩ := List.cons_prefix_cons.mp hleads
            rw [if_pos htest]
            exact List.mem_singleton.mpr rfl
  | boundary isWord => cases hplain
  | seq first second hfirst hsecond =>
      unfold ends lang
      rw [List.mem_flatMap]
      constructor
      · rintro ⟨middle, hmiddle, hlast⟩
        obtain ⟨left, hleft, hleads, rfl⟩ := (hfirst hplain.1 _ _).mp hmiddle
        obtain ⟨right, hright, hrest, rfl⟩ := (hsecond hplain.2 _ _).mp hlast
        exact ⟨left ++ right, ⟨left, right, hleft, hright, rfl⟩,
          prefix_append_iff.mpr ⟨hleads, hrest⟩, (place.advance_append left right).symm⟩
      · rintro ⟨text, ⟨left, right, hleft, hright, rfl⟩, hleads, rfl⟩
        obtain ⟨hleads, hrest⟩ := prefix_append_iff.mp hleads
        exact ⟨place.advance left, (hfirst hplain.1 _ _).mpr ⟨left, hleft, hleads, rfl⟩,
          (hsecond hplain.2 _ _).mpr ⟨right, hright, hrest, place.advance_append left right⟩⟩
  | alt first second hfirst hsecond =>
      unfold ends lang
      rw [List.mem_append, hfirst hplain.1, hsecond hplain.2, ← exists_or]
      exact exists_congr fun text => or_and_right.symm
  | rep least most body ih =>
      unfold ends lang
      rw [mem_repeatEnds (ih hplain)]
      constructor
      · rintro ⟨texts, hleast, hmost, htexts, hleads, rfl⟩
        exact ⟨_, ⟨texts, hleast, hmost, htexts, rfl⟩, hleads, rfl⟩
      · rintro ⟨text, ⟨texts, hleast, hmost, htexts, rfl⟩, hleads, rfl⟩
        exact ⟨texts, hleast, hmost, htexts, hleads, rfl⟩
  | star body ih =>
      unfold ends lang
      rw [mem_repeatEnds (ih hplain.1)]
      constructor
      · rintro ⟨texts, -, -, htexts, hleads, rfl⟩
        exact ⟨_, ⟨texts, htexts, rfl⟩, hleads, rfl⟩
      · rintro ⟨text, ⟨texts, htexts, rfl⟩, hleads, rfl⟩
        have hlength := length_le_length_flatten fun text htext => by
          rintro rfl
          exact hplain.2 (htexts _ htext)
        exact ⟨texts, Nat.zero_le _, Nat.le_trans hlength hleads.length_le, htexts, hleads, rfl⟩
  | group index body => cases hplain

theorem mem_ends_boundary {isWord : Char → Bool} {place last : Place} :
    last ∈ (Regex.boundary isWord).ends place ↔
      ¬ wordAt isWord place.before.head? = wordAt isWord place.after.head? ∧ last = place := by
  unfold ends
  split
  · next h => exact iff_of_false List.not_mem_nil fun hlast => hlast.1 h
  · next h =>
      rw [List.mem_singleton]
      exact (and_iff_right h).symm

theorem take_sub_drop {text after : List Char} (h : text <+: after) :
    after.take (after.length - (after.drop text.length).length) = text := by
  obtain ⟨rest, rfl⟩ := h
  rw [List.drop_left, List.length_append, Nat.add_sub_cancel, List.take_left]

/-- A group captures the text of its body. -/
theorem mem_ends_group {index : Nat} {body : Regex} (hplain : body.Plain) {place last : Place} :
    last ∈ (Regex.group index body).ends place ↔
      ∃ text, body.lang text ∧ text <+: place.after ∧
        last = { place.advance text with groups := (index, text) :: place.groups } := by
  unfold ends
  rw [List.mem_map]
  constructor
  · rintro ⟨middle, hmiddle, rfl⟩
    obtain ⟨text, htext, hleads, rfl⟩ := (mem_ends_iff hplain _ _).mp hmiddle
    refine ⟨text, htext, hleads, ?_⟩
    have hcapture := take_sub_drop hleads
    unfold Place.advance
    rw [hcapture]
  · rintro ⟨text, htext, hleads, rfl⟩
    refine ⟨place.advance text, (mem_ends_iff hplain _ _).mpr ⟨text, htext, hleads, rfl⟩, ?_⟩
    have hcapture := take_sub_drop hleads
    unfold Place.advance
    rw [hcapture]

/-! ## Scanning -/

/-- The pieces of a text that follows other text. -/
inductive Scans (regex : Regex) : List Char → List Char → List Piece → Prop where
  | done {before : List Char} : Scans regex before [] []
  | plain {before rest : List Char} {char : Char} {pieces : List Piece}
      (hnone : regex.firstMatch before (char :: rest) = none)
      (hrest : Scans regex (char :: before) rest pieces) :
      Scans regex before (char :: rest) (.plain char :: pieces)
  | found {before rest : List Char} {hit : Match} {pieces : List Piece}
      (hhit : regex.firstMatch before (hit.text ++ rest) = some hit)
      (hrest : Scans regex (hit.text.reverse ++ before) rest pieces) :
      Scans regex before (hit.text ++ rest) (.found hit :: pieces)

section

variable {regex : Regex} {before after : List Char} {hit : Match}

/-- A match is one of the ends, and it has characters. -/
theorem firstMatch_eq_some (h : regex.firstMatch before after = some hit) :
    ∃ last ∈ regex.ends { before, after },
      hit.text = after.take (after.length - last.after.length) ∧ hit.text ≠ [] ∧
        hit.groups = last.groups := by
  unfold firstMatch at h
  cases hends : regex.ends { before, after } with
  | nil =>
      rw [hends] at h
      cases h
  | cons last others =>
      rw [hends] at h
      dsimp only at h
      cases htext : after.take (after.length - last.after.length) with
      | nil =>
          rw [htext] at h
          cases h
      | cons char text =>
          rw [htext] at h
          cases h
          exact ⟨last, List.mem_cons_self, htext.symm, List.cons_ne_nil _ _, rfl⟩

theorem prefix_of_firstMatch (h : regex.firstMatch before after = some hit) :
    hit.text <+: after := by
  obtain ⟨last, -, htext, -⟩ := firstMatch_eq_some h
  rw [htext]
  exact List.take_prefix _ _

/-- Where every end has characters before it, an end is enough for a match. -/
theorem exists_firstMatch (hends : regex.ends { before, after } ≠ [])
    (hshorter : ∀ last ∈ regex.ends { before, after }, last.after.length < after.length) :
    ∃ hit, regex.firstMatch before after = some hit := by
  unfold firstMatch
  cases h : regex.ends { before, after } with
  | nil => exact absurd h hends
  | cons last others =>
      have hlast := hshorter last (h ▸ List.mem_cons_self)
      dsimp only
      cases htext : after.take (after.length - last.after.length) with
      | nil =>
          have hlength := congrArg List.length htext
          rw [List.length_take, List.length_nil] at hlength
          omega
      | cons char text => exact ⟨_, rfl⟩

variable (regex) in
/-- The characters that belong to a match are passed over. -/
theorem scanFrom_skip (before : List Char) (skip : Nat) (text : List Char) :
    regex.scanFrom before skip text =
      regex.scanFrom ((text.take skip).reverse ++ before) 0 (text.drop skip) := by
  induction text generalizing before skip with
  | nil =>
      rw [List.drop_nil]
      unfold scanFrom
      rfl
  | cons char rest ih =>
      cases skip with
      | zero => rfl
      | succ skip =>
          rw [List.take_succ_cons, List.drop_succ_cons, List.reverse_cons, List.append_assoc]
          conv_lhs => unfold scanFrom
          exact ih (char :: before) skip

variable (regex) in
theorem scans_scanFrom (before text : List Char) :
    Scans regex before text (regex.scanFrom before 0 text) := by
  induction hlength : text.length using Nat.strongRecOn generalizing before text with
  | ind length ih =>
      cases text with
      | nil =>
          unfold scanFrom
          exact .done
      | cons char rest =>
          unfold scanFrom
          cases hfirst : regex.firstMatch before (char :: rest) with
          | none => exact .plain hfirst (ih rest.length (by simp at hlength; omega) _ _ rfl)
          | some hit =>
              obtain ⟨last, -, -, hne, -⟩ := firstMatch_eq_some hfirst
              obtain ⟨after, hafter⟩ := prefix_of_firstMatch hfirst
              obtain ⟨first, text, htext⟩ := List.exists_cons_of_ne_nil hne
              rw [htext, List.cons_append] at hafter
              obtain ⟨rfl, rfl⟩ := List.cons_eq_cons.mp hafter
              have hrest := ih after.length (by simp at hlength; omega)
                (hit.text.reverse ++ before) after rfl
              have hscan : regex.scanFrom (first :: before) (hit.text.length - 1)
                  (text ++ after) = regex.scanFrom (hit.text.reverse ++ before) 0 after := by
                rw [scanFrom_skip, htext, List.length_cons, Nat.add_sub_cancel, List.take_left,
                  List.drop_left, List.reverse_cons, List.append_assoc]
                rfl
              dsimp only
              rw [hscan]
              have hwhole : first :: (text ++ after) = hit.text ++ after := by
                rw [htext, List.cons_append]
              rw [hwhole] at hfirst ⊢
              exact .found hfirst hrest

variable (regex) in
theorem scans_scan (text : List Char) : Scans regex [] text (regex.scan text) :=
  scans_scanFrom regex [] text

/-- The pieces make up the text. -/
theorem Scans.flatMap_text {text : List Char} {pieces : List Piece}
    (h : Scans regex before text pieces) : pieces.flatMap Piece.text = text := by
  induction h with
  | done => rfl
  | plain _ _ ih =>
      rw [List.flatMap_cons, ih]
      rfl
  | found _ _ ih =>
      rw [List.flatMap_cons, ih]
      rfl

end

end Regex

end PayzenoLedger.Library
