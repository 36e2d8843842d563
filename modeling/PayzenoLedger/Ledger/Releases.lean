import PayzenoLedger.Ledger.Posts
import PayzenoLedger.Ledger.Written
import PayzenoLedger.Services.Reserves

/-!
# Which holds a lone pass can release

A hold that waits is released just when its two keys can be built, its amount is positive, its
release has not been posted and neither account of it is shut.
-/

set_option autoImplicit false

namespace PayzenoLedger

open Library

namespace ReserveService

/-- The ledger takes the release of the hold. -/
structure Releasable (hold : ReserveHold) (view : Database) : Prop where
  positive : 0 < hold.amountMinor
  unposted : ∃ key, ledgerKey "reserverelease" hold.merchantId hold.id = .ok key ∧
    Schema.holders (S := schema) Table.ledgerTransaction (.idempotency key) view = []
  fingerprint : ∃ fingerprint,
    ledgerKey "reservereleasefp" hold.id hold.releaseOn.isoformat = .ok fingerprint
  reserve : ¬ AccountShut (some hold.merchantId) .reserve hold.currency hold.livemode view
  payable : ¬ AccountShut (some hold.merchantId) .merchantPayable hold.currency hold.livemode view

variable {settings : Settings} {hold : ReserveHold} {view : Database} {past : List Choice}

theorem normalBalance_releaseRequest (hold : ReserveHold) (idempotencyKey fingerprint : String) :
    ∀ line ∈ (releaseRequest hold idempotencyKey fingerprint).lines,
      line.accountType.normalBalance ≠ none := by
  intro line hline
  simp only [releaseRequest, List.mem_cons, List.not_mem_nil, or_false] at hline
  rcases hline with rfl | rfl
  · exact Option.some_ne_none _
  · exact Option.some_ne_none _

theorem sparing_books {types : List String} {write : Write schema} (books : Books types write) :
    Sparing (Y := system) Table.reserveHold write := by
  cases write with
  | insert table row =>
      cases table <;> first | exact books.elim | exact fun h => by cases h
  | update table key change immutable =>
      cases table <;> first | exact books.elim | exact fun h => by cases h

/-- A lone pass reads the hold. -/
theorem attains_readHold (unique : Schema.Unique (S := schema) view) (hhold : hold ∈ view.holds)
    {next : ReserveHold → Async Bool} {ok : Bool → List Choice → Database → Prop}
    {error : Exception → List Choice → Database → Prop} {missing : Exception}
    (h : ∀ past', attains (Y := system) freshIds (next hold) ok error past' view) :
    attains (Y := system) freshIds
      (Async.getOrRaise .reserveHold (.hold hold.id) missing >>= next) ok error past view := by
  have hkey : Key.hold hold.id ∈ Table.reserveHold.keys hold := List.mem_cons_self
  refine attains_bind (Async.attains_getOrRaise orderly_freshIds ⟨hold, hhold, hkey⟩
    fun choice row hrow hheld => ?_)
  have hsame : row = hold :=
    unique.eq_of_key Table.reserveHold (.hold hold.id) hrow hhold hheld hkey
  rw [hsame]
  exact h _

/-- The pass gets over a hold that is released, and over one that can be. -/
theorem attains_releaseOne_passes (unique : Schema.Unique (S := schema) view)
    (headed : Headed view) (hhold : hold ∈ view.holds)
    (hreleasable : hold.releasedTransactionId = none → Releasable hold view) :
    attains (Y := system) freshIds (releaseOne settings hold.id) (fun _ _ view' => Headed view')
      (fun _ _ _ => False) past view := by
  refine attains_readHold unique hhold fun past' => ?_
  split
  · exact attains_pure headed
  · next hunreleased =>
      have releasable := hreleasable (by simpa using hunreleased)
      obtain ⟨key, hkey, hunposted⟩ := releasable.unposted
      obtain ⟨fingerprint, hfingerprint⟩ := releasable.fingerprint
      refine attains_bind (Async.attains_check hkey ?_)
      refine attains_bind (Async.attains_check hfingerprint ?_)
      let request := releaseRequest hold key (settings.sha256 (.text fingerprint))
      have postable : LedgerPoster.Postable request view := by
        constructor
        · exact balanced_transfer.mpr releasable.positive
        · exact normalBalance_releaseRequest hold _ _
        · intro line hline
          simp only [request, releaseRequest, List.mem_cons, List.not_mem_nil, or_false] at hline
          rcases hline with rfl | rfl
          · exact .of_not_shut unique releasable.reserve
          · exact .of_not_shut unique releasable.payable
        · exact headed
      have hposted : attains (Y := system) freshIds (LedgerPoster.post request)
          (fun _ _ view' => Headed view') (fun _ _ _ => False) past' view :=
        LedgerPoster.attains_post_of orderly_freshIds (.inr hunposted) postable
          fun _ _ _ headed' => headed'
      have hbooks : Raising.Confined (Books ["ledger.transaction_posted"])
          (LedgerPoster.post request) :=
        (LedgerPoster.inward_post List.mem_cons_self request).confined
      have hspared := hposted.spared (hbooks.mono fun _ books => sparing_books books)
      refine attains_bind (attains_mono hspared ?_ fun _ _ _ => id)
      rintro posted past₁ view₁ ⟨headed₁, hholds⟩
      have hheld : (Schema.holders (S := schema) Table.reserveHold (.hold hold.id)
          view₁).head? = some hold := by
        have hsame : Schema.holders (S := schema) Table.reserveHold (.hold hold.id) view₁ =
            Schema.holders (S := schema) Table.reserveHold (.hold hold.id) view :=
          congrArg (List.filter _) hholds
        rw [hsame, unique.holders_eq (Schema.mem_holders.mpr ⟨hhold, List.mem_cons_self⟩)]
        rfl
      refine attains_bind (Async.attains_update orderly_freshIds hheld rfl fun choice => ?_)
      exact attains_pure (headed₁.of_eq rfl rfl)

/-- A hold that waits and cannot be released raises. -/
theorem attains_releaseOne_raises (unique : Schema.Unique (S := schema) view)
    (hhold : hold ∈ view.holds) (hunreleased : hold.releasedTransactionId = none)
    (hreleasable : ¬ Releasable hold view) :
    attains (Y := system) freshIds (releaseOne settings hold.id) (fun _ _ _ => False)
      (fun _ _ _ => True) past view := by
  refine attains_readHold unique hhold fun past' => ?_
  rw [hunreleased, if_neg (by simp)]
  cases hkey : ledgerKey "reserverelease" hold.merchantId hold.id with
  | error raised => exact attains_bind (Async.attains_check_error rfl trivial)
  | ok key =>
      refine attains_bind (Async.attains_check rfl ?_)
      cases hfingerprint : ledgerKey "reservereleasefp" hold.id hold.releaseOn.isoformat with
      | error raised => exact attains_bind (Async.attains_check_error rfl trivial)
      | ok fingerprint =>
          refine attains_bind (Async.attains_check rfl ?_)
          refine attains_bind ?_
          by_cases hpositive : 0 < hold.amountMinor
          · by_cases hunposted : Schema.holders (S := schema) Table.ledgerTransaction
                (.idempotency key) view = []
            · refine LedgerPoster.attains_post_shut orderly_freshIds hunposted
                (normalBalance_releaseRequest hold _ _) ?_ fun _ _ _ => trivial
              by_contra hopen
              refine hreleasable ⟨hpositive, ⟨key, hkey, hunposted⟩, ⟨fingerprint, hfingerprint⟩,
                fun hshut => ?_, fun hshut => ?_⟩
              · exact hopen ⟨debit .reserve hold.amountMinor, by simp [releaseRequest], hshut⟩
              · exact hopen ⟨credit .merchantPayable hold.amountMinor, by simp [releaseRequest],
                  hshut⟩
            · exact LedgerPoster.attains_post_taken orderly_freshIds rfl hunposted
                fun _ _ _ => trivial
          · exact LedgerPoster.attains_post_unbalanced
              (fun balanced => hpositive (balanced_transfer.mp balanced)) fun _ _ _ => trivial

end ReserveService

end PayzenoLedger
