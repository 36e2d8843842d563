import PayzenoLedger.Api.Transactions
import PayzenoLedger.Ledger.Bodies
import PayzenoLedger.Ledger.Posting
import PayzenoLedger.Library.Alone

/-!
# Repeated postings

Requests are served one after the other.  A key belongs to the first accepted
body that carried it; what the routes answer to a later body under the key is
compared with what the contract of the route says.
-/

set_option autoImplicit false

namespace PayzenoLedger

open Library Library.Raising Write

/-! ## What a posting may raise -/

/-- `except IdempotencyConflictError`. -/
def Exception.IsConflict (raised : Exception) : Prop :=
  raised.isInstance .idempotencyConflictError = true

section Raises

variable {α : Type} {raisable : Exception → Prop}

theorem Async.raises_check {checked : Except Exception α}
    (h : ∀ raised, checked = .error raised → raisable raised) :
    Raises (check checked) raisable := by
  cases checked with
  | ok value => exact .pure value
  | error raised => exact .throw (h raised rfl)

theorem Async.raises_getOrRaise (table : Table) (key : Key) {missing : Exception}
    (h : raisable missing) : Raises (getOrRaise table key missing) raisable := by
  refine .bind (.execute _) fun found => ?_
  cases found with
  | none => exact .throw h
  | some row => exact .pure row

theorem Async.raises_add (table : Table) (row : table.Row) (h : raisable .integrityError) :
    Raises (add table row) raisable := by
  refine .bind (.execute _) fun taken => ?_
  cases taken with
  | nil => exact .pure ()
  | cons key keys => exact .throw h

theorem Async.raises_addAll (table : Table) (rows : List table.Row)
    (h : raisable .integrityError) : Raises (addAll table rows) raisable := by
  induction rows with
  | nil => exact .pure ()
  | cons row rows ih => exact .bind (Async.raises_add table row h) fun _ => ih

theorem Async.raises_update (table : Table) (key : Key) (change : table.Row → table.Row)
    (immutable : ∀ row, table.identity (change row) = table.identity row)
    (h : raisable .integrityError) : Raises (update table key change immutable) raisable := by
  refine .bind (.execute _) fun updated => ?_
  cases updated with
  | conflict => exact .throw h
  | done => exact .pure ()
  | missing => exact .pure ()

end Raises

theorem assertInvariants_noConflict {lines : List PostingLine} {raised : Exception}
    (h : assertInvariants lines = .error raised) : ¬ raised.IsConflict := by
  have hpositive (lines : List PostingLine) (h : assertPositive lines = .error raised) :
      ¬ raised.IsConflict := by
    induction lines with
    | nil => cases h
    | cons line lines ih =>
        unfold assertPositive at h
        split at h
        · cases h
          exact Bool.false_ne_true
        · exact ih h
  unfold assertInvariants at h
  dsimp only at h
  split at h
  · cases h
    exact Bool.false_ne_true
  · split at h
    · cases h
      exact Bool.false_ne_true
    · exact hpositive lines h

theorem LedgerPoster.raises_materialiseEntries (transactionId : String) (request : PostRequest)
    (lines : List PostingLine) (sequence : Nat) :
    Raises (materialiseEntries transactionId request sequence lines)
      fun raised => ¬ raised.IsConflict := by
  have hresolve (type : AccountType) (merchantId : Option String) :
      Raises (AccountResolver.getOrCreate merchantId type request.currency request.livemode)
        fun raised => ¬ raised.IsConflict := by
    unfold AccountResolver.getOrCreate
    cases type.normalBalance with
    | none => exact .throw Bool.false_ne_true
    | some normalBalance =>
        refine .bind (.execute _) fun found => ?_
        cases found with
        | some existing => exact .pure _
        | none =>
            refine .bind (.execute _) fun id => .bind (.execute _) fun taken => ?_
            cases taken with
            | nil => exact .pure _
            | cons key keys =>
                refine .bind (.execute _) fun winner => ?_
                cases winner with
                | none => exact .throw Bool.false_ne_true
                | some winner => exact .pure _
  induction lines generalizing sequence with
  | nil => exact .pure _
  | cons line lines ih =>
      refine .bind (hresolve _ _) fun account => ?_
      dsimp only
      split
      · exact .throw Bool.false_ne_true
      · refine .bind (.execute _) fun id => .bind (.execute _) fun createdAt => ?_
        exact .bind (ih (sequence + 1)) fun _ => .pure _

/-- A caller that takes the existing transaction is never refused as a conflict. -/
theorem LedgerPoster.raises_post {request : PostRequest}
    (hexisting : request.onConflict = .returnExisting) :
    Raises (post request) fun raised => ¬ raised.IsConflict := by
  have hclaim : Raises (LedgerTransactionRepository.claimIdempotencyKey request)
      fun raised => ¬ raised.IsConflict := by
    refine .bind (.execute _) fun id => .bind (.execute _) fun postedAt =>
      .bind (.execute _) fun taken => ?_
    split
    · exact .pure _
    · split
      · refine .bind (.execute _) fun existing => ?_
        cases existing with
        | none => exact .throw Bool.false_ne_true
        | some existing => exact .pure _
      · exact .throw Bool.false_ne_true
  have hbalance (transactionId : String) : Raises (applyBalanceDelta request transactionId)
      fun raised => ¬ raised.IsConflict := by
    unfold applyBalanceDelta
    cases request.merchantId with
    | none => exact .pure _
    | some merchantId =>
        dsimp only
        split
        · exact .pure _
        · refine .bind (.execute _) fun stamp => .bind (.execute _) fun taken => ?_
          cases taken with
          | nil => exact .pure _
          | cons key keys => exact Async.raises_update _ _ _ _ Bool.false_ne_true
  refine .bind (Async.raises_check fun raised => assertInvariants_noConflict) fun _ =>
    .bind hclaim fun claim => ?_
  split
  · refine .bind (Async.raises_getOrRaise _ _ Bool.false_ne_true) fun transaction => ?_
    refine .bind (raises_materialiseEntries _ _ _ _) fun entries => ?_
    refine .bind (Async.raises_addAll _ _ Bool.false_ne_true) fun _ => ?_
    refine .bind (hbalance _) fun _ => ?_
    refine .bind (.bind (.execute _) fun id => Async.raises_add _ _ Bool.false_ne_true)
      fun _ => .pure _
  · refine .bind (Async.raises_getOrRaise _ _ Bool.false_ne_true) fun existing => ?_
    rw [hexisting]
    exact .pure _

theorem raises_postTransactionsBulk (settings : Settings)
    (bodies : List PostTransactionRequest) :
    Raises (postTransactionsBulk settings bodies) fun raised => ¬ raised.IsConflict := by
  have hall : Raises (postAll settings bodies) fun raised => ¬ raised.IsConflict := by
    induction bodies with
    | nil => exact .pure _
    | cons body bodies ih =>
        exact .bind (LedgerPoster.raises_post rfl) fun result => .bind ih fun _ => .pure _
  exact .bind (.withSession hall) fun _ => .pure _

/-- Some transaction has the key. -/
def HasKey (key : String) (db : Database) : Prop :=
  ∃ row ∈ db.transactions, row.idempotencyKey = key

section Taken

variable {D : Discipline system} {worker : Nat} {request : PostRequest}
  {error : Exception → List (Session system) → Shared system → Prop}
  {top : Session system} {rest : List (Session system)} {shared : Shared system}

theorem HasKey.holders {key : String} {db : Database} (has : HasKey key db) :
    Schema.holders (S := schema) Table.ledgerTransaction (.idempotency key) db ≠ [] := by
  obtain ⟨row, hrow, hkey⟩ := has
  refine List.ne_nil_of_mem (Schema.mem_holders.mpr ⟨hrow, ?_⟩)
  simp [Table.keys, hkey]

/-- A claim finds the transaction that has the key. -/
theorem LedgerTransactionRepository.wpr_claim_taken
    {ok : IdempotencyClaim → List (Session system) → Shared system → Prop}
    (htaken : Seen top.keys top.writes shared (HasKey request.idempotencyKey))
    (good : D.Good shared)
    (hok : ∀ shared' claim existing, Progress D worker rest top shared top shared' →
      existing ∈ (top.view shared'.committed : Database).transactions →
      existing.idempotencyKey = request.idempotencyKey → claim.created = false →
      claim.transactionId = existing.id → ok claim (top :: rest) shared') :
    wpr D worker (claimIdempotencyKey request) ok error (top :: rest) shared := by
  have hthere {shared' : Shared system} (progress : Progress D worker rest top shared top shared') :
      Schema.holders (S := schema) Table.ledgerTransaction (.idempotency request.idempotencyKey)
        (top.view shared'.committed) ≠ [] :=
    (htaken _ (progress.later good)).holders
  unfold claimIdempotencyKey
  rw [wpr_bind]
  refine Async.wpr_newId fun shared₁ body progress₁ => ?_
  rw [wpr_bind]
  refine Async.wpr_transactionTime fun shared₂ postedAt progress₂ _ => ?_
  have progress := progress₁.trans progress₂
  rw [wpr_bind]
  refine Async.wpr_tryInsert (fun shared₃ progress₃ hfree _ => ?_)
    fun shared₃ taken progress₃ hne hkeys => ?_
  · refine absurd (hfree (.idempotency request.idempotencyKey) ?_)
      (hthere (progress.trans progress₃))
    simp [Table.keys, header]
  · have progress := progress.trans progress₃
    have hmem : Key.idempotency request.idempotencyKey ∈ taken :=
      (hkeys _).mpr ⟨by simp [Table.keys, header], hthere progress⟩
    rw [if_neg hne, if_pos hmem, wpr_bind]
    refine Async.wpr_get (fun shared₄ existing progress₄ hexisting => ?_)
      fun shared₄ progress₄ hnone => absurd hnone (hthere (progress.trans progress₄))
    obtain ⟨hrow, hkey⟩ := Schema.mem_holders.mp hexisting
    exact hok shared₄ _ existing (progress.trans progress₄) hrow
      (by simpa [Table.keys, eq_comm] using hkey) rfl rfl

/-- A posting under a taken key writes nothing: its lines are refused, or it returns the
transaction that has the key, or it raises the conflict. -/
theorem LedgerPoster.wpr_post_taken
    {ok : PostResult → List (Session system) → Shared system → Prop}
    (htaken : Seen top.keys top.writes shared (HasKey request.idempotencyKey))
    (start : Progress D worker rest top shared top shared)
    (hinvalid : ∀ raised, assertInvariants request.lines = .error raised →
      error raised (top :: rest) shared)
    (hreturn : ∀ shared' row, assertInvariants request.lines = .ok () →
      request.onConflict = .returnExisting → Progress D worker rest top shared top shared' →
      row ∈ (top.view shared'.committed : Database).transactions →
      row.idempotencyKey = request.idempotencyKey → ok ⟨row, false⟩ (top :: rest) shared')
    (hraise : ∀ shared' message details, assertInvariants request.lines = .ok () →
      request.onConflict = .raise → Progress D worker rest top shared top shared' →
      error (ledgerError .duplicateSettlementError message details) (top :: rest) shared') :
    wpr D worker (LedgerPoster.post request) ok error (top :: rest) shared := by
  unfold LedgerPoster.post
  rw [wpr_bind]
  refine Async.wpr_check (fun _ hlines => ?_) hinvalid
  rw [wpr_bind]
  refine LedgerTransactionRepository.wpr_claim_taken htaken start.good
    fun shared₁ claim existing progress₁ hexisting hkey hcreated hid => ?_
  rw [hcreated, if_neg Bool.false_ne_true, wpr_bind, hid]
  have hseen : Seen top.keys top.writes shared₁ _ :=
    Seen.identity (Y := system) Table.ledgerTransaction hexisting
  refine Async.wpr_getOrRaise (fun shared₂ found progress₂ hfound => ?_)
    fun shared₂ progress₂ hnone => ?_
  · have progress := progress₁.trans progress₂
    cases hconflict : request.onConflict with
    | raise => exact hraise shared₂ _ _ hlines hconflict progress
    | returnExisting =>
        obtain ⟨hrow, hfoundKey⟩ := Schema.mem_holders.mp hfound
        obtain ⟨other, hother, hident⟩ := hseen _ (progress₂.later progress₁.good)
        have hsame : ({ other with reversesTransactionId := none } : LedgerTransaction) =
            { existing with reversesTransactionId := none } := hident
        obtain ⟨hotherId, hotherKey, -⟩ := LedgerTransaction.mk.inj hsame
        have hfoundOther : found = other := progress₂.unique.eq_of_key Table.ledgerTransaction
          (.transaction existing.id) hrow hother (by simpa using hfoundKey)
          (by simp [Table.keys, hotherId])
        refine hreturn shared₂ found hlines hconflict progress hrow ?_
        rw [hfoundOther]
        exact hotherKey.trans hkey
  · obtain ⟨other, hother, hident⟩ := hseen _ (progress₂.later progress₁.good)
    have hsame : ({ other with reversesTransactionId := none } : LedgerTransaction) =
        { existing with reversesTransactionId := none } := hident
    obtain ⟨hotherId, -⟩ := LedgerTransaction.mk.inj hsame
    refine absurd (Schema.holders_eq_nil_iff.mp hnone other hother) ?_
    simp [Table.keys, hotherId]

end Taken

def ApiRequest.bodies : ApiRequest → List PostTransactionRequest
  | .post _ body => [body]
  | .bulk bodies => bodies

abbrev Answer : Type := Except Exception ApiResponse

/-- The bodies of the requests that were accepted, in order. -/
def accepted (served : List (ApiRequest × Answer)) : List PostTransactionRequest :=
  served.flatMap fun exchange => match exchange.2 with
    | .ok _ => exchange.1.bodies
    | .error _ => []

/-- The first of the bodies with the key. -/
def firstWith (key : String) (bodies : List PostTransactionRequest) :
    Option PostTransactionRequest :=
  bodies.find? fun body => body.idempotencyKey = key

/-- The requests served one after the other, and what they were answered. -/
inductive ApiRun (settings : Settings) (db : Database) :
    List (ApiRequest × Answer) → Database → Prop
  | start : ApiRun settings db [] db
  | serve {served : List (ApiRequest × Answer)} {before after : Database}
      {request : ApiRequest} {answer : Answer} (run : ApiRun settings db served before)
      (finishes : Finishes (Y := system) before (request.serve settings).run answer after) :
      ApiRun settings db (served ++ [(request, answer)]) after

/-- Bodies that are filed one after the other: each is found under its key, or posted. -/
inductive Files (settings : Settings) : List LedgerTransaction →
    List PostTransactionRequest → List String → List LedgerTransaction → Prop
  | nil (rows : List LedgerTransaction) : Files settings rows [] [] rows
  | found {rows rows' : List LedgerTransaction} {body : PostTransactionRequest}
      {bodies : List PostTransactionRequest} {transactionIds : List String}
      {row : LedgerTransaction} (hlines : Balanced body.lines) (hrow : row ∈ rows)
      (hkey : row.idempotencyKey = body.idempotencyKey)
      (files : Files settings rows bodies transactionIds rows') :
      Files settings rows (body :: bodies) (row.id :: transactionIds) rows'
  | posted {rows rows' : List LedgerTransaction} {body : PostTransactionRequest}
      {bodies : List PostTransactionRequest} {transactionIds : List String}
      {row : LedgerTransaction} (hlines : Balanced body.lines)
      (hfree : ∀ other ∈ rows, other.idempotencyKey ≠ body.idempotencyKey)
      (hkey : row.idempotencyKey = body.idempotencyKey)
      (hfingerprint : row.requestFingerprint = body.fingerprintOf settings)
      (files : Files settings (rows ++ [row]) bodies transactionIds rows') :
      Files settings rows (body :: bodies) (row.id :: transactionIds) rows'

namespace Files

variable {settings : Settings} {rows rows' : List LedgerTransaction}
  {bodies : List PostTransactionRequest} {transactionIds : List String}

theorem subset (files : Files settings rows bodies transactionIds rows') : rows ⊆ rows' := by
  induction files with
  | nil rows => exact fun _ h => h
  | found _ _ _ _ ih => exact ih
  | posted _ _ _ _ _ ih => exact fun row h => ih (List.mem_append_left _ h)

theorem balanced (files : Files settings rows bodies transactionIds rows') :
    ∀ body ∈ bodies, Balanced body.lines := by
  induction files with
  | nil rows => simp
  | found hlines _ _ _ ih => exact List.forall_mem_cons.mpr ⟨hlines, ih⟩
  | posted hlines _ _ _ _ ih => exact List.forall_mem_cons.mpr ⟨hlines, ih⟩

/-- The answer names, at the place of each body, the transaction that has its key. -/
theorem named (files : Files settings rows bodies transactionIds rows')
    {before after : List PostTransactionRequest} {body : PostTransactionRequest}
    (hbodies : bodies = before ++ body :: after) :
    ∃ row ∈ rows', row.idempotencyKey = body.idempotencyKey ∧
      transactionIds[before.length]? = some row.id := by
  induction files generalizing before with
  | nil rows => simp at hbodies
  | found _ hrow hkey files ih =>
      cases before with
      | nil =>
          obtain ⟨rfl, -⟩ := List.cons.inj hbodies
          exact ⟨_, files.subset hrow, hkey, rfl⟩
      | cons other before => exact ih (List.cons.inj hbodies).2
  | posted _ _ hkey _ files ih =>
      cases before with
      | nil =>
          obtain ⟨rfl, -⟩ := List.cons.inj hbodies
          exact ⟨_, files.subset (List.mem_append_right _ List.mem_cons_self), hkey, rfl⟩
      | cons other before => exact ih (List.cons.inj hbodies).2

/-- A transaction that was not there has the key and the fingerprint of the first body
with its key. -/
theorem first_of_new (files : Files settings rows bodies transactionIds rows')
    {row : LedgerTransaction} (hrow : row ∈ rows') :
    row ∈ rows ∨ (∀ other ∈ rows, other.idempotencyKey ≠ row.idempotencyKey) ∧
      ∃ first, firstWith row.idempotencyKey bodies = some first ∧
        row.requestFingerprint = first.fingerprintOf settings := by
  induction files with
  | nil rows => exact .inl hrow
  | @found rows rows' body bodies transactionIds found _ hfound hkey _ ih =>
      rcases ih hrow with hold | ⟨hfree, first, hfirst, hfingerprint⟩
      · exact .inl hold
      · refine .inr ⟨hfree, first, ?_, hfingerprint⟩
        have hne : ¬ body.idempotencyKey = row.idempotencyKey := fun h =>
          hfree found hfound (hkey.trans h)
        unfold firstWith
        rw [List.find?_cons_of_neg (by simpa using hne)]
        exact hfirst
  | @posted rows rows' body bodies transactionIds new _ hfree hkey hfingerprint _ ih =>
      rcases ih hrow with hold | ⟨hfree', first, hfirst, hfingerprint'⟩
      · rcases List.mem_append.mp hold with hold | hnew
        · exact .inl hold
        · rw [List.mem_singleton.mp hnew]
          refine .inr ⟨fun other hother => hkey ▸ hfree other hother, body, ?_, hfingerprint⟩
          unfold firstWith
          rw [List.find?_cons_of_pos (by simpa using hkey.symm)]
      · refine .inr ⟨fun other hother => hfree' other (List.mem_append_left _ hother), first, ?_,
          hfingerprint'⟩
        have hne : ¬ body.idempotencyKey = row.idempotencyKey := fun h =>
          hfree' new (List.mem_append_right _ List.mem_cons_self) (hkey.trans h)
        unfold firstWith
        rw [List.find?_cons_of_neg (by simpa using hne)]
        exact hfirst

end Files

/-! ## One request alone -/

/-- The key of a posting was free. -/
theorem Posting.Valid.free {posting : Posting} {db : Database} (valid : posting.Valid db) :
    ∀ row ∈ db.transactions, row.idempotencyKey ≠ posting.header.idempotencyKey := by
  intro row hrow hkey
  have hrows : Table.rows .ledgerTransaction (applyAll posting.writes db) =
      db.transactions ++ [posting.header] := by
    rw [posting.applyAll_writes]
    rfl
  have habsent := valid.unique.not_mem_of_append Table.ledgerTransaction hrows hrow
    List.mem_cons_self (.idempotency posting.header.idempotencyKey) (by simp [Table.keys])
  simp [Table.keys, hkey] at habsent

section Serving

variable {settings : Settings} {db : Database}
  {error : Exception → List (Session system) → Shared system → Prop}
  {top : Session system} {rest : List (Session system)} {shared : Shared system}

/-- What a session of the only worker sees. -/
def Sees (top : Session system) (shared : Shared system) (db : Database)
    (rows : List LedgerTransaction) : Prop :=
  shared.committed = db ∧ (top.view db : Database).transactions = rows

theorem wpr_postBody {body : PostTransactionRequest} {createdBy : Actor}
    {onConflict : OnConflict} {rows : List LedgerTransaction}
    {ok : PostResult → List (Session system) → Shared system → Prop}
    (start : Progress aloneDiscipline 0 rest top shared top shared)
    (sees : Sees top shared db rows)
    (hposted : ∀ shared' top' row, Progress aloneDiscipline 0 rest top shared top' shared' →
      Balanced body.lines → (∀ other ∈ rows, other.idempotencyKey ≠ body.idempotencyKey) →
      row.idempotencyKey = body.idempotencyKey →
      row.requestFingerprint = body.fingerprintOf settings →
      Sees top' shared' db (rows ++ [row]) → ok ⟨row, true⟩ (top' :: rest) shared')
    (hfound : ∀ shared' row, Progress aloneDiscipline 0 rest top shared top shared' →
      Balanced body.lines → onConflict = .returnExisting → row ∈ rows →
      row.idempotencyKey = body.idempotencyKey → Sees top shared' db rows →
      ok ⟨row, false⟩ (top :: rest) shared')
    (herror : ∀ shared' top' raised, Progress aloneDiscipline 0 rest top shared top' shared' →
      error raised (top' :: rest) shared') :
    wpr aloneDiscipline 0 (LedgerPoster.post (body.posting settings createdBy onConflict))
      ok error (top :: rest) shared := by
  obtain ⟨hcommitted, hrows⟩ := sees
  cases hlines : assertInvariants body.lines with
  | error raised =>
      unfold LedgerPoster.post
      rw [wpr_bind]
      refine Async.wpr_check (fun value hvalue => ?_)
        fun raised' _ => herror shared top raised' start
      exact absurd (hlines.symm.trans hvalue) (by simp)
  | ok _ =>
      have hbalanced := (assertInvariants_ok_iff body.lines).mp hlines
      refine LedgerPoster.wpr_post (fun shared₁ top₁ posting progress hrequest hwrites hvalid _ =>
          ?_)
        (fun shared₁ existing progress hconflict hexisting hkey => ?_) herror start
      · have hcommitted₁ : shared₁.committed = db := progress.rely.alone.trans hcommitted
        have valid := hvalid.now progress.good.1
        rw [hcommitted₁] at valid
        have hheader := valid.header
        rw [hrequest] at hheader
        have hkey : posting.header.idempotencyKey = body.idempotencyKey := by
          rw [hheader]
          rfl
        refine hposted shared₁ top₁ posting.header progress hbalanced (fun other hother => ?_) hkey
          (by rw [hheader]; rfl) ⟨hcommitted₁, ?_⟩
        · rw [← hrows] at hother
          exact hkey ▸ valid.free other hother
        · rw [Session.view, hwrites, applyAll_append, posting.applyAll_writes, ← hrows]
          rfl
      · have hcommitted₁ : shared₁.committed = db := progress.rely.alone.trans hcommitted
        rw [hcommitted₁, hrows] at hexisting
        exact hfound shared₁ existing progress hbalanced hconflict hexisting hkey
          ⟨hcommitted₁, hrows⟩

theorem wpr_postAll {bodies : List PostTransactionRequest} {rows : List LedgerTransaction}
    {ok : List String → List (Session system) → Shared system → Prop}
    (start : Progress aloneDiscipline 0 rest top shared top shared)
    (sees : Sees top shared db rows)
    (hok : ∀ shared' top' transactionIds rows',
      Progress aloneDiscipline 0 rest top shared top' shared' →
      Files settings rows bodies transactionIds rows' → Sees top' shared' db rows' →
      ok transactionIds (top' :: rest) shared')
    (herror : ∀ shared' top' raised, Progress aloneDiscipline 0 rest top shared top' shared' →
      error raised (top' :: rest) shared') :
    wpr aloneDiscipline 0 (postAll settings bodies) ok error (top :: rest) shared := by
  induction bodies generalizing top shared rows ok with
  | nil => exact hok shared top [] rows start (.nil rows) sees
  | cons body bodies ih =>
      unfold postAll
      rw [wpr_bind]
      refine wpr_postBody start sees
        (fun shared₁ top₁ row progress₁ hlines hfree hkey hfingerprint sees₁ => ?_)
        (fun shared₁ row progress₁ hlines _ hrow hkey sees₁ => ?_) herror
      all_goals
        rw [wpr_bind]
        refine ih progress₁.here sees₁
          (fun shared₂ top₂ transactionIds rows' progress₂ files sees₂ =>
            hok shared₂ top₂ _ rows' (progress₁.trans progress₂) ?_ sees₂)
          fun shared₂ top₂ raised progress₂ =>
            herror shared₂ top₂ raised (progress₁.trans progress₂)
      · exact .posted hlines hfree hkey hfingerprint files
      · exact .found hlines hrow hkey files

/-- A repeat in a session alone. -/
theorem wpr_postRepeat {body : PostTransactionRequest} {createdBy : Actor}
    {onConflict : OnConflict} {rows : List LedgerTransaction}
    {ok : PostResult → List (Session system) → Shared system → Prop}
    (start : Progress aloneDiscipline 0 rest top shared top shared)
    (sees : Sees top shared db rows)
    (htaken : ∃ row ∈ rows, row.idempotencyKey = body.idempotencyKey)
    (hinvalid : ∀ raised, ¬ Balanced body.lines → ¬ raised.IsConflict →
      error raised (top :: rest) shared)
    (hreturn : ∀ shared' row, Balanced body.lines → onConflict = .returnExisting →
      Progress aloneDiscipline 0 rest top shared top shared' → Sees top shared' db rows →
      ok ⟨row, false⟩ (top :: rest) shared')
    (hraise : ∀ shared' raised, Balanced body.lines → onConflict = .raise →
      Progress aloneDiscipline 0 rest top shared top shared' → raised.IsConflict →
      error raised (top :: rest) shared') :
    wpr aloneDiscipline 0 (LedgerPoster.post (body.posting settings createdBy onConflict))
      ok error (top :: rest) shared := by
  obtain ⟨hcommitted, hrows⟩ := sees
  have hbalanced {lines : List PostingLine} (hlines : assertInvariants lines = .ok ()) :
      Balanced lines := (assertInvariants_ok_iff lines).mp hlines
  obtain ⟨row, hrow, hkey⟩ := htaken
  have hseen : Seen top.keys top.writes shared
      (HasKey (body.posting settings createdBy onConflict).idempotencyKey) := by
    have hview : row ∈ (top.view shared.committed : Database).transactions := by
      rw [hcommitted, hrows]
      exact hrow
    refine (Seen.identity (Y := system) Table.ledgerTransaction hview).imp
      fun db' ⟨other, hother, hident⟩ => ⟨other, hother, ?_⟩
    have hsame : ({ other with reversesTransactionId := none } : LedgerTransaction) =
        { row with reversesTransactionId := none } := hident
    exact (LedgerTransaction.mk.inj hsame).2.1.trans hkey
  refine LedgerPoster.wpr_post_taken hseen start (fun raised hlines => ?_)
    (fun shared₁ row₁ hlines hconflict progress _ _ => ?_)
    fun shared₁ message details hlines hconflict progress => ?_
  · refine hinvalid raised (fun hvalid => ?_) (assertInvariants_noConflict hlines)
    exact absurd (hlines.symm.trans ((assertInvariants_ok_iff body.lines).mpr hvalid)) (by simp)
  · exact hreturn shared₁ row₁ (hbalanced hlines) hconflict progress
      ⟨progress.rely.alone.trans hcommitted, hrows⟩
  · exact hraise shared₁ _ (hbalanced hlines) hconflict progress rfl

/-- Repeats alone are answered, and nothing is written. -/
theorem wpr_repeatAll {bodies : List PostTransactionRequest} {rows : List LedgerTransaction}
    {ok : List String → List (Session system) → Shared system → Prop}
    (start : Progress aloneDiscipline 0 rest top shared top shared)
    (sees : Sees top shared db rows)
    (htaken : ∀ body ∈ bodies, Balanced body.lines ∧
      ∃ row ∈ rows, row.idempotencyKey = body.idempotencyKey)
    (hok : ∀ shared' transactionIds, Progress aloneDiscipline 0 rest top shared top shared' →
      Sees top shared' db rows → ok transactionIds (top :: rest) shared') :
    wpr aloneDiscipline 0 (postAll settings bodies) ok error (top :: rest) shared := by
  induction bodies generalizing shared ok with
  | nil => exact hok shared [] start sees
  | cons body bodies ih =>
      obtain ⟨⟨hbalanced, hrow⟩, hbodies⟩ := List.forall_mem_cons.mp htaken
      unfold postAll
      rw [wpr_bind]
      refine wpr_postRepeat start sees hrow (fun raised hinvalid => absurd hbalanced hinvalid)
        (fun shared₁ row _ _ progress₁ sees₁ => ?_)
        fun shared₁ raised _ hconflict => nomatch hconflict
      rw [wpr_bind]
      exact ih progress₁.here sees₁ hbodies fun shared₂ transactionIds progress₂ sees₂ =>
        hok shared₂ _ (progress₁.trans progress₂) sees₂

end Serving

def ApiResponse.transactionIds : ApiResponse → List String
  | .transaction _ row _ => [row.id]
  | .bulk transactionIds => transactionIds

/-- What a request has made of the database. -/
def Served (settings : Settings) (db : Database) (request : ApiRequest) :
    Answer → Database → Prop
  | .error _, db' => db' = db
  | .ok response, db' =>
      Files settings db.transactions request.bodies response.transactionIds db'.transactions

section Requests

variable {settings : Settings} {db db' : Database} {answer : Answer} {caller : String}
  {body : PostTransactionRequest}

theorem Sees.fresh {name : system.Name} {shared : Shared system}
    (hcommitted : shared.committed = db) :
    Sees (Session.fresh name) shared db db.transactions :=
  ⟨hcommitted, rfl⟩

theorem ApiRequest.serve_served {request : ApiRequest} (unique : Schema.Unique (S := schema) db)
    (finishes : Finishes (Y := system) db (request.serve settings).run answer db') :
    Served settings db request answer db' ∧ Schema.Unique (S := schema) db' := by
  cases request with
  | post caller body =>
      have posts : Finishes (Y := system) db (postTransaction settings caller body).run answer
        db' := finishes
      refine posts.of_wpr unique (Served settings db (.post caller body)) fun world => ?_
      unfold postTransaction
      rw [wpr_bind]
      refine wpr_mono (wpr_sessionAlone (fun result (db' : Database) =>
        Files settings db.transactions [body] [result.1.transaction.id] db'.transactions)
        (fun _ => True) rfl fun shared₁ hcommitted good => ?_) ?_ ?_
      · rw [wpr_bind]
        refine wpr_postBody (Progress.start good) (.fresh hcommitted)
          (fun shared₂ top row _ hlines hfree hkey hfingerprint sees => ?_)
          (fun _ _ _ _ hexisting => nomatch hexisting)
          fun shared₂ top raised progress =>
            ⟨top, rfl, progress.rely.alone.trans hcommitted, trivial⟩
        rw [wpr_bind]
        refine wpr_select fun shared₃ progress₃ => ?_
        exact ⟨top, rfl, progress₃.rely.alone.trans sees.1,
          sees.2 ▸ .posted hlines hfree hkey hfingerprint (.nil _)⟩
      · rintro result stack' shared₁ ⟨rfl, hfiles⟩
        exact hfiles
      · rintro raised stack' shared₁ ⟨rfl, -, hsame⟩
        exact hsame
  | bulk bodies =>
      have posts : Finishes (Y := system) db (postTransactionsBulk settings bodies).run answer
        db' := finishes
      refine posts.of_wpr unique (Served settings db (.bulk bodies)) fun world => ?_
      unfold postTransactionsBulk
      rw [wpr_bind]
      refine wpr_mono (wpr_sessionAlone (fun transactionIds (db' : Database) =>
        Files settings db.transactions bodies transactionIds db'.transactions)
        (fun _ => True) rfl fun shared₁ hcommitted good => ?_) ?_ ?_
      · refine wpr_postAll (Progress.start good) (.fresh hcommitted)
          (fun shared₂ top transactionIds rows progress files sees => ?_)
          fun shared₂ top raised progress =>
            ⟨top, rfl, progress.rely.alone.trans hcommitted, trivial⟩
        exact ⟨top, rfl, sees.1, sees.2 ▸ files⟩
      · rintro result stack' shared₁ ⟨rfl, hfiles⟩
        exact hfiles
      · rintro raised stack' shared₁ ⟨rfl, -, hsame⟩
        exact hsame

/-- A repeat through `POST /transactions` is refused, whatever its body is. -/
theorem postTransaction_repeat (unique : Schema.Unique (S := schema) db)
    (hkey : HasKey body.idempotencyKey db)
    (finishes : Finishes (Y := system) db (postTransaction settings caller body).run answer db') :
    db' = db ∧ ∃ raised, answer = .error raised ∧ (raised.IsConflict ↔ Balanced body.lines) := by
  refine (finishes.of_wpr unique (fun answer (db' : Database) => db' = db ∧
    ∃ raised, answer = .error raised ∧ (raised.IsConflict ↔ Balanced body.lines))
    fun world => ?_).1
  unfold postTransaction
  rw [wpr_bind]
  refine wpr_mono (wpr_sessionAlone (fun _ _ => False)
    (fun raised => raised.IsConflict ↔ Balanced body.lines) rfl
    fun shared₁ hcommitted good => ?_) ?_ ?_
  · rw [wpr_bind]
    exact wpr_postRepeat (Progress.start good) (.fresh hcommitted) hkey
      (fun raised hinvalid hother => ⟨_, rfl, hcommitted, iff_of_false hother hinvalid⟩)
      (fun _ _ _ hexisting => nomatch hexisting)
      fun shared₂ raised hbalanced _ progress hconflict =>
        ⟨_, rfl, progress.rely.alone.trans hcommitted, iff_of_true hconflict hbalanced⟩
  · rintro result stack' shared₁ ⟨rfl, hfalse⟩
    exact hfalse.elim
  · rintro raised stack' shared₁ ⟨rfl, hrefused, hsame⟩
    exact ⟨hsame, raised, rfl, hrefused⟩

/-- A bulk request of repeats alone is answered. -/
theorem postTransactionsBulk_repeats {bodies : List PostTransactionRequest}
    (unique : Schema.Unique (S := schema) db)
    (htaken : ∀ body ∈ bodies, Balanced body.lines ∧ HasKey body.idempotencyKey db)
    (finishes : Finishes (Y := system) db (postTransactionsBulk settings bodies).run answer db') :
    db' = db ∧ ∃ response, answer = .ok response := by
  refine (finishes.of_wpr unique (fun answer (db' : Database) => db' = db ∧
    ∃ response, answer = .ok response) fun world => ?_).1
  unfold postTransactionsBulk
  rw [wpr_bind]
  refine wpr_mono (wpr_sessionAlone (fun _ db' => db' = db) (fun _ => False) rfl
    fun shared₁ hcommitted good => ?_) ?_ ?_
  · exact wpr_repeatAll (Progress.start good) (.fresh hcommitted) htaken
      fun shared₂ transactionIds progress _ =>
        ⟨_, rfl, progress.rely.alone.trans hcommitted, rfl⟩
  · rintro transactionIds stack' shared₁ ⟨rfl, hsame⟩
    exact ⟨hsame, _, rfl⟩
  · rintro raised stack' shared₁ ⟨rfl, hfalse, -⟩
    exact hfalse.elim

end Requests

/-! ## Any number of requests -/

/-- What the kept transactions tell of the requests that were served. -/
structure Told (settings : Settings) (db : Database) (served : List (ApiRequest × Answer))
    (db' : Database) : Prop where
  unique : Schema.Unique (S := schema) db'
  kept : ∀ row ∈ db'.transactions, ¬ HasKey row.idempotencyKey db →
    ∃ first, firstWith row.idempotencyKey (accepted served) = some first ∧
      row.requestFingerprint = first.fingerprintOf settings
  filed : ∀ body ∈ accepted served, Balanced body.lines ∧ HasKey body.idempotencyKey db'

theorem accepted_append (served : List (ApiRequest × Answer)) (request : ApiRequest)
    (response : ApiResponse) :
    accepted (served ++ [(request, .ok response)]) = accepted served ++ request.bodies := by
  simp [accepted]

theorem accepted_append_error (served : List (ApiRequest × Answer)) (request : ApiRequest)
    (raised : Exception) :
    accepted (served ++ [(request, .error raised)]) = accepted served := by
  simp [accepted]

theorem firstWith_append (key : String) (bodies more : List PostTransactionRequest) :
    firstWith key (bodies ++ more) = (firstWith key bodies).or (firstWith key more) :=
  List.find?_append

theorem firstWith_some {key : String} {bodies : List PostTransactionRequest}
    {first : PostTransactionRequest} (h : firstWith key bodies = some first) :
    first ∈ bodies ∧ first.idempotencyKey = key :=
  ⟨List.mem_of_find?_eq_some h, by simpa using List.find?_some h⟩

theorem HasKey.of_subset {key : String} {db db' : Database}
    (hsubset : db.transactions ⊆ db'.transactions) (h : HasKey key db) : HasKey key db' := by
  obtain ⟨row, hrow, hkey⟩ := h
  exact ⟨row, hsubset hrow, hkey⟩

theorem ApiRun.told {settings : Settings} {db db' : Database}
    {served : List (ApiRequest × Answer)} (unique : Schema.Unique (S := schema) db)
    (run : ApiRun settings db served db') : Told settings db served db' := by
  induction run with
  | start =>
      exact ⟨unique, fun row hrow hfree => absurd ⟨row, hrow, rfl⟩ hfree, by simp [accepted]⟩
  | @serve served before after request answer _ finishes told =>
      obtain ⟨hserved, unique'⟩ := ApiRequest.serve_served told.unique finishes
      cases answer with
      | error raised =>
          have hsame : after = before := hserved
          subst hsame
          exact ⟨unique', by rw [accepted_append_error]; exact told.kept,
            by rw [accepted_append_error]; exact told.filed⟩
      | ok response =>
          have files : Files settings before.transactions request.bodies
              response.transactionIds after.transactions := hserved
          refine ⟨unique', ?_, ?_⟩ <;> rw [accepted_append]
          · intro row hrow hfree
            rw [firstWith_append]
            rcases files.first_of_new hrow with hold | ⟨hnew, first, hfirst, hfingerprint⟩
            · obtain ⟨first, hfirst, hfingerprint⟩ := told.kept row hold hfree
              exact ⟨first, by rw [hfirst]; rfl, hfingerprint⟩
            · refine ⟨first, ?_, hfingerprint⟩
              cases hearlier : firstWith row.idempotencyKey (accepted served) with
              | none => exact hfirst
              | some other =>
                  obtain ⟨hother, hkey⟩ := firstWith_some hearlier
                  obtain ⟨found, hfound, hfoundKey⟩ := (told.filed other hother).2
                  exact absurd (hfoundKey.trans hkey) (hnew found hfound)
          · intro body hbody
            rcases List.mem_append.mp hbody with hold | hnew
            · obtain ⟨hbalanced, hkey⟩ := told.filed body hold
              exact ⟨hbalanced, hkey.of_subset files.subset⟩
            · obtain ⟨earlier, later, hbodies⟩ := List.append_of_mem hnew
              obtain ⟨row, hrow, hkey, -⟩ := files.named hbodies
              exact ⟨files.balanced body hnew, row, hrow, hkey⟩

/-! ## The contract of the routes -/

/-- A body of the request has a key that an accepted body, or one before it in the request,
brought in; `first` is the first of them. -/
structure Repeats (db : Database) (served : List (ApiRequest × Answer)) (request : ApiRequest)
    (earlier : List PostTransactionRequest) (body first : PostTransactionRequest) : Prop where
  place : ∃ later, request.bodies = earlier ++ body :: later
  fresh : ¬ HasKey body.idempotencyKey db
  first : firstWith body.idempotencyKey (accepted served ++ earlier) = some first

/-- Every body of the request is a repeat of the first one with its key. -/
def AllRepeat (db : Database) (served : List (ApiRequest × Answer)) (request : ApiRequest) :
    Prop :=
  ∀ earlier body later, request.bodies = earlier ++ body :: later →
    Repeats db served request earlier body body

/-- An identical repeat is answered with the first transaction and posts nothing; a
different one is refused as a conflict and posts nothing, and its fingerprint is not the
one that was kept. -/
structure Idempotent (settings : Settings) (db : Database)
    (served : List (ApiRequest × Answer)) (before : Database) (request : ApiRequest)
    (answer : Answer) (after : Database) : Prop where
  answered : AllRepeat db served request →
    after = before ∧ ∃ response, answer = .ok response
  named : ∀ earlier body response, Repeats db served request earlier body body →
    answer = .ok response → ∃ row ∈ after.transactions,
      row.idempotencyKey = body.idempotencyKey ∧
      response.transactionIds[earlier.length]? = some row.id ∧
      ∀ row' ∈ before.transactions, row'.idempotencyKey = body.idempotencyKey → row' = row
  refused : ∀ earlier body first, Repeats db served request earlier body first →
    body ≠ first → after = before ∧ (∃ raised, answer = .error raised ∧ raised.IsConflict) ∧
      ∀ row ∈ before.transactions, row.idempotencyKey = body.idempotencyKey →
        row.requestFingerprint ≠ body.fingerprintOf settings

/-- The fingerprint tells the bodies apart. -/
def Distinguished (body first : PostTransactionRequest) : Prop :=
  body.merchantId ≠ first.merchantId ∨ body.currency ≠ first.currency ∨
    body.livemode ≠ first.livemode

/-- The repeats with which the routes deal as they promise. -/
def Distinct (db : Database) (served : List (ApiRequest × Answer)) (request : ApiRequest) :
    Prop :=
  ∀ earlier body first, Repeats db served request earlier body first → match request with
    | .post _ _ => Balanced body.lines ∧ Distinguished body first
    | .bulk _ => body = first

theorem fingerprinted_eq_iff (body first : PostTransactionRequest) :
    body.fingerprinted = first.fingerprinted ↔ ¬ Distinguished body first := by
  have hoptional : ∀ left right : Option String,
      Json.optional left = Json.optional right ↔ left = right := by
    rintro (_ | left) (_ | right) <;> simp [Json.optional]
  simp only [PostTransactionRequest.fingerprinted, Distinguished, Json.object.injEq,
    List.cons.injEq, Prod.mk.injEq, Json.text.injEq, Json.bool.injEq, hoptional]
  tauto

section Contract

variable {settings : Settings} {db before after : Database} {answer : Answer}
  {served : List (ApiRequest × Answer)} {request : ApiRequest}

theorem Repeats.mem {earlier : List PostTransactionRequest}
    {body first : PostTransactionRequest}
    (repeats : Repeats db served request earlier body first) : body ∈ request.bodies := by
  obtain ⟨later, hbodies⟩ := repeats.place
  rw [hbodies]
  exact List.mem_append_right _ List.mem_cons_self

/-- The only body of a single request is a repeat of an accepted one. -/
theorem Repeats.single {caller : String} {only body first : PostTransactionRequest}
    {earlier : List PostTransactionRequest}
    (repeats : Repeats db served (.post caller only) earlier body first) :
    body = only ∧ earlier = [] ∧
      firstWith body.idempotencyKey (accepted served) = some first := by
  obtain ⟨later, hbodies⟩ := repeats.place
  have hfirst := repeats.first
  cases earlier with
  | nil =>
      obtain ⟨rfl, -⟩ := List.cons.inj hbodies
      exact ⟨rfl, rfl, by simpa using hfirst⟩
  | cons other earlier =>
      have hlength := congrArg List.length hbodies
      simp [ApiRequest.bodies] at hlength

theorem AllRepeat.single {caller : String} {only : PostTransactionRequest}
    (repeats : Repeats db served (.post caller only) [] only only) :
    AllRepeat db served (.post caller only) := by
  intro earlier body later hbodies
  cases earlier with
  | nil =>
      obtain ⟨rfl, -⟩ := List.cons.inj hbodies
      exact repeats
  | cons other earlier =>
      have hlength := congrArg List.length hbodies
      simp [ApiRequest.bodies] at hlength

/-- Identical repeats have been accepted before the request. -/
theorem AllRepeat.accepted (all : AllRepeat db served request) :
    ∀ body ∈ request.bodies, body ∈ accepted served := by
  intro body hbody
  have hsome : (firstWith body.idempotencyKey request.bodies).isSome := by
    rw [firstWith, List.find?_isSome]
    exact ⟨body, hbody, by simp⟩
  obtain ⟨leading, hleading⟩ := Option.isSome_iff_exists.mp hsome
  have hkey := (firstWith_some hleading).2
  obtain ⟨-, front, behind, hbodies, hnone⟩ := List.find?_eq_some_iff_append.mp hleading
  have hfront : firstWith body.idempotencyKey front = none := by
    rw [firstWith, List.find?_eq_none]
    intro other hother
    simpa using hnone other hother
  have hfirst := (all front leading behind hbodies).first
  rw [hkey, firstWith_append, hfront, Option.or_none] at hfirst
  obtain ⟨earlier, later, hplace⟩ := List.append_of_mem hbody
  have hsame := (all earlier body later hplace).first
  rw [firstWith_append, hfirst] at hsame
  cases hsame
  exact (firstWith_some hfirst).1

theorem Idempotent.distinct (told : Told settings db served before)
    (finishes : Finishes (Y := system) before (request.serve settings).run answer after)
    (idempotent : Idempotent settings db served before request answer after) :
    Distinct db served request := by
  intro earlier body first repeats
  cases request with
  | post caller only =>
      obtain ⟨rfl, rfl, hfirst⟩ := repeats.single
      obtain ⟨hmem, hfirstKey⟩ := firstWith_some hfirst
      have htaken : HasKey body.idempotencyKey before := hfirstKey ▸ (told.filed first hmem).2
      obtain ⟨-, raised, rfl, hconflict⟩ := postTransaction_repeat told.unique htaken finishes
      have hne : body ≠ first := by
        rintro rfl
        obtain ⟨-, response, hanswer⟩ := idempotent.answered (.single repeats)
        cases hanswer
      obtain ⟨-, ⟨raised', hraised, hisConflict⟩, hfingerprint⟩ :=
        idempotent.refused [] body first repeats hne
      cases hraised
      refine ⟨hconflict.mp hisConflict, ?_⟩
      obtain ⟨row, hrow, hkey⟩ := htaken
      obtain ⟨kept, hkept, hkeptFingerprint⟩ := told.kept row hrow (hkey ▸ repeats.fresh)
      rw [hkey, hfirst] at hkept
      cases hkept
      by_contra hsame
      refine hfingerprint row hrow hkey (hkeptFingerprint.trans ?_)
      exact congrArg settings.sha256 ((fingerprinted_eq_iff body first).mpr hsame).symm
  | bulk bodies =>
      change body = first
      by_contra hne
      obtain ⟨-, ⟨raised, hanswer, hconflict⟩, -⟩ :=
        idempotent.refused earlier body first repeats hne
      have posts : Finishes (Y := system) before (postTransactionsBulk settings bodies).run
        answer after := finishes
      exact posts.of_ends told.unique (raises_postTransactionsBulk settings bodies) raised
        hanswer hconflict

theorem Distinct.idempotent (told : Told settings db served before)
    (finishes : Finishes (Y := system) before (request.serve settings).run answer after)
    (hcollision : ∀ body ∈ accepted served ++ request.bodies,
      ∀ other ∈ accepted served ++ request.bodies,
      settings.sha256 body.fingerprinted = settings.sha256 other.fingerprinted →
        body.fingerprinted = other.fingerprinted)
    (distinct : Distinct db served request) :
    Idempotent settings db served before request answer after := by
  cases request with
  | post caller only =>
      have hnever {earlier body} : ¬ Repeats db served (.post caller only) earlier body body := by
        intro repeats
        have h := (distinct earlier body body repeats).2
        simp [Distinguished] at h
      refine ⟨fun all => absurd (all [] only [] rfl) hnever,
        fun earlier body _ repeats => absurd repeats hnever,
        fun earlier body first repeats _ => ?_⟩
      obtain ⟨rfl, rfl, hfirst⟩ := repeats.single
      obtain ⟨hbalanced, hdistinguished⟩ := distinct [] body first repeats
      obtain ⟨hmem, hfirstKey⟩ := firstWith_some hfirst
      have htaken : HasKey body.idempotencyKey before := hfirstKey ▸ (told.filed first hmem).2
      obtain ⟨hsame, raised, rfl, hconflict⟩ :=
        postTransaction_repeat told.unique htaken finishes
      refine ⟨hsame, ⟨raised, rfl, hconflict.mpr hbalanced⟩, fun row hrow hkey hfingerprint => ?_⟩
      obtain ⟨kept, hkept, hkeptFingerprint⟩ := told.kept row hrow (hkey ▸ repeats.fresh)
      rw [hkey, hfirst] at hkept
      cases hkept
      refine (fingerprinted_eq_iff body first).mp ?_ hdistinguished
      exact hcollision body (List.mem_append_right _ repeats.mem) first
        (List.mem_append_left _ hmem) (hfingerprint.symm.trans hkeptFingerprint)
  | bulk bodies =>
      refine ⟨fun all => ?_, fun earlier body response repeats hanswer => ?_,
        fun earlier body first repeats hne =>
          absurd (distinct earlier body first repeats) hne⟩
      · exact postTransactionsBulk_repeats told.unique
          (fun body hbody => told.filed body (all.accepted body hbody)) finishes
      · subst hanswer
        obtain ⟨files, unique'⟩ := ApiRequest.serve_served told.unique finishes
        obtain ⟨later, hbodies⟩ := repeats.place
        obtain ⟨row, hrow, hkey, hid⟩ := files.named hbodies
        refine ⟨row, hrow, hkey, hid, fun row' hrow' hkey' => ?_⟩
        exact unique'.eq_of_key Table.ledgerTransaction (.idempotency body.idempotencyKey)
          (files.subset hrow') hrow (by simp [Table.keys, hkey']) (by simp [Table.keys, hkey])

end Contract

/-- Requests served one after the other on a well-formed database: a repeat is dealt with as
the routes promise, exactly when `POST /transactions` gets a balanced body of another
merchant, currency or mode, and the bulk route only identical ones. -/
theorem posting_idempotent {settings : Settings} {db before after : Database}
    {served : List (ApiRequest × Answer)} {request : ApiRequest} {answer : Answer}
    (unique : Schema.Unique (S := schema) db) (run : ApiRun settings db served before)
    (finishes : Finishes (Y := system) before (request.serve settings).run answer after)
    (hcollision : ∀ body ∈ accepted served ++ request.bodies,
      ∀ other ∈ accepted served ++ request.bodies,
      settings.sha256 body.fingerprinted = settings.sha256 other.fingerprinted →
        body.fingerprinted = other.fingerprinted) :
    Idempotent settings db served before request answer after ↔ Distinct db served request :=
  have told := run.told unique
  ⟨fun idempotent => idempotent.distinct told finishes,
    fun distinct => distinct.idempotent told finishes hcollision⟩

def sampleBody : PostTransactionRequest where
  idempotencyKey := "settle:sb_1:ri_1"
  purpose := .settle
  merchantId := some "mer_1"
  currency := "EUR"
  livemode := true
  referenceType := .reconciliationItem
  referenceId := "ri_1"
  lines := [debit .cash 500, credit .merchantPayable 500]

/-- The steps of a posting that goes through. -/
def sampleServed : List (Action system) :=
  advances 0 [.plain, .id "1", .instant 3, .plain, .plain, .plain, .id "2", .plain, .id "3",
    .instant 3, .plain, .id "4", .plain, .id "5", .instant 3, .plain, .plain, .plain, .plain,
    .id "6", .plain, .plain, .plain]

/-- The steps of one that finds its key taken. -/
def sampleRefused : List (Action system) :=
  advances 0 [.plain, .id "7", .instant 3, .plain, .plain, .plain, .plain]

/-- The two requests one after the other. -/
def sampleExchange (settings : Settings) (first second : ApiRequest) :
    Option ((Answer × Database) × (Answer × Database)) :=
  (runAlone (Y := system) ({} : Database) ({ clock := 10 } : World)
    (first.serve settings).run sampleServed).bind fun served =>
      (runAlone (Y := system) served.2 ({ clock := 10 } : World)
        (second.serve settings).run sampleRefused).map fun refused => (served, refused)

/-- Digests that tell the modes apart. -/
def sampleDigest : Json → String
  | .object fields =>
      if fields.any fun field => match field with
        | ("livemode", .bool true) => true
        | _ => false
      then "live" else "test"
  | _ => "none"

theorem sampleExchange_served {settings : Settings} {first second : ApiRequest}
    {served refused : Answer × Database}
    (h : sampleExchange settings first second = some (served, refused)) :
    ApiRun settings {} [(first, served.1)] served.2 ∧
      Finishes (Y := system) served.2 (second.serve settings).run refused.1 refused.2 := by
  obtain ⟨served', hserved, hrest⟩ := Option.bind_eq_some_iff.mp h
  obtain ⟨refused', hrefused, hpair⟩ := Option.map_eq_some_iff.mp hrest
  cases hpair
  exact ⟨.serve .start (.of_runAlone hserved), .of_runAlone hrefused⟩

theorem posting_idempotent_otherMode : ∃ before answer after response,
    Idempotent { sampleSettings with sha256 := sampleDigest } {}
      [(.post "payzeno-api" sampleBody, .ok response)] before
      (.post "payzeno-api" { sampleBody with livemode := false }) answer after ∧
    after.transactions.length = 1 := by
  have hschedule : (sampleExchange { sampleSettings with sha256 := sampleDigest }
      (.post "payzeno-api" sampleBody)
      (.post "payzeno-api" { sampleBody with livemode := false })).map
        (fun exchange => (exchange.1.1.toBool, exchange.2.2.transactions.length)) =
      some (true, 1) := by
    decide +kernel
  obtain ⟨⟨⟨answer, before⟩, answer', after⟩, hexchange, hends⟩ :=
    Option.map_eq_some_iff.mp hschedule
  obtain ⟨run, finishes⟩ := sampleExchange_served hexchange
  obtain ⟨hok, hlength⟩ := Prod.mk.inj hends
  cases answer with
  | error raised => cases hok
  | ok response =>
      refine ⟨before, answer', after, response, ?_, hlength⟩
      refine (posting_idempotent unique_empty run finishes ?_).mpr ?_
      · simp only [accepted, List.flatMap_cons, List.flatMap_nil, ApiRequest.bodies,
          List.append_nil, List.singleton_append, List.mem_cons, List.not_mem_nil, or_false]
        rintro body (rfl | rfl) other (rfl | rfl) hdigest
        · rfl
        · exact absurd hdigest (by decide)
        · exact absurd hdigest (by decide)
        · rfl
      · intro earlier body first repeats
        obtain ⟨rfl, rfl, hfirst⟩ := repeats.single
        have hsame : first = sampleBody := by
          simpa [accepted, firstWith, ApiRequest.bodies] using hfirst.symm
        rw [hsame]
        exact ⟨(assertInvariants_ok_iff _).mp rfl, .inr (.inr (by decide))⟩

/-- The same body sent twice through `POST /transactions`: the second is refused. -/
theorem identical_repeat_refused : ∃ before answer after response,
    ApiRun sampleSettings {} [(.post "payzeno-api" sampleBody, .ok response)] before ∧
    Finishes (Y := system) before
      ((ApiRequest.post "payzeno-api" sampleBody).serve sampleSettings).run answer after ∧
    ¬ Idempotent sampleSettings {} [(.post "payzeno-api" sampleBody, .ok response)] before
      (.post "payzeno-api" sampleBody) answer after := by
  have hschedule : (sampleExchange sampleSettings (.post "payzeno-api" sampleBody)
      (.post "payzeno-api" sampleBody)).map
        (fun exchange => (exchange.1.1.toBool, exchange.2.1.toBool)) = some (true, false) := by
    decide +kernel
  obtain ⟨⟨⟨answer, before⟩, answer', after⟩, hexchange, hends⟩ :=
    Option.map_eq_some_iff.mp hschedule
  obtain ⟨run, finishes⟩ := sampleExchange_served hexchange
  obtain ⟨hok, hrefused⟩ := Prod.mk.inj hends
  cases answer with
  | error raised => cases hok
  | ok response =>
      refine ⟨before, answer', after, response, run, finishes, fun idempotent => ?_⟩
      have repeats : Repeats {} [(.post "payzeno-api" sampleBody, .ok response)]
          (.post "payzeno-api" sampleBody) [] sampleBody sampleBody :=
        ⟨⟨[], rfl⟩, by simp [HasKey], rfl⟩
      obtain ⟨-, response', rfl⟩ := idempotent.answered (.single repeats)
      cases hrefused

end PayzenoLedger
