import PayzenoLedger.Consumers.Base

/-!
# Exactly once

Delivery is at least once, and consumers crash and overlap.  Whatever they do with the events,
each event is handled in one committed transaction at most for each consumer name, that
transaction is the claim and a whole run of the handler, and a message that is gone from its
queue was handled or is of no type that its consumer handles.  The service may do anything else
beside it.
-/

set_option autoImplicit false

namespace PayzenoLedger

open Library Schema Write

/-- The consumer has claimed the event. -/
def ClaimedEvent (consumer eventId : String) (db : consumerSystem.schema.Database) : Prop :=
  ∃ row ∈ db.1, row.eventId = eventId ∧ row.consumer = consumer

theorem ClaimedEvent.mono {consumer eventId : String} {db db' : consumerSystem.schema.Database}
    (claimed : ClaimedEvent consumer eventId db) (grows : Extends db db') :
    ClaimedEvent consumer eventId db' := by
  obtain ⟨row, hrow, hkey⟩ := claimed
  obtain ⟨row', hrow', hsame⟩ := grows.survives (Sum.inl ()) hrow
  change row' = row at hsame
  exact ⟨row', hrow', hsame ▸ hkey⟩

/-- One of the consumers of its queue has nothing more to do with the message. -/
def Done (codec : EventCodec) (consumers : List BaseConsumer) (entry : String × Message)
    (db : consumerSystem.schema.Database) : Prop :=
  ∃ consumer ∈ consumers, consumer.queueUrl = entry.1 ∧
    ∃ envelope, codec.parse entry.2 = .ok envelope ∧
      (envelope.type ∉ consumer.handledTypes ∨ ClaimedEvent consumer.consumerName envelope.id db)

theorem Done.mono {codec : EventCodec} {consumers : List BaseConsumer} {entry : String × Message}
    {db db' : consumerSystem.schema.Database} (done : Done codec consumers entry db)
    (grows : Extends db db') : Done codec consumers entry db' := by
  obtain ⟨consumer, hconsumer, hqueue, envelope, hparse, h⟩ := done
  exact ⟨consumer, hconsumer, hqueue, envelope, hparse, h.imp_right fun h => h.mono grows⟩

/-- What a transaction that began with an event commits: nothing, where the event was
claimed already, and else the claim with all that a run of the handler writes. -/
inductive Whole (consumers : List BaseConsumer) (name : String) (envelope : EventEnvelope) :
    List (Write consumerSystem.schema) → Prop
  | deduped : Whole consumers name envelope []
  | handled {consumer : BaseConsumer} (mem : consumer ∈ consumers)
      (hname : consumer.consumerName = name) (processedAt : Instant)
      {writes : List (Write consumerSystem.schema)}
      (leaves : Program.Leaves ((consumer.handle envelope).among inbox).run writes (.ok ())) :
      Whole consumers name envelope
        (.insert (S := consumerSystem.schema) (.inl ())
          (⟨envelope.id, name, processedAt⟩ : ProcessedEvent) :: writes)

/-! ## The discipline -/

section Discipline

variable (codec : EventCodec) (consumers : List BaseConsumer)

/-- What all workers keep. -/
structure InboxKept (shared : Shared consumerSystem) : Prop where
  whole : ∀ worker name envelope writes,
    (worker, Event.committed (Sum.inl (.message name envelope)) writes) ∈ shared.trace →
      Whole consumers name envelope writes
  inner : ∀ worker name writes,
    (worker, Event.committed (Y := consumerSystem) (Sum.inr name) writes) ∈ shared.trace →
      ∀ write ∈ writes, Write.Inner write
  pending : ∀ entry ∈ shared.world.1.pending, entry ∈ shared.world.1.sent
  receipts : (shared.world.1.sent.map fun entry => (entry.1, entry.2.receiptHandle)).Nodup
  kept : ∀ entry ∈ shared.world.1.sent,
    entry ∈ shared.world.1.pending ∨ Done codec consumers entry shared.committed

variable {codec consumers}

/-- An event that is no commit, and a move of the service's own world. -/
theorem InboxKept.quiet {shared shared' : Shared consumerSystem} {worker : Nat}
    {event : Event consumerSystem} (kept : InboxKept codec consumers shared)
    (htrace : shared'.trace = shared.trace ++ [(worker, event)])
    (hevent : ∀ name writes, event ≠ .committed name writes)
    (hworld : shared'.world.1 = shared.world.1)
    (hcommitted : shared'.committed = shared.committed) : InboxKept codec consumers shared' where
  whole author name envelope writes hmem := by
    rw [htrace] at hmem
    rcases List.mem_append.mp hmem with hold | hnew
    · exact kept.whole author name envelope writes hold
    · exact absurd (Prod.mk.inj (List.mem_singleton.mp hnew)).2.symm (hevent _ _)
  inner author name writes hmem := by
    rw [htrace] at hmem
    rcases List.mem_append.mp hmem with hold | hnew
    · exact kept.inner author name writes hold
    · exact absurd (Prod.mk.inj (List.mem_singleton.mp hnew)).2.symm (hevent _ _)
  pending := by
    rw [hworld]
    exact kept.pending
  receipts := by
    rw [hworld]
    exact kept.receipts
  kept := by
    rw [hworld, hcommitted]
    exact kept.kept

/-- A commit that is as it should be. -/
theorem InboxKept.commit {shared : Shared consumerSystem} (kept : InboxKept codec consumers shared)
    (worker : Nat) {top : Session consumerSystem}
    (hwhole : ∀ name envelope, top.name = .inl (.message name envelope) →
      Whole consumers name envelope top.writes)
    (hinner : ∀ name, top.name = .inr name → ∀ write ∈ top.writes, Write.Inner write) :
    InboxKept codec consumers (shared.commit worker top) where
  whole author name envelope writes hmem := by
    rcases List.mem_append.mp hmem with hold | hnew
    · exact kept.whole author name envelope writes hold
    · obtain ⟨hname, hwrites⟩ := Event.committed.inj (Prod.mk.inj (List.mem_singleton.mp hnew)).2
      rw [hwrites]
      exact hwhole name envelope hname.symm
  inner author name writes hmem := by
    rcases List.mem_append.mp hmem with hold | hnew
    · exact kept.inner author name writes hold
    · obtain ⟨hname, hwrites⟩ := Event.committed.inj (Prod.mk.inj (List.mem_singleton.mp hnew)).2
      rw [hwrites]
      exact hinner name hname.symm
  pending := kept.pending
  receipts := kept.receipts
  kept entry hentry := (kept.kept entry hentry).imp_right fun done =>
    done.mono (applyAll_extends _ _)

/-- A message that somebody deleted was done with. -/
theorem InboxKept.delete {shared : Shared consumerSystem} (kept : InboxKept codec consumers shared)
    {queueUrl : String} {message : Message} (hsent : (queueUrl, message) ∈ shared.world.1.sent)
    (done : Done codec consumers (queueUrl, message) shared.committed) (worker : Nat)
    (reply : (consumerSystem.Reply (.inl (.deleteMessage queueUrl message.receiptHandle)))) :
    InboxKept codec consumers (shared.answer worker
      (shared.world.1.delete queueUrl message.receiptHandle, shared.world.2)
      (.inl (.deleteMessage queueUrl message.receiptHandle)) reply) where
  whole author name envelope writes hmem := by
    rcases List.mem_append.mp hmem with hold | hnew
    · exact kept.whole author name envelope writes hold
    · cases List.mem_singleton.mp hnew
  inner author name writes hmem := by
    rcases List.mem_append.mp hmem with hold | hnew
    · exact kept.inner author name writes hold
    · cases List.mem_singleton.mp hnew
  pending entry hentry := kept.pending entry (List.mem_filter.mp hentry).1
  receipts := kept.receipts
  kept entry hentry := by
    rcases kept.kept entry hentry with hpending | hdone
    · by_cases hsame : entry.1 = queueUrl ∧ entry.2.receiptHandle = message.receiptHandle
      · have heq : entry = (queueUrl, message) :=
          List.inj_on_of_nodup_map kept.receipts hentry hsent (by rw [hsame.1, hsame.2])
        rw [heq]
        exact .inr done
      · exact .inl (List.mem_filter.mpr ⟨hpending, by simpa [imp_iff_not_or] using hsame⟩)
    · exact .inr hdone

/-- Whatever a delete answers, it leaves a message that is not done with. -/
theorem InboxKept.deleted {shared : Shared consumerSystem}
    (kept : InboxKept codec consumers shared) {queueUrl : String} {message : Message}
    (hsent : (queueUrl, message) ∈ shared.world.1.sent)
    (done : Done codec consumers (queueUrl, message) shared.committed) (worker : Nat)
    {choice : BusChoice}
    {answer : BusRequest.Reply (.deleteMessage queueUrl message.receiptHandle) × Bus}
    (hanswer : Bus.respond worker (.deleteMessage queueUrl message.receiptHandle) choice
      shared.world.1 = some answer) :
    InboxKept codec consumers (shared.answer worker (answer.2, shared.world.2)
        (.inl (.deleteMessage queueUrl message.receiptHandle)) answer.1) ∧
      answer.2.sent = shared.world.1.sent := by
  cases choice with
  | plain =>
      cases hanswer
      exact ⟨kept.delete hsent done worker _, rfl⟩
  | fails error performed =>
      cases hanswer
      cases performed with
      | true => exact ⟨kept.delete hsent done worker _, rfl⟩
      | false => exact ⟨kept.quiet rfl nofun rfl rfl, rfl⟩
  | delivers positions => cases hanswer
  | sends queueUrl message => cases hanswer

/-- A queue delivers only what is still on it. -/
theorem Bus.respond_receive (worker : Nat) {queueUrl : String} {choice : BusChoice} {bus : Bus}
    {answer : BusRequest.Reply (.receiveMessage queueUrl) × Bus}
    (hanswer : Bus.respond worker (.receiveMessage queueUrl) choice bus = some answer) :
    answer.2 = bus ∧ ∀ messages, answer.1 = .ok messages →
      ∀ message ∈ messages, (queueUrl, message) ∈ bus.pending := by
  cases choice with
  | delivers positions =>
      cases hanswer
      refine ⟨rfl, fun messages hmessages message hmessage => ?_⟩
      cases hmessages
      obtain ⟨position, -, hposition⟩ := List.mem_filterMap.mp (List.mem_of_mem_take hmessage)
      obtain ⟨entry, hentry, rfl⟩ := List.mem_map.mp (List.mem_of_getElem? hposition)
      obtain ⟨hpending, hqueue⟩ := List.mem_filter.mp hentry
      rw [← of_decide_eq_true hqueue]
      exact hpending
  | fails error performed =>
      cases hanswer
      exact ⟨rfl, nofun⟩
  | plain => cases hanswer
  | sends queueUrl message => cases hanswer

variable (codec consumers)

/-- No message is unsent, and the inbox is kept. -/
def inboxDiscipline : Discipline consumerSystem where
  permits := anyMove
  guarantee _ _ before after := ∀ entry ∈ before.world.1.sent, entry ∈ after.world.1.sent
  invariant := InboxKept codec consumers
  required _ := none
  meaning _ _ := True
  meaning_extends _ _ _ _ h := h
  drift_sound shared choice world kept hdrift := by
    rcases choice with choice | choice
    · obtain ⟨bus, hbus, rfl⟩ := Option.map_eq_some_iff.mp hdrift
      cases choice with
      | sends queueUrl message =>
          simp only [inbox, Bus.drift] at hbus
          split at hbus
          · cases hbus
          · next hfresh =>
              cases hbus
              refine ⟨kept.whole, kept.inner, fun entry hentry => ?_, ?_, fun entry hentry => ?_⟩
              · exact List.mem_append.mpr ((List.mem_append.mp hentry).imp_left
                  (kept.pending entry))
              · simp only [List.map_append, List.map_cons, List.map_nil]
                refine List.nodup_append.mpr ⟨kept.receipts, List.nodup_singleton _, ?_⟩
                intro first hfirst second hsecond heq
                rw [List.mem_singleton.mp hsecond] at heq
                exact hfresh (heq ▸ hfirst)
              · rcases List.mem_append.mp hentry with hold | hnew
                · exact (kept.kept entry hold).imp_left fun h => List.mem_append_left _ h
                · exact .inl (List.mem_append_right _ hnew)
      | plain => cases hbus
      | delivers positions => cases hbus
      | fails error performed => cases hbus
    · obtain ⟨own, -, rfl⟩ := Option.map_eq_some_iff.mp hdrift
      exact ⟨kept.whole, kept.inner, kept.pending, kept.receipts, kept.kept⟩
  enter_sound _ _ _ _ kept _ := ⟨fun _ h => h, kept.quiet rfl nofun rfl rfl⟩
  rollback_sound _ _ _ _ kept _ := ⟨fun _ h => h, kept.quiet rfl nofun rfl rfl⟩
  crash_sound _ _ _ kept _ := ⟨fun _ h => h, kept.quiet rfl nofun rfl rfl⟩

variable {codec consumers}

theorem inboxDiscipline_unmarked : (inboxDiscipline codec consumers).Unmarked :=
  fun _ => ⟨rfl, fun _ => trivial⟩

/-- The rest of the service keeps to it. -/
theorem inboxDiscipline_hosts : (inboxDiscipline codec consumers).Hosts where
  unmarked := inboxDiscipline_unmarked
  commit {worker _ _ _} good inner := by
    obtain ⟨⟨name, hname⟩, hwrites⟩ := inner
    refine ⟨fun _ h => h, good.2.commit worker ?_ fun _ _ => hwrites⟩
    intro consumer envelope hmessage
    rw [hname] at hmessage
    cases hmessage
  call {_ _ _ choice _ _ _} good hreply := by
    rcases choice with choice | choice
    · cases hreply
    · obtain ⟨answer, -, hanswer⟩ := Option.map_eq_some_iff.mp hreply
      cases hanswer
      exact ⟨fun _ h => h, good.2.quiet rfl nofun rfl rfl⟩

end Discipline

/-! ## The programs -/

section Programs

variable {codec : EventCodec} {consumers : List BaseConsumer} {worker : Nat}
  {shared : Shared consumerSystem}

/-- What was sent before was sent later. -/
def StillSent (before after : Shared consumerSystem) : Prop :=
  ∀ entry ∈ before.world.1.sent, entry ∈ after.world.1.sent

theorem StillSent.trans {first second third : Shared consumerSystem}
    (early : StillSent first second) (late : StillSent second third) : StillSent first third :=
  fun entry hentry => late entry (early entry hentry)

/-- A sent message stays sent. -/
theorem sent_of_rely {held : Lock consumerSystem → Prop} {shared' : Shared consumerSystem}
    (rely : (inboxDiscipline codec consumers).Rely worker held shared shared')
    (good : (inboxDiscipline codec consumers).Good shared) :
    StillSent shared shared' := by
  refine rely.preserves good (fun later => StillSent shared later)
    (fun before after _ step hbefore entry hentry => ?_) fun _ h => h
  rcases step.cause with ⟨choice, world, hdrift, rfl⟩ | ⟨_, _, _, _, hguarantee, _⟩
  · rcases choice with choice | choice
    · obtain ⟨bus, hbus, rfl⟩ := Option.map_eq_some_iff.mp hdrift
      cases choice with
      | sends queueUrl message =>
          simp only [inbox, Bus.drift] at hbus
          split at hbus <;> cases hbus
          exact List.mem_append_left _ (hbefore entry hentry)
      | plain => cases hbus
      | delivers positions => cases hbus
      | fails error performed => cases hbus
    · obtain ⟨own, -, rfl⟩ := Option.map_eq_some_iff.mp hdrift
      exact hbefore entry hentry
  · exact hguarantee entry (hbefore entry hentry)

/-- The claim is written with its session, or somebody else has it. -/
theorem ProcessedEventRepository.wpr_claim {eventId consumer : String}
    {top : Session consumerSystem} {rest : List (Session consumerSystem)}
    {ok : Bool → List (Session consumerSystem) → Shared consumerSystem → Prop}
    {error : Exception → List (Session consumerSystem) → Shared consumerSystem → Prop}
    (hours : ∀ shared' processedAt,
      Progress (inboxDiscipline codec consumers) worker rest top shared
        (top.insert (.inl ()) (⟨eventId, consumer, processedAt⟩ : ProcessedEvent)) shared' →
      ok true (top.insert (.inl ()) (⟨eventId, consumer, processedAt⟩ : ProcessedEvent) :: rest)
        shared')
    (htaken : ∀ shared', Progress (inboxDiscipline codec consumers) worker rest top shared top
        shared' → ClaimedEvent consumer eventId (top.view shared'.committed) →
      ok false (top :: rest) shared') :
    wpr (inboxDiscipline codec consumers) worker (claim eventId consumer) ok error (top :: rest)
      shared := by
  unfold claim wallClock
  rw [wpr_bind]
  refine wpr_query fun shared₁ choice processedAt progress₁ _ => ?_
  rw [wpr_bind]
  refine wpr_insert (fun shared₂ _ _ progress₂ => ?_) fun shared₂ taken progress₂ hne htaken₂ => ?_
  · exact hours shared₂ processedAt (progress₁.trans progress₂)
  · obtain ⟨key, keys, rfl⟩ := List.exists_cons_of_ne_nil hne
    refine htaken shared₂ (progress₁.trans progress₂) ?_
    obtain ⟨hkey, hheld⟩ := (htaken₂ key).mp List.mem_cons_self
    obtain ⟨row, hrow⟩ := List.exists_mem_of_ne_nil _ hheld
    have hsame : key = .inl (eventId, consumer) := List.mem_singleton.mp hkey
    subst hsame
    obtain ⟨hmem, hholds⟩ := mem_holders.mp hrow
    have hpair := Sum.inl.inj (List.mem_singleton.mp hholds)
    exact ⟨row, hmem, (Prod.mk.inj hpair).1.symm, (Prod.mk.inj hpair).2.symm⟩

/-- The commit of a claim, whatever the service wrote with it. -/
theorem claimed_commit {row : ProcessedEvent} {writes : List (Write consumerSystem.schema)}
    {top : Session consumerSystem}
    (hwrites : top.writes = .insert (S := consumerSystem.schema) (.inl ()) row :: writes)
    (inner : ∀ write ∈ writes, Write.Inner write) :
    ClaimedEvent row.consumer row.eventId (shared.commit worker top).committed := by
  refine ⟨row, ?_, rfl, rfl⟩
  change row ∈ (applyAll top.writes shared.committed).1
  rw [hwrites, applyAll_cons]
  have hrows := Write.Inner.rows inner ()
    ((Write.insert (S := consumerSystem.schema) (.inl ()) row).apply shared.committed)
  change (applyAll writes _).1 = shared.committed.1 ++ [row] at hrows
  rw [hrows]
  exact List.mem_append_right _ List.mem_cons_self

/-- The commit of a session that handled the event, or that found it claimed. -/
theorem InboxKept.commitWhole (kept : InboxKept codec consumers shared) (worker : Nat)
    {name : String} {envelope : EventEnvelope} {top : Session consumerSystem}
    (hname : top.name = .inl (.message name envelope))
    (whole : Whole consumers name envelope top.writes) :
    InboxKept codec consumers (shared.commit worker top) := by
  refine kept.commit worker (fun other envelope' hother => ?_) fun other hother => ?_
  · rw [hname] at hother
    cases hother
    exact whole
  · rw [hname] at hother
    cases hother

namespace BaseConsumer

variable {consumer : BaseConsumer}

/-- The handler, after the claim: its commit leaves the event claimed. -/
theorem wpr_handleClaimed {envelope : EventEnvelope} {processedAt : Instant}
    {top : Session consumerSystem} (mem : consumer ∈ consumers)
    (hstays : (consumer.handle envelope).Stays)
    (hname : top.name = .inl (.message consumer.consumerName envelope))
    (hwrites : top.writes = [.insert (S := consumerSystem.schema) (.inl ())
      (⟨envelope.id, consumer.consumerName, processedAt⟩ : ProcessedEvent)])
    (progress : Progress (inboxDiscipline codec consumers) worker [] top shared top shared) :
    wpr (inboxDiscipline codec consumers) worker ((consumer.handle envelope).among inbox)
      (fun _ stack shared' => ∃ top, stack = [top] ∧
        Commits (inboxDiscipline codec consumers) worker top [] shared' fun after =>
          StillSent shared after ∧ (inboxDiscipline codec consumers).Good after ∧
            ClaimedEvent consumer.consumerName envelope.id after.committed)
      (fun _ stack shared' => ∃ top, stack = [top] ∧
        RollsBack (inboxDiscipline codec consumers) worker top [] shared' fun after =>
          StillSent shared after ∧ (inboxDiscipline codec consumers).Good after)
      [top] shared := by
  refine wp_leaves hstays.among inboxDiscipline_unmarked progress
    fun result top₁ shared₁ writes onward₁ hwrites₁ leaves => ?_
  have sent₁ := sent_of_rely onward₁.rely progress.good
  have hinward := (Raising.Stays.among (E := inbox) hstays).leaves_writes leaves
  cases result with
  | ok _ =>
      refine ⟨top₁, rfl, fun shared₂ rely₂ good₂ foot₂ _ => ?_⟩
      have hclaim : top₁.writes = .insert (S := consumerSystem.schema) (.inl ())
          (⟨envelope.id, consumer.consumerName, processedAt⟩ : ProcessedEvent) :: writes := by
        rw [hwrites₁, hwrites]
        rfl
      have kept₂ : InboxKept codec consumers (shared₂.commit worker top₁) := by
        refine good₂.2.commitWhole worker (onward₁.name.trans hname) ?_
        rw [hclaim]
        exact .handled mem rfl processedAt leaves
      have sent₂ : StillSent shared₁ shared₂ := sent_of_rely rely₂ onward₁.good
      exact ⟨fun _ h => h, kept₂, sent₁.trans sent₂,
        ⟨foot₂.unique _ (Agree.refl _ _) good₂.1, kept₂⟩, claimed_commit hclaim hinward⟩
  | error raised =>
      refine ⟨top₁, rfl, fun shared₂ rely₂ good₂ _ => ?_⟩
      have sent₂ : StillSent shared₁ shared₂ := sent_of_rely rely₂ onward₁.good
      exact ⟨sent₁.trans sent₂, good₂.1, good₂.2.quiet rfl nofun rfl rfl⟩

/-- One message: it may be deleted when it is done with. -/
theorem wpr_handleMessage {message : Message} (mem : consumer ∈ consumers)
    (hstays : ∀ envelope, (consumer.handle envelope).Stays)
    {ok : Bool → List (Session consumerSystem) → Shared consumerSystem → Prop}
    {error : Exception → List (Session consumerSystem) → Shared consumerSystem → Prop}
    (hok : ∀ handled shared', StillSent shared shared' →
      (inboxDiscipline codec consumers).Good shared' →
      (handled = true → Done codec consumers (consumer.queueUrl, message) shared'.committed) →
      ok handled [] shared')
    (herror : ∀ raised shared', error raised [] shared')
    (good : (inboxDiscipline codec consumers).Good shared) :
    wpr (inboxDiscipline codec consumers) worker (handleMessage codec consumer message) ok error []
      shared := by
  unfold handleMessage
  cases hparse : codec.parse message with
  | error raised =>
      dsimp only
      split
      · exact hok false shared (fun _ h => h) good nofun
      · exact herror raised shared
  | ok envelope =>
      dsimp only
      split
      · next htype =>
          exact hok true shared (fun _ h => h) good fun _ =>
            ⟨consumer, mem, rfl, envelope, hparse, .inl htype⟩
      rw [wpr_recover]
      refine wpr_withSession fun shared₁ rely₁ _ _ good₁ => ?_
      have sent₁ : StillSent shared shared₁ := sent_of_rely rely₁ good
      rw [wpr_bind]
      refine ProcessedEventRepository.wpr_claim (fun shared₂ processedAt progress₂ => ?_)
        fun shared₂ progress₂ hclaimed => ?_
      · have sent₂ : StillSent shared₁ shared₂ := fun entry hentry =>
          sent_of_rely progress₂.rely good₁ entry hentry
        rw [if_pos rfl, wpr_bind]
        refine wpr_mono (wpr_handleClaimed mem (hstays envelope) rfl rfl progress₂.here) ?_ ?_
        · rintro value stack shared₃ ⟨top, rfl, commits⟩
          refine ⟨top, rfl, fun shared₄ rely₄ good₄ foot₄ permits₄ => ?_⟩
          obtain ⟨hguarantee, hkept, sent₄, good₄, hclaimed⟩ :=
            commits shared₄ rely₄ good₄ foot₄ permits₄
          exact ⟨hguarantee, hkept, hok true _ (sent₁.trans (sent₂.trans sent₄)) good₄ fun _ =>
            ⟨consumer, mem, rfl, envelope, hparse, .inr hclaimed⟩⟩
        · rintro raised stack shared₃ ⟨top, rfl, rolls⟩
          refine ⟨top, rfl, fun shared₄ rely₄ good₄ permits₄ => ?_⟩
          obtain ⟨sent₄, good₄⟩ := rolls shared₄ rely₄ good₄ permits₄
          cases raised with
          | ledger inner => exact hok false _ (sent₁.trans (sent₂.trans sent₄)) good₄ nofun
          | _ => exact herror _ _
      · have sent₂ : StillSent shared₁ shared₂ := fun entry hentry =>
          sent_of_rely progress₂.rely good₁ entry hentry
        refine ⟨_, rfl, fun shared₃ rely₃ good₃ foot₃ _ => ?_⟩
        have kept₃ : InboxKept codec consumers (shared₃.commit worker
            (Session.fresh (.inl (.message consumer.consumerName envelope)))) :=
          good₃.2.commitWhole worker rfl .deduped
        have sent₃ : StillSent shared₂ shared₃ := sent_of_rely rely₃ progress₂.good
        refine ⟨fun _ h => h, kept₃, hok true _ (sent₁.trans (sent₂.trans sent₃))
          ⟨foot₃.unique _ (Agree.refl _ _) good₃.1, kept₃⟩ fun _ =>
            ⟨consumer, mem, rfl, envelope, hparse, .inr ?_⟩⟩
        exact hclaimed.mono (rely₃.later progress₂.good).grows

/-- The messages of one delivery. -/
theorem wpr_handleMessages {messages : List Message} (mem : consumer ∈ consumers)
    (hstays : ∀ envelope, (consumer.handle envelope).Stays)
    {ok : Unit → List (Session consumerSystem) → Shared consumerSystem → Prop}
    (hok : ∀ shared', (inboxDiscipline codec consumers).Good shared' → ok () [] shared')
    (good : (inboxDiscipline codec consumers).Good shared)
    (hsent : ∀ message ∈ messages, (consumer.queueUrl, message) ∈ shared.world.1.sent) :
    wpr (inboxDiscipline codec consumers) worker (handleMessages codec consumer messages) ok
      (fun _ _ _ => True) [] shared := by
  induction messages generalizing shared with
  | nil => exact hok shared good
  | cons message messages ih =>
      have hmessage := hsent message List.mem_cons_self
      have hrest {shared' : Shared consumerSystem}
          (h : StillSent shared shared') :
          ∀ later ∈ messages, (consumer.queueUrl, later) ∈ shared'.world.1.sent :=
        fun later hlater => h _ (hsent later (List.mem_cons_of_mem _ hlater))
      unfold handleMessages
      rw [wpr_bind]
      refine wpr_handleMessage mem hstays (fun handled shared₁ sent₁ good₁ hdone => ?_)
        (fun _ _ => trivial) good
      cases handled with
      | false => exact ih good₁ (hrest sent₁)
      | true =>
          have done := hdone rfl
          rw [if_pos rfl, wpr_bind]
          refine wpr_call fun shared₂ choice reply world rely₂ good₂ hreply _ => ?_
          have sent₂ := sent_of_rely rely₂ good₁
          rcases choice with choice | choice
          · obtain ⟨answer, hanswer, hsame⟩ := Option.map_eq_some_iff.mp hreply
            cases hsame
            have kept₂ := good₂.2.deleted (sent₂ _ (sent₁ _ hmessage))
              (done.mono (rely₂.later good₁).grows) worker hanswer
            refine ⟨fun _ h => kept₂.2 ▸ h, kept₂.1, ?_⟩
            cases hreplied : answer.1 with
            | error raised => trivial
            | ok value =>
                exact ih ⟨good₂.1, hreplied ▸ kept₂.1⟩
                  (hrest fun entry hentry => kept₂.2 ▸ sent₂ _ (sent₁ _ hentry))
          · cases hreply

/-- The loop, however often it polls. -/
theorem wpr_run {polls : Nat} (mem : consumer ∈ consumers)
    (hstays : ∀ envelope, (consumer.handle envelope).Stays)
    (good : (inboxDiscipline codec consumers).Good shared) :
    wpr (inboxDiscipline codec consumers) worker (run codec consumer polls) (fun _ _ _ => True)
      (fun _ _ _ => True) [] shared := by
  induction polls generalizing shared with
  | zero => trivial
  | succ polls ih =>
      unfold run
      rw [wpr_bind]
      refine wpr_call fun shared₁ choice reply world rely₁ good₁ hreply _ => ?_
      rcases choice with choice | choice
      · obtain ⟨answer, hanswer, hsame⟩ := Option.map_eq_some_iff.mp hreply
        cases hsame
        obtain ⟨hworld, hdelivered⟩ := Bus.respond_receive worker hanswer
        have kept₁ : InboxKept codec consumers (shared₁.answer worker (answer.2, shared₁.world.2)
            (.inl (.receiveMessage consumer.queueUrl)) answer.1) :=
          good₁.2.quiet rfl nofun hworld rfl
        refine ⟨fun entry h => ?_, kept₁, ?_⟩
        · change entry ∈ answer.2.sent
          rw [hworld]
          exact h
        · cases hmessages : answer.1 with
          | error raised => trivial
          | ok messages =>
              rw [wpr_bind]
              unfold answered
              dsimp only
              rw [wpr_pure, wpr_bind]
              refine wpr_handleMessages mem hstays (fun shared₂ good₂ => ih good₂)
                ⟨good₁.1, hmessages ▸ kept₁⟩ fun message hmessage => ?_
              exact kept₁.pending _ (hworld ▸ hdelivered messages hmessages message hmessage)
      · cases hreply

end BaseConsumer

end Programs

/-! ## Runs -/

/-- A worker of the service: a consumer, polling so often, or any other coroutine. -/
inductive InboxJob where
  | consume (consumer : BaseConsumer) (polls : Nat)
  | service (program : Async Unit)

namespace InboxJob

def run (codec : EventCodec) : InboxJob → Consuming Unit
  | consume consumer polls => consumer.run codec polls
  | service program => program.among inbox

def consumer? : InboxJob → Option BaseConsumer
  | consume consumer _ => some consumer
  | service _ => none

end InboxJob

def inboxWorkers (codec : EventCodec) (jobs : List InboxJob) :
    List (Program consumerSystem (Except Exception Unit)) :=
  jobs.map fun job => (job.run codec).run

/-- The consumers among the jobs. -/
def consumersOf (jobs : List InboxJob) : List BaseConsumer :=
  jobs.filterMap InboxJob.consumer?

/-- The primary key of a claim. -/
def ProcessedEvent.key (row : ProcessedEvent) : String × String :=
  (row.eventId, row.consumer)

/-- The event that a committed transaction handled, if it was one of a consumer's and the
event was not handled before. -/
def handledBy : Event consumerSystem → Option (String × String)
  | .committed (.inl (.message consumer envelope)) (_ :: _) => some (envelope.id, consumer)
  | _ => none

/-- The events handled so far, in the order of the commits. -/
def handledIn (shared : Shared consumerSystem) : List (String × String) :=
  shared.trace.filterMap fun entry => handledBy entry.2

/-- Each event is handled once at most for each consumer: what was handled is what is
claimed, every transaction is a whole run of its handler, and no message is lost. -/
structure ExactlyOnce (codec : EventCodec) (consumers : List BaseConsumer)
    (claimed : List ProcessedEvent) (shared : Shared consumerSystem) : Prop where
  claims : shared.committed.1.map (·.key) = claimed.map (·.key) ++ handledIn shared
  once : (claimed.map (·.key) ++ handledIn shared).Nodup
  whole : ∀ worker name envelope writes,
    (worker, Event.committed (Sum.inl (.message name envelope)) writes) ∈ shared.trace →
      Whole consumers name envelope writes
  kept : ∀ entry ∈ shared.world.1.sent,
    entry ∈ shared.world.1.pending ∨ Done codec consumers entry shared.committed

section Runs

variable {codec : EventCodec} {jobs : List InboxJob} {db : consumerSystem.schema.Database}
  {world : consumerSystem.World} {config : Config consumerSystem (Except Exception Unit)}

theorem InboxJob.wp_run {worker : Nat} {shared : Shared consumerSystem} {job : InboxJob}
    (mem : job ∈ jobs)
    (hstays : ∀ consumer ∈ consumersOf jobs, ∀ envelope, (consumer.handle envelope).Stays)
    (good : (inboxDiscipline codec (consumersOf jobs)).Good shared) :
    wp (inboxDiscipline codec (consumersOf jobs)) worker (job.run codec).run
      (fun _ _ _ => True) [] shared := by
  cases job with
  | consume consumer polls =>
      have hconsumer : consumer ∈ consumersOf jobs := List.mem_filterMap.mpr ⟨_, mem, rfl⟩
      have hrun : wpr (inboxDiscipline codec (consumersOf jobs)) worker
          (consumer.run codec polls) (fun _ _ _ => True) (fun _ _ _ => True) [] shared :=
        BaseConsumer.wpr_run hconsumer (hstays consumer hconsumer) good
      exact wp_mono hrun fun _ _ _ _ => trivial
  | service program => exact wp_among inboxDiscipline_hosts program.run nofun

theorem inbox_run (unique : Schema.Unique db)
    (hsent : world.1.pending = world.1.sent)
    (hreceipts : (world.1.sent.map fun entry => (entry.1, entry.2.receiptHandle)).Nodup)
    (hstays : ∀ consumer ∈ consumersOf jobs, ∀ envelope, (consumer.handle envelope).Stays)
    (hrun : Config.Run anyMove (Config.start db world (inboxWorkers codec jobs)) config) :
    (inboxDiscipline codec (consumersOf jobs)).Good config.shared := by
  have kept : InboxKept codec (consumersOf jobs)
      (Config.start db world (inboxWorkers codec jobs)).shared := by
    refine ⟨nofun, nofun, fun entry h => hsent ▸ h, hreceipts, fun entry h => .inl ?_⟩
    change entry ∈ world.1.pending
    rw [hsent]
    exact h
  have stable : StablePost (inboxDiscipline codec (consumersOf jobs))
      (fun _ (_ : Except Exception Unit) _ _ => True) := fun _ _ _ _ _ _ _ _ => trivial
  have sound := Sound.run stable (Sound.start ⟨unique, kept⟩ fun worker program hprogram => by
    simp only [inboxWorkers, List.getElem?_map, Option.map_eq_some_iff] at hprogram
    obtain ⟨job, hjob, rfl⟩ := hprogram
    exact job.wp_run (List.mem_of_getElem? hjob) hstays ⟨unique, kept⟩) hrun
  exact sound.good

/-- The claims among some writes. -/
def claimsOf (writes : List (Write consumerSystem.schema)) : List ProcessedEvent :=
  Write.added (S := consumerSystem.schema) (.inl ()) writes

/-- The claims that a trace added. -/
def claimsIn (trace : List (Nat × Event consumerSystem)) : List ProcessedEvent :=
  addedIn (Y := consumerSystem) (.inl ()) trace

theorem claims_replay (db : consumerSystem.schema.Database)
    (trace : List (Nat × Event consumerSystem)) :
    (replay db trace).1 = db.1 ++ claimsIn trace := by
  have hrows := identities_replay (Y := consumerSystem) (.inl ()) db trace
  change (replay db trace).1.map id = db.1.map id ++ claimsIn trace at hrows
  rw [List.map_id, List.map_id] at hrows
  exact hrows

/-- A whole transaction adds the claim of the event it handled. -/
theorem Whole.added {consumers : List BaseConsumer} {name : String} {envelope : EventEnvelope}
    {writes : List (Write consumerSystem.schema)} (whole : Whole consumers name envelope writes)
    (hstays : ∀ consumer ∈ consumers, ∀ envelope, (consumer.handle envelope).Stays) :
    (claimsOf writes).map ProcessedEvent.key =
      (handledBy (.committed (.inl (.message name envelope)) writes)).toList := by
  cases whole with
  | deduped => rfl
  | handled mem hname processedAt leaves =>
      have inner := (Raising.Stays.among (E := inbox) (hstays _ mem envelope)).leaves_writes leaves
      change ((_ :: Write.added (S := consumerSystem.schema) (.inl ()) _).map _ : List _) = _
      rw [Write.Inner.added inner]
      rfl

/-- They are those of the events it handled. -/
theorem claimsIn_eq_handled {consumers : List BaseConsumer}
    {trace : List (Nat × Event consumerSystem)}
    (whole : ∀ worker name envelope writes,
      (worker, Event.committed (Sum.inl (.message name envelope)) writes) ∈ trace →
        Whole consumers name envelope writes)
    (inner : ∀ worker name writes,
      (worker, Event.committed (Y := consumerSystem) (Sum.inr name) writes) ∈ trace →
        ∀ write ∈ writes, Write.Inner write)
    (hstays : ∀ consumer ∈ consumers, ∀ envelope, (consumer.handle envelope).Stays) :
    (claimsIn trace).map ProcessedEvent.key =
      trace.filterMap fun entry => handledBy entry.2 := by
  induction trace with
  | nil => rfl
  | cons entry trace ih =>
      have hrest := ih
        (fun worker name envelope writes h =>
          whole worker name envelope writes (List.mem_cons_of_mem _ h))
        fun worker name writes h => inner worker name writes (List.mem_cons_of_mem _ h)
      obtain ⟨worker, event⟩ := entry
      cases event with
      | committed name writes =>
          have hclaims : claimsIn ((worker, .committed name writes) :: trace) =
              claimsOf writes ++ claimsIn trace := rfl
          rw [hclaims, List.map_append, hrest]
          rcases name with message | name
          · obtain ⟨name, envelope⟩ := message
            rw [(whole worker name envelope writes List.mem_cons_self).added hstays,
              List.filterMap_cons]
            cases handledBy (.committed (.inl (.message name envelope)) writes) <;> rfl
          · rw [claimsOf, Write.Inner.added (inner worker name writes List.mem_cons_self)]
            rfl
      | _ => exact hrest

/-- Deliveries repeat and overlap, workers crash anywhere, and the service does what it likes
beside them: each event is handled exactly once for each consumer before its message is
gone. -/
theorem consumers_exactly_once (unique : Schema.Unique db)
    (hsent : world.1.pending = world.1.sent)
    (hreceipts : (world.1.sent.map fun entry => (entry.1, entry.2.receiptHandle)).Nodup)
    (hstays : ∀ consumer ∈ consumersOf jobs, ∀ envelope, (consumer.handle envelope).Stays)
    (hrun : Config.Run anyMove (Config.start db world (inboxWorkers codec jobs)) config) :
    ExactlyOnce codec (consumersOf jobs) db.1 config.shared := by
  have good := inbox_run unique hsent hreceipts hstays hrun
  have hclaims : config.shared.committed.1.map ProcessedEvent.key =
      db.1.map ProcessedEvent.key ++ handledIn config.shared := by
    rw [hrun.replay, claims_replay, List.map_append,
      claimsIn_eq_handled good.2.whole good.2.inner hstays]
    rfl
  refine ⟨hclaims, ?_, good.2.whole, good.2.kept⟩
  rw [← hclaims]
  exact good.1.nodup_column (.inl ()) ProcessedEvent.key Sum.inl
    fun _ => List.mem_singleton.mpr rfl

end Runs

/-- Two workers of one consumer; it opens an account for each event. -/
def sampleEventBody : String := "\x7b\"id\": \"evt_1\"\x7d"

def sampleCodec : EventCodec where
  loads body :=
    if body = sampleEventBody then .ok (.object [("id", .text "evt_1")])
    else .error (.valueError "Expecting value")
  toEnvelope
    | .object [("id", .text id)] => .ok ⟨id, "merchant.created", "2026-03-02T09:00:00", true, .null⟩
    | _ => .error (.valueError "Field required")

def sampleOpened : Account where
  id := "acct_1"
  merchantId := some "mer_1"
  type := .merchantPayable
  currency := "EUR"
  normalBalance := .credit
  status := .active
  livemode := true

def sampleConsumer : BaseConsumer where
  consumerName := "merchant_events"
  handledTypes := ["merchant.created"]
  queueUrl := "merchants"
  handle _ := Async.add .account sampleOpened

def sampleInboxStart : Config consumerSystem (Except Exception Unit) :=
  Config.start ([], {})
    (⟨[("merchants", ⟨"r_1", some sampleEventBody⟩)],
      [("merchants", ⟨"r_1", some sampleEventBody⟩)]⟩, { clock := 0 })
    (inboxWorkers sampleCodec [.consume sampleConsumer 1, .consume sampleConsumer 1])

/-- The first worker crashes before it deletes the message, and it is delivered again. -/
def sampleInboxSchedule : List (Action consumerSystem) :=
  [.advance 0 (.inl (.delivers [0])), .advance 0 (.inl .plain), .advance 0 (.inr (.instant 5)),
    .advance 0 (.inr .plain), .advance 0 (.inr .plain), .advance 0 (.inr .plain), .crash 0,
    .advance 1 (.inl (.delivers [0])), .advance 1 (.inl .plain), .advance 1 (.inr (.instant 6)),
    .advance 1 (.inr .plain), .advance 1 (.inr .plain), .advance 1 (.inl .plain)]

theorem consumers_exactly_once_sample :
    ∃ config, Config.Run anyMove sampleInboxStart config ∧
      config.shared.world.1.pending = [] ∧ config.shared.committed.2.accounts = [sampleOpened] ∧
      handledIn config.shared = [("evt_1", "merchant_events")] ∧
      ExactlyOnce sampleCodec [sampleConsumer, sampleConsumer] [] config.shared := by
  have hschedule : (sampleInboxStart.schedule anyMove sampleInboxSchedule).map
      (fun config => (config.shared.world.1.pending, config.shared.committed.2.accounts,
        handledIn config.shared)) =
      some ([], [sampleOpened], [("evt_1", "merchant_events")]) := by
    decide +kernel
  obtain ⟨config, hconfig, hends⟩ := Option.map_eq_some_iff.mp hschedule
  obtain ⟨hpending, hrest⟩ := Prod.mk.inj hends
  obtain ⟨haccounts, hhandled⟩ := Prod.mk.inj hrest
  have hrun := Config.run_of_schedule hconfig
  refine ⟨config, hrun, hpending, haccounts, hhandled, consumers_exactly_once ?_ rfl
    (by decide) (fun consumer hconsumer envelope => ?_) hrun⟩
  · refine Schema.unique_of_pairwise fun table => ?_
    rcases table with _ | table
    · exact .nil
    · cases table <;> exact .nil
  · have hsample : consumer = sampleConsumer := by
      simpa [consumersOf, InboxJob.consumer?] using hconsumer
    rw [hsample]
    refine Raising.Stays.bind (Raising.Stays.execute _) fun taken => ?_
    cases taken with
    | nil => exact Raising.Stays.pure _
    | cons key keys => exact Raising.Stays.throw _

end PayzenoLedger
