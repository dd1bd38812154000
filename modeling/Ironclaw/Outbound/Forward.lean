import Ironclaw.Outbound.Publication

/-! # A publication moves only forward

`Changes` is what a call does to a publication that exists, `update_cases` says that a call does
nothing else. From it: the fence, the desired and the published revision never decrease, the
terminal revision is set once, a settled publication stays (`Forward`), and what the revisions say
about each other (`Sound`). -/

namespace Ironclaw.Outbound

/-! ### What a call does -/

/-- The row that an open writes. -/
def openedRecord (request : OpenReplyPublicationRequest) : ReplyPublicationRecord where
  attempt := request.attempt
  publication := { ReplyPublicationState.opened request.target request.now with
    descriptor := request.descriptor }

/-- The same owner extends its lease. -/
def reentered (request : ClaimReplyPublicationLeaseRequest) (live : ReplyPublicationLease)
    (record : ReplyPublicationRecord) : ReplyPublicationRecord where
  attempt := record.attempt
  publication := { record.publication with
    lease := some ⟨request.owner, max live.expiresAt (request.now + request.ttl)⟩
    updatedAt := request.now }

/-- The lease is given up. -/
def released (record : ReplyPublicationRecord) : ReplyPublicationRecord where
  attempt := record.attempt
  publication := { record.publication with
    lease := none }

/-- The writes of the calls on a publication that exists. -/
inductive Changes : PublicationCall → ReplyPublicationRecord → ReplyPublicationRecord → Prop
  | reenter {request : ClaimReplyPublicationLeaseRequest} {before : ReplyPublicationRecord}
      {live : ReplyPublicationLease} (active : before.publication.status = .active)
      (lease : before.publication.liveLease request.now = some live)
      (owner : live.owner = request.owner) :
      Changes (.claim request) before (reentered request live before)
  | epoch {request : ClaimReplyPublicationLeaseRequest} {before : ReplyPublicationRecord}
      (active : before.publication.status = .active)
      (lease : before.publication.liveLease request.now = none) :
      Changes (.claim request) before
        (newEpoch request (request.now + request.ttl) before.attempt before.publication)
  | advance {request : AdvanceReplyPublicationRequest} {before : ReplyPublicationRecord}
      (published : request.publishedRevision ≤ request.desiredRevision)
      (terminal : ∀ t ∈ request.terminalRevision,
        t ≤ request.desiredRevision ∧ request.publishedRevision ≤ t)
      (active : before.publication.status = .active)
      (fence : before.publication.fence = request.fence)
      (lease : before.publication.lease ≠ none)
      (desired_le : before.publication.desiredRevision ≤ request.desiredRevision)
      (published_le : before.publication.publishedRevision ≤ request.publishedRevision)
      (fixed : before.publication.terminalRevision.isSome = true →
        request.terminalRevision = before.publication.terminalRevision) :
      Changes (.advance request) before ⟨before.attempt, advanced request before.publication⟩
  | settle {request : SettleReplyPublicationRequest} {before : ReplyPublicationRecord}
      (active : before.publication.status = .active)
      (fence : before.publication.fence = request.fence)
      (applied : request.settlement = .delivered → before.publication.terminalApplied) :
      Changes (.settle request) before (settledRecord request before.attempt before.publication)
  | release {request : ReleaseReplyPublicationLeaseRequest} {before : ReplyPublicationRecord}
      (fence : before.publication.fence = request.fence) :
      Changes (.release request) before (released before)

theorem updateReplyPublication_eq_ok {T : Type} {scope : TurnScope}
    {apply : OutboundDeliveryAttempt → ReplyPublicationState → Except OutboundError (RowUpdate T)}
    {row : Option DeliveryAttemptRow} {update : RowUpdate T} :
    updateReplyPublication scope apply row = .ok update ↔
      ∃ record : ReplyPublicationRecord, row = some record.row ∧ record.attempt.scope = scope ∧
        apply record.attempt record.publication = .ok update := by
  simp only [updateReplyPublication, bind_eq_ok, okOr_eq_ok, rejectIf_eq_ok, exists_const, not_not]
  constructor
  · rintro ⟨row, rfl, hscope, publication, hpublication, happly⟩
    refine ⟨⟨row.attempt, publication⟩, ?_, hscope, happly⟩
    rw [ReplyPublicationRecord.row, ← hpublication]
  · rintro ⟨record, rfl, hscope, happly⟩
    exact ⟨record.row, rfl, hscope, record.publication, rfl, happly⟩

theorem written_eq_ok {T : Type} {result : Except OutboundError (RowUpdate T)}
    {row : Option DeliveryAttemptRow} :
    written result = .ok row ↔ ∃ new outcome, result = .ok (.write new outcome) ∧ row = some new := by
  rcases result with error | ⟨new, outcome⟩ | outcome
  · simp [written]
  · simp [written, eq_comm]
  · simp [written]

variable {row row' : Option DeliveryAttemptRow}

theorem opening_cases {request : OpenReplyPublicationRequest}
    (h : (PublicationCall.opening request).update row = .ok row') :
    row = none ∧ request.attempt.status = .prepared ∧ row' = some (openedRecord request).row := by
  obtain ⟨new, outcome, hwrite, rfl⟩ := written_eq_ok.1 h
  obtain ⟨-, -, hwrite⟩ := bind_eq_ok.1 hwrite
  obtain ⟨u, hprepared, hwrite⟩ := bind_eq_ok.1 hwrite
  rw [rejectIf_eq_ok, not_not] at hprepared
  cases row with
  | none =>
    cases hwrite
    exact ⟨rfl, hprepared, rfl⟩
  | some row =>
    -- an open of a row that exists keeps it
    obtain ⟨-, -, hwrite⟩ := bind_eq_ok.1 hwrite
    obtain ⟨publication, -, hwrite⟩ := bind_eq_ok.1 hwrite
    obtain ⟨-, -, hwrite⟩ := bind_eq_ok.1 hwrite
    obtain ⟨-, -, hwrite⟩ := bind_eq_ok.1 hwrite
    exact nomatch hwrite

theorem claim_cases {request : ClaimReplyPublicationLeaseRequest}
    (h : (PublicationCall.claim request).update row = .ok row') :
    ∃ before after : ReplyPublicationRecord, row = some before.row ∧ row' = some after.row ∧
      Changes (.claim request) before after := by
  obtain ⟨new, outcome, hwrite, rfl⟩ := written_eq_ok.1 h
  obtain ⟨expiresAt, hexpires, hwrite⟩ := bind_eq_ok.1 hwrite
  obtain ⟨before, rfl, -, hwrite⟩ := updateReplyPublication_eq_ok.1 hwrite
  obtain ⟨-, -, -, rfl⟩ := leaseExpiresAt_eq_ok.1 hexpires
  split at hwrite
  · exact nomatch hwrite
  rename_i hactive
  rw [not_not] at hactive
  split at hwrite
  · rename_i live hlive
    split at hwrite
    · exact nomatch hwrite
    rename_i howner
    rw [not_not] at howner
    cases hwrite
    exact ⟨before, _, rfl, rfl, .reenter hactive hlive howner⟩
  · rename_i hnone
    split at hwrite
    · cases hwrite
      exact ⟨before, _, rfl, rfl, .epoch hactive hnone⟩
    · exact nomatch hwrite

theorem checkAdvance_eq_ok {request : AdvanceReplyPublicationRequest} {u : Unit} :
    checkAdvance request = .ok u ↔ request.publishedRevision ≤ request.desiredRevision ∧
      ∀ t ∈ request.terminalRevision,
        t ≤ request.desiredRevision ∧ request.publishedRevision ≤ t := by
  simp only [checkAdvance, bind_eq_ok, rejectIf_eq_ok, exists_const, not_exists, not_and, not_lt]
  exact and_congr_right fun _ => ⟨fun h t ht => ⟨h.1 t ht, h.2 t ht⟩,
    fun h => ⟨fun t ht => (h t ht).1, fun t ht => (h t ht).2⟩⟩

theorem advance_cases {request : AdvanceReplyPublicationRequest}
    (h : (PublicationCall.advance request).update row = .ok row') :
    ∃ before after : ReplyPublicationRecord, row = some before.row ∧ row' = some after.row ∧
      Changes (.advance request) before after := by
  obtain ⟨new, outcome, hwrite, rfl⟩ := written_eq_ok.1 h
  obtain ⟨u, hcheck, hwrite⟩ := bind_eq_ok.1 hwrite
  obtain ⟨before, rfl, -, hwrite⟩ := updateReplyPublication_eq_ok.1 hwrite
  obtain ⟨hpublished, hterminal⟩ := checkAdvance_eq_ok.1 hcheck
  simp only [bind_eq_ok, ensureActive, ensureFence, rejectIf_eq_ok, exists_const, not_not, not_lt,
    not_and] at hwrite
  obtain ⟨hactive, hfence, hlease, hdesired, hprogress, hfixed, hwrite⟩ := hwrite
  cases hwrite
  exact ⟨before, _, rfl, rfl,
    .advance hpublished hterminal hactive hfence hlease hdesired hprogress hfixed⟩

theorem settle_cases {request : SettleReplyPublicationRequest}
    (h : (PublicationCall.settle request).update row = .ok row') :
    ∃ before after : ReplyPublicationRecord, row = some before.row ∧ row' = some after.row ∧
      Changes (.settle request) before after := by
  obtain ⟨new, outcome, hwrite, rfl⟩ := written_eq_ok.1 h
  obtain ⟨before, rfl, -, hwrite⟩ := updateReplyPublication_eq_ok.1 hwrite
  simp only [bind_eq_ok, ensureActive, ensureFence, rejectIf_eq_ok, exists_const, not_not,
    not_and] at hwrite
  obtain ⟨hactive, hfence, happlied, hwrite⟩ := hwrite
  cases hwrite
  exact ⟨before, _, rfl, rfl, .settle hactive hfence happlied⟩

theorem release_cases {request : ReleaseReplyPublicationLeaseRequest}
    (h : (PublicationCall.release request).update row = .ok row') :
    ∃ before after : ReplyPublicationRecord, row = some before.row ∧ row' = some after.row ∧
      Changes (.release request) before after := by
  obtain ⟨new, outcome, hwrite, rfl⟩ := written_eq_ok.1 h
  obtain ⟨before, rfl, -, hwrite⟩ := updateReplyPublication_eq_ok.1 hwrite
  obtain ⟨u, hfence, hwrite⟩ := bind_eq_ok.1 hwrite
  rw [ensureFence, rejectIf_eq_ok, not_not] at hfence
  split at hwrite
  · exact nomatch hwrite
  · cases hwrite
    exact ⟨before, _, rfl, rfl, .release hfence⟩

variable {call : PublicationCall}

/-- A call opens a publication where there is no row, or changes the publication of the row. -/
theorem update_cases (h : call.update row = .ok row') :
    (∃ request, call = .opening request ∧ row = none ∧ request.attempt.status = .prepared ∧
        row' = some (openedRecord request).row) ∨
      ∃ before after : ReplyPublicationRecord, row = some before.row ∧ row' = some after.row ∧
        Changes call before after := by
  cases call with
  | opening request => exact .inl ⟨request, rfl, opening_cases h⟩
  | claim request => exact .inr (claim_cases h)
  | advance request => exact .inr (advance_cases h)
  | settle request => exact .inr (settle_cases h)
  | release request => exact .inr (release_cases h)

/-! ### What is kept -/

/-- `after` is as far as `before`. -/
structure Forward (before after : ReplyPublicationRecord) : Prop where
  fence : before.publication.fence ≤ after.publication.fence
  desired : before.publication.desiredRevision ≤ after.publication.desiredRevision
  published : before.publication.publishedRevision ≤ after.publication.publishedRevision
  terminal : ∀ t, before.publication.terminalRevision = some t →
    after.publication.terminalRevision = some t
  /-- Of a settled publication only the lease can change, and only by being given up. -/
  settled : before.publication.status ≠ .active →
    after.publication = before.publication ∨
      after.publication = { before.publication with lease := none }

/-- What the fields of a publication say about each other. -/
structure Sound (record : ReplyPublicationRecord) : Prop where
  published_le : record.publication.publishedRevision ≤ record.publication.desiredRevision
  terminal_le : ∀ t, record.publication.terminalRevision = some t →
    record.publication.publishedRevision ≤ t
  undelivered : record.publication.status = .active → record.attempt.status ≠ .delivered
  delivered : record.attempt.status = .delivered ∨
      record.publication.status = .settled .delivered → record.publication.terminalApplied

theorem Forward.refl (record : ReplyPublicationRecord) : Forward record record :=
  ⟨le_refl _, le_refl _, le_refl _, fun _ h => h, fun _ => .inl rfl⟩

theorem Forward.trans {first second third : ReplyPublicationRecord} (h : Forward first second)
    (h' : Forward second third) : Forward first third where
  fence := h.fence.trans h'.fence
  desired := h.desired.trans h'.desired
  published := h.published.trans h'.published
  terminal := fun t ht => h'.terminal t (h.terminal t ht)
  settled := fun hsettled => by
    rcases h.settled hsettled with heq | heq
    · have hsecond : second.publication.status ≠ .active := heq ▸ hsettled
      rw [← heq]
      exact h'.settled hsecond
    · have hsecond : second.publication.status ≠ .active := by
        rw [heq]
        exact hsettled
      rcases h'.settled hsecond with heq' | heq'
      · exact .inr (heq'.trans heq)
      · rw [heq] at heq'
        exact .inr heq'

theorem Changes.forward {before after : ReplyPublicationRecord}
    (h : Changes call before after) : Forward before after := by
  cases h with
  | reenter active lease owner =>
    exact ⟨le_refl _, le_refl _, le_refl _, fun _ h => h, fun h => absurd active h⟩
  | epoch active lease =>
    exact ⟨Nat.le_succ _, le_refl _, le_refl _, fun _ h => h, fun h => absurd active h⟩
  | advance published terminal active fence lease desired_le published_le fixed =>
    refine ⟨le_refl _, desired_le, published_le, fun t ht => ?_, fun h => absurd active h⟩
    have hrequest := fixed (by rw [ht]; rfl)
    show Option.or _ _ = some t
    rw [hrequest, ht]
    rfl
  | settle active fence applied =>
    exact ⟨le_refl _, le_refl _, le_refl _, fun _ h => h, fun h => absurd active h⟩
  | release fence => exact ⟨le_refl _, le_refl _, le_refl _, fun _ h => h, fun _ => .inr rfl⟩

theorem sound_openedRecord {request : OpenReplyPublicationRequest}
    (h : request.attempt.status = .prepared) : Sound (openedRecord request) where
  published_le := le_refl _
  terminal_le := nofun
  undelivered := fun _ => by
    rw [openedRecord, h]
    exact nofun
  delivered := fun hdelivered => by
    rw [openedRecord, h] at hdelivered
    exact hdelivered.elim nofun nofun

theorem Sound.status_newEpoch (request : ClaimReplyPublicationLeaseRequest) (expiresAt : Timestamp)
    {before : ReplyPublicationRecord} (h : before.attempt.status ≠ .delivered) :
    (newEpoch request expiresAt before.attempt before.publication).attempt.status ≠ .delivered := by
  rw [newEpoch]
  dsimp only
  split
  · exact nofun
  · exact h

theorem Changes.sound {before after : ReplyPublicationRecord}
    (h : Changes call before after) (hsound : Sound before) : Sound after := by
  cases h with
  | reenter active lease owner =>
    exact ⟨hsound.published_le, hsound.terminal_le, hsound.undelivered, hsound.delivered⟩
  | @epoch request _ active lease =>
    have hstatus := Sound.status_newEpoch request (request.now + request.ttl)
      (hsound.undelivered active)
    refine ⟨hsound.published_le, hsound.terminal_le, fun _ => hstatus, fun hdelivered => ?_⟩
    rcases hdelivered with hattempt | hpublication
    · exact absurd hattempt hstatus
    · exact absurd (active.symm.trans hpublication) nofun
  | @advance request _ published terminal active fence lease desired_le published_le fixed =>
    refine ⟨published, fun t ht => ?_, hsound.undelivered, fun hdelivered => ?_⟩
    · -- the terminal revision is the one of the request, or there is none
      change Option.or _ _ = some t at ht
      cases hrequest : request.terminalRevision with
      | some t' =>
        rw [hrequest] at ht
        cases ht
        exact (terminal t hrequest).2
      | none =>
        rw [hrequest] at ht
        have hbefore : before.publication.terminalRevision = some t := ht
        have hfixed := fixed (by rw [hbefore]; rfl)
        rw [hrequest, hbefore] at hfixed
        exact nomatch hfixed
    · rcases hdelivered with hattempt | hpublication
      · exact absurd hattempt (hsound.undelivered active)
      · exact absurd (active.symm.trans hpublication) nofun
  | @settle request _ active fence applied =>
    refine ⟨hsound.published_le, hsound.terminal_le, nofun, fun hdelivered => ?_⟩
    refine applied ?_
    cases hsettlement : request.settlement with
    | delivered => rfl
    | unknown =>
      rw [settledRecord, hsettlement] at hdelivered
      exact hdelivered.elim nofun nofun
    | failed kind =>
      rw [settledRecord, hsettlement] at hdelivered
      exact hdelivered.elim nofun nofun
  | release fence =>
    exact ⟨hsound.published_le, hsound.terminal_le, hsound.undelivered, hsound.delivered⟩

/-! ### Rows -/

def fenceOf (row : Option DeliveryAttemptRow) : ℕ :=
  match row.bind DeliveryAttemptRow.publication with
  | some publication => publication.fence
  | none => 0

def PublicationCall.carriedFence : PublicationCall → Option ℕ
  | .opening _ => none
  | .claim _ => none
  | .advance request => some request.fence
  | .settle request => some request.fence
  | .release request => some request.fence

def HoldsLease (row : Option DeliveryAttemptRow) (owner : PublisherId) (now : Timestamp) : Prop :=
  ∃ (record : ReplyPublicationRecord) (lease : ReplyPublicationLease), row = some record.row ∧
    record.publication.liveLease now = some lease ∧ lease.owner = owner

def ForwardRow (before after : Option DeliveryAttemptRow) : Prop :=
  ∀ record : ReplyPublicationRecord, before = some record.row →
    ∃ record' : ReplyPublicationRecord, after = some record'.row ∧ Forward record record'

def SoundRow (row : Option DeliveryAttemptRow) : Prop :=
  ∀ record : ReplyPublicationRecord, row = some record.row → Sound record

theorem row_injective {record record' : ReplyPublicationRecord} (h : record.row = record'.row) :
    record = record' := by
  cases record
  cases record'
  cases h
  rfl

theorem some_row_injective {record record' : ReplyPublicationRecord}
    (h : some record.row = some record'.row) : record = record' :=
  row_injective (Option.some.inj h)

theorem ForwardRow.refl (row : Option DeliveryAttemptRow) : ForwardRow row row :=
  fun record h => ⟨record, h, .refl record⟩

theorem ForwardRow.trans {first second third : Option DeliveryAttemptRow}
    (h : ForwardRow first second) (h' : ForwardRow second third) : ForwardRow first third := by
  intro record hrecord
  obtain ⟨record', hrecord', hforward⟩ := h record hrecord
  obtain ⟨record'', hrecord'', hforward'⟩ := h' record' hrecord'
  exact ⟨record'', hrecord'', hforward.trans hforward'⟩

theorem soundRow_none : SoundRow none := fun _ h => absurd h.symm (Option.some_ne_none _)

section

variable {call : PublicationCall} {row row' : Option DeliveryAttemptRow}

variable (h : call.update row = .ok row')
include h

theorem update_forward : ForwardRow row row' := by
  intro record hrecord
  rcases update_cases h with ⟨request, -, hnone, -⟩ | ⟨before, after, hbefore, hafter, hchanges⟩
  · rw [hnone] at hrecord
    exact nomatch hrecord
  · cases some_row_injective (hbefore.symm.trans hrecord)
    exact ⟨after, hafter, hchanges.forward⟩

theorem update_sound (hsound : SoundRow row) : SoundRow row' := by
  intro record hrecord
  rcases update_cases h with
    ⟨request, -, -, hprepared, hnew⟩ | ⟨before, after, hbefore, hafter, hchanges⟩
  · cases some_row_injective (hnew.symm.trans hrecord)
    exact sound_openedRecord hprepared
  · cases some_row_injective (hafter.symm.trans hrecord)
    exact hchanges.sound (hsound before hbefore)

theorem update_fence {fence : ℕ}
    (hfence : call.carriedFence = some fence) : fenceOf row = fence := by
  rcases update_cases h with ⟨request, rfl, -⟩ | ⟨before, after, rfl, -, hchanges⟩
  · exact nomatch hfence
  · cases hchanges with
    | reenter active lease owner => exact nomatch hfence
    | epoch active lease => exact nomatch hfence
    | advance published terminal active hcurrent =>
      cases hfence
      exact hcurrent
    | settle active hcurrent applied =>
      cases hfence
      exact hcurrent
    | release hcurrent =>
      cases hfence
      exact hcurrent

theorem fenceOf_le_of_update : fenceOf row ≤ fenceOf row' := by
  rcases update_cases h with ⟨request, -, rfl, -⟩ | ⟨before, after, rfl, rfl, hchanges⟩
  · exact Nat.zero_le _
  · exact hchanges.forward.fence

omit h

/-- A claim that is not a re-entry starts a new epoch. -/
theorem fenceOf_of_claim {request : ClaimReplyPublicationLeaseRequest}
    (h : (PublicationCall.claim request).update row = .ok row')
    (hnew : ¬ HoldsLease row request.owner request.now) : fenceOf row' = fenceOf row + 1 := by
  obtain ⟨before, after, rfl, rfl, hchanges⟩ := claim_cases h
  cases hchanges with
  | @reenter _ _ live active lease owner => exact absurd ⟨before, live, rfl, lease, owner⟩ hnew
  | epoch active lease => rfl

end

/-- No write had a larger fence than the row has now. -/
theorem fenceOf_le_of_mem {done : List (Done PublicationCall (Option DeliveryAttemptRow))}
    {row : Option DeliveryAttemptRow}
    (h : Sequential (fun call (_ : Unit) row => PublicationCall.update call row) none done row)
    {d : Done PublicationCall (Option DeliveryAttemptRow)} (hd : d ∈ done) :
    fenceOf d.after ≤ fenceOf row := by
  induction h with
  | nil => exact absurd hd List.not_mem_nil
  | cons op input hrest hop ih =>
    rcases List.mem_cons.1 hd with rfl | hd
    · exact le_refl _
    · exact (ih hd).trans (fenceOf_le_of_update hop)

/-! ### The result -/

section

variable {ι : Type} [DecidableEq ι]

/-- The states of the runs of the publishers on one row. -/
abbrev PublicationCell (ι : Type) := Cell ι PublicationCall (Option DeliveryAttemptRow)

/-- What is stored comes from the calls, one after the other. -/
abbrev PublicationInv (cell : PublicationCell ι) : Prop :=
  Cell.Inv (fun call (_ : Unit) row => PublicationCall.update call row) none cell

/-- For any publishers, any order of their reads and writes and any clock readings: between two
points of a run the publication has only moved forward, its revisions stand to each other as they
should, a call with another fence than the current one writes nothing, and a claim that is not a
re-entry is given a larger fence than all writes before it had. -/
theorem publication_moves_forward (earlier later : List (CellAction ι PublicationCall Unit)) :
    let before : PublicationCell ι := earlier.foldl publicationStep (Cell.init none)
    let after : PublicationCell ι := later.foldl publicationStep before
    ForwardRow before.value after.value ∧ SoundRow after.value ∧
      (∀ process call left new seen fence, after.process process = .writing call left new seen →
        call.carriedFence = some fence → fenceOf after.value ≠ fence →
        (publicationStep after (.write process)).value = after.value) ∧
      ∀ d older request, d :: older <:+ after.done → d.op = .claim request →
        ¬ HoldsLease d.before request.owner request.now →
        ∀ granted ∈ older, fenceOf granted.after < fenceOf d.after := by
  intro before after
  have hinit : PublicationInv (Cell.init none : PublicationCell ι) := Cell.inv_init
  have hbefore : PublicationInv before := hinit.run earlier
  have hafter : PublicationInv after := hbefore.run later
  refine ⟨?_, ?_, ?_, ?_⟩
  · exact hbefore.value_run
      (fun _ _ _ _ hop hforward => hforward.trans (update_forward hop)) (.refl _) later
  · refine hbefore.value_run (P := SoundRow) (fun _ _ _ _ hop => update_sound hop) ?_ later
    exact hinit.value_run (P := SoundRow) (fun _ _ _ _ hop => update_sound hop)
      soundRow_none earlier
  · intro process call left new seen fence hprocess hfence hother
    have hfresh := hafter.fresh process
    rw [hprocess] at hfresh
    rw [publicationStep, Cell.next, hprocess]
    dsimp only
    split
    · rename_i hseen
      obtain ⟨u, hupdate⟩ := hfresh.2 hseen
      exact absurd (update_fence hupdate hfence) hother
    · rfl
  · intro d older request hsuffix hop hnew granted hgranted
    obtain ⟨holder, u, hupdate⟩ := hafter.sequential.of_suffix hsuffix
    rw [hop] at hupdate
    rw [fenceOf_of_claim hupdate hnew]
    exact Nat.lt_succ_of_le (fenceOf_le_of_mem holder hgranted)

end

end Ironclaw.Outbound
