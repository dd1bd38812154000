import Ironclaw.Outbound.Worker

/-! # Discrete deliveries

The calls of `deliver` and `deliver_notice` of `delivery_coordinator.rs` for one delivery id, on any
number of coordinators that share the store, together with the recovery of interrupted sends. Every
store operation reads the row and writes under the condition that the version is still the one it
read (`StoreOp.apply` is what it does to the row it reads); between two steps of a call the others may
take any steps, the store may fail before or after a write, a call may be dropped and a coordinator
may crash.

The row is left by exactly one claim: `Prepared` is written only where there was no row, so the call
whose claim was written is the only one that drives the adapter (`Inv.owner`). What it then does is
in `Driven`. -/

namespace Ironclaw.Outbound

/-! ### The operations on the row -/

/-- The operations of `outbound_state_store.rs` on a plain row, as far as the coordinator makes
them. -/
inductive StoreOp where
  | record (attempt : OutboundDeliveryAttempt)
  | claim (scope : TurnScope)
  | update (scope : TurnScope) (status : OutboundDeliveryStatus)
      (failureKind : Option DeliveryFailureKind)
  | recover (scope : TurnScope)

def DeliveryAttemptRow.setStatus (row : DeliveryAttemptRow) (status : OutboundDeliveryStatus)
    (failureKind : Option DeliveryFailureKind) : DeliveryAttemptRow :=
  { row with
    attempt := { row.attempt with
      status := status
      failureKind := failureKind } }

def recordDeliveryAttempt (attempt : OutboundDeliveryAttempt) (row : Option DeliveryAttemptRow) :
    Except OutboundError (RowUpdate Bool) := do
  validateDeliveryAttempt attempt
  match row with
  | some existing =>
    validateDeliveryIdentity existing.attempt attempt
    return .keep true
  | none => return .write (.plain attempt) true

/-- The row that exists, in the scope of the request. -/
def scopedRow (scope : TurnScope) (row : Option DeliveryAttemptRow) :
    Except OutboundError DeliveryAttemptRow := do
  let row ← okOr row .deliveryNotFound
  rejectIf (row.attempt.scope ≠ scope) .subscriptionScopeMismatch
  return row

def claimDeliveryAttemptForSend (scope : TurnScope) (row : Option DeliveryAttemptRow) :
    Except OutboundError (RowUpdate Bool) := do
  let row ← scopedRow scope row
  if row.attempt.status ≠ .prepared then return .keep false
  else return .write (row.setStatus .sending none) true

def recoverInterruptedDeliveryAttempt (scope : TurnScope) (row : Option DeliveryAttemptRow) :
    Except OutboundError (RowUpdate Bool) := do
  let row ← scopedRow scope row
  -- the attempt of a publication is recovered through its lease
  if row.publication.isSome then return .keep false
  else if row.attempt.status ≠ .sending then return .keep false
  else return .write (row.setStatus .unknown none) true

def updateDeliveryStatus (scope : TurnScope) (status : OutboundDeliveryStatus)
    (failureKind : Option DeliveryFailureKind) (row : Option DeliveryAttemptRow) :
    Except OutboundError (RowUpdate Bool) := do
  validateDeliveryStatus status failureKind
  let row ← scopedRow scope row
  return .write (row.setStatus status failureKind) true

/-- What an operation does to the row it reads. -/
def StoreOp.apply (op : StoreOp) (row : Option DeliveryAttemptRow) :
    Except OutboundError (RowUpdate Bool) :=
  match op with
  | .record attempt => recordDeliveryAttempt attempt row
  | .claim scope => claimDeliveryAttemptForSend scope row
  | .update scope status failureKind => updateDeliveryStatus scope status failureKind row
  | .recover scope => recoverInterruptedDeliveryAttempt scope row

def maxCasRetries : ℕ := 5

/-! ### Reports of the adapter -/

inductive PartDeliveryOutcome where
  | sent (vendorMessageRef : Option String)
  | retryable (reason : String)
  | ambiguous (reason : String)
  | permanent (reason : String)
  | unauthorized (reason : String)

def PartDeliveryOutcome.isSent : PartDeliveryOutcome → Bool
  | .sent _ => true
  | _ => false

def PartDeliveryOutcome.isRetryable : PartDeliveryOutcome → Bool
  | .retryable _ => true
  | _ => false

def PartDeliveryOutcome.isAmbiguous : PartDeliveryOutcome → Bool
  | .ambiguous _ => true
  | _ => false

def PartDeliveryOutcome.isPermanent : PartDeliveryOutcome → Bool
  | .permanent _ => true
  | _ => false

def PartDeliveryOutcome.isUnauthorized : PartDeliveryOutcome → Bool
  | .unauthorized _ => true
  | _ => false

/-- How the drive of a delivery ends: the status that is written, or another attempt. -/
inductive DriveStep where
  | terminal (status : OutboundDeliveryStatus) (failureKind : Option DeliveryFailureKind)
  | retry

/-- What the loop of `drive_prepared` makes of an answer: a report with one outcome for each vendor
message, or an error of the adapter. -/
def driveStep (parts attemptsUsed maxAttempts : ℕ) (answer : Except ChannelError
    (List PartDeliveryOutcome)) : DriveStep :=
  match answer with
  | .error _ => .terminal .unknown none
  | .ok report =>
    -- fewer outcomes than parts: some part has no evidence at all
    if report.length < parts then .terminal .unknown none
    else if report.all PartDeliveryOutcome.isSent = true ∧ report ≠ [] then
      .terminal .delivered none
    else if report.any PartDeliveryOutcome.isAmbiguous then .terminal .unknown none
    else if report.any PartDeliveryOutcome.isUnauthorized then
      .terminal .failed (some .authorizationRevoked)
    else if report.any PartDeliveryOutcome.isPermanent = true ∨
        (report.any PartDeliveryOutcome.isRetryable = true ∧
          report.any PartDeliveryOutcome.isSent = true) then
      .terminal .failed (some .rejected)
    else if maxAttempts ≤ attemptsUsed then .terminal .failed (some .transportUnavailable)
    else .retry

/-! ### The calls -/

inductive DeliveryKind where
  /-- `deliver`: the policy decides first. -/
  | policy
  /-- `deliver_notice`. -/
  | notice
  /-- The recovery of interrupted sends. -/
  | recovery

/-- What a call is made with. -/
structure DeliveryCall (κ : Type) where
  coordinator : κ
  kind : DeliveryKind
  /-- The attempt that the call records, which is `Prepared` then. -/
  attempt : OutboundDeliveryAttempt
  parts : ℕ
  maxAttempts : ℕ

/-- What the validator of the reply target says. -/
inductive Validation where
  | authorized
  | accessDenied
  /-- An outage; the rejection is recorded under another id. -/
  | transient
  | failed

/-- Why nothing is sent after the claim. -/
inductive DriveStop where
  | noTarget
  | failed (kind : DeliveryFailureKind)

def DriveStop.status : DriveStop → OutboundDeliveryStatus
  | .noTarget => .noTarget
  | .failed _ => .failed

def DriveStop.failureKind : DriveStop → Option DeliveryFailureKind
  | .noTarget => none
  | .failed kind => some kind

inductive DeliveryPhase where
  | starting
  /-- The policy waits for the validator; `stored` says that a prepared row was read. -/
  | validating (stored : Bool)
  | reading (op : StoreOp) (tries : ℕ)
  | writing (op : StoreOp) (tries : ℕ) (seen : ℕ) (row : DeliveryAttemptRow) (outcome : Bool)
  /-- The claim is won. -/
  | claimed
  | resolving
  /-- The adapter is called next. -/
  | driving (attemptsUsed : ℕ)
  | calling (attemptsUsed : ℕ)
  | finished

/-- What happens at the adapter. -/
inductive DriveEvent (ι : Type) where
  | sent (call : ι)
  | reported (call : ι) (answer : Except ChannelError (List PartDeliveryOutcome))

structure Deliveries (ι κ : Type) where
  row : Option DeliveryAttemptRow
  version : ℕ
  phase : ι → DeliveryPhase
  /-- The ids in flight of a coordinator, as far as this id is concerned. -/
  inFlight : κ → Bool
  /-- Newest first. -/
  log : List (DriveEvent ι)
  /-- The call whose claim was written. -/
  owner : Option ι

inductive DeliveryAction (ι κ : Type) where
  /-- The policy reads the row. -/
  | load (call : ι) (fault : StoreFault)
  | start (call : ι)
  | validate (call : ι) (validation : Validation)
  | read (call : ι) (fault : StoreFault)
  | write (call : ι) (fault : StoreFault)
  | enter (call : ι)
  | resolve (call : ι) (stop : Option DriveStop)
  | send (call : ι)
  | report (call : ι) (answer : Except ChannelError (List PartDeliveryOutcome))
  /-- The call is dropped. -/
  | cancel (call : ι)
  | crash (coordinator : κ)

section

variable {ι κ : Type} [DecidableEq ι] [DecidableEq κ]

def Deliveries.initial (row : Option DeliveryAttemptRow) : Deliveries ι κ :=
  ⟨row, 0, fun _ => .starting, fun _ => false, [], none⟩

def Deliveries.goto (s : Deliveries ι κ) (call : ι) (phase : DeliveryPhase) : Deliveries ι κ :=
  { s with
    phase := Function.update s.phase call phase }

/-- What a call does with the result of an operation. -/
def afterOp (op : StoreOp) (result : Except OutboundError Bool) : DeliveryPhase :=
  match op, result with
  | .record attempt, .ok _ =>
    if attempt.status = .prepared then .reading (.claim attempt.scope) 0 else .finished
  | .claim _, .ok true => .claimed
  | _, _ => .finished

/-- The drive returns once its terminal status has been written, or could not be. -/
def Deliveries.leave (calls : ι → DeliveryCall κ) (s : Deliveries ι κ) (call : ι) (op : StoreOp) :
    Deliveries ι κ :=
  match op with
  | .update _ _ _ =>
    { s with
      inFlight := Function.update s.inFlight (calls call).coordinator false }
  | _ => s

variable (attempt : OutboundDeliveryAttempt)

def preparedAttempt : OutboundDeliveryAttempt :=
  { attempt with
    status := .prepared
    failureKind := none }

def ownerAfter (op : StoreOp) (call : ι) (owner : Option ι) : Option ι :=
  match op with
  | .claim _ => some call
  | _ => owner

def revokedAttempt : OutboundDeliveryAttempt :=
  { attempt with
    status := .failed
    failureKind := some .authorizationRevoked }

/-- The policy, with the row it has read: `prepare_delivery_attempt`. -/
def afterLoad (row : Option DeliveryAttemptRow) : DeliveryPhase :=
  match row with
  | some existing =>
    if ¬ scopeMatches existing.attempt.scope attempt.scope ∨
        existing.attempt.deliveryId ≠ attempt.deliveryId then .validating false
    else if existing.attempt.scope ≠ attempt.scope ∨
        existing.attempt.candidate ≠ attempt.candidate then .finished
    else if existing.attempt.status ≠ .prepared then .finished
    else .validating true
  | none => .validating false

def afterValidation (stored : Bool) (validation : Validation) : DeliveryPhase :=
  match validation with
  | .authorized =>
    -- the stored prepared row is the attempt, without a rewrite
    if stored then .reading (.claim attempt.scope) 0
    else .reading (.record (preparedAttempt attempt)) 0
  | .accessDenied =>
    -- with a stored row the rejection is recorded under another id
    if stored then .finished else .reading (.record (revokedAttempt attempt)) 0
  | .transient => .finished
  | .failed => .finished

def Deliveries.next (calls : ι → DeliveryCall κ) (s : Deliveries ι κ) :
    DeliveryAction ι κ → Deliveries ι κ
  | .load call fault =>
    match s.phase call, (calls call).kind with
    | .starting, .policy =>
      s.goto call (if fault = .works then afterLoad (calls call).attempt s.row else .finished)
    | _, _ => s
  | .start call =>
    match s.phase call, (calls call).kind with
    | .starting, .notice =>
      s.goto call (.reading (.record (preparedAttempt (calls call).attempt)) 0)
    | .starting, .recovery => s.goto call (.reading (.recover (calls call).attempt.scope) 0)
    | _, _ => s
  | .validate call validation =>
    match s.phase call with
    | .validating stored => s.goto call (afterValidation (calls call).attempt stored validation)
    | _ => s
  | .read call fault =>
    match s.phase call with
    | .reading op tries =>
      if fault ≠ .works then (s.goto call (afterOp op (.error .backend))).leave calls call op
      else
        match op.apply s.row with
        | .error error => (s.goto call (afterOp op (.error error))).leave calls call op
        | .ok (.keep outcome) => (s.goto call (afterOp op (.ok outcome))).leave calls call op
        | .ok (.write row outcome) => s.goto call (.writing op tries s.version row outcome)
    | _ => s
  | .write call fault =>
    match s.phase call with
    | .writing op tries seen row outcome =>
      if seen ≠ s.version then
        if tries + 1 < maxCasRetries then s.goto call (.reading op (tries + 1))
        else (s.goto call (afterOp op (.error .backend))).leave calls call op
      else
        match fault with
        | .lost => (s.goto call (afterOp op (.error .backend))).leave calls call op
        | fault =>
          let result := if fault = .works then .ok outcome else .error .backend
          { (s.goto call (afterOp op result)).leave calls call op with
            row := some row
            version := s.version + 1
            owner := ownerAfter op call s.owner }
    | _ => s
  | .enter call =>
    match s.phase call with
    | .claimed =>
      if s.inFlight (calls call).coordinator then s.goto call .finished
      else
        { s.goto call .resolving with
          inFlight := Function.update s.inFlight (calls call).coordinator true }
    | _ => s
  | .resolve call stop =>
    match s.phase call with
    | .resolving =>
      match stop with
      | none => s.goto call (.driving 0)
      | some stop =>
        s.goto call
          (.reading (.update (calls call).attempt.scope stop.status stop.failureKind) 0)
    | _ => s
  | .send call =>
    match s.phase call with
    | .driving attemptsUsed =>
      { s.goto call (.calling (attemptsUsed + 1)) with
        log := .sent call :: s.log }
    | _ => s
  | .report call answer =>
    match s.phase call with
    | .calling attemptsUsed =>
      let phase :=
        match driveStep (calls call).parts attemptsUsed (calls call).maxAttempts answer with
        | .retry => .driving attemptsUsed
        | .terminal status failureKind =>
          .reading (.update (calls call).attempt.scope status failureKind) 0
      { s.goto call phase with
        log := .reported call answer :: s.log }
    | _ => s
  | .cancel call => s.goto call .finished
  | .crash coordinator =>
    { s with
      phase := fun call => if (calls call).coordinator = coordinator then .finished else s.phase call
      inFlight := Function.update s.inFlight coordinator false }

def Deliveries.run (calls : ι → DeliveryCall κ) (s : Deliveries ι κ)
    (actions : List (DeliveryAction ι κ)) : Deliveries ι κ :=
  actions.foldl (Deliveries.next calls) s

end

/-! ### What an operation writes -/

section

variable {row : Option DeliveryAttemptRow} {new : DeliveryAttemptRow} {outcome : Bool}

variable {scope : TurnScope}

theorem scopedRow_eq_ok {found : DeliveryAttemptRow} :
    scopedRow scope row = .ok found ↔ row = some found ∧ found.attempt.scope = scope := by
  simp only [scopedRow, bind_eq_ok, okOr_eq_ok, rejectIf_eq_ok, exists_const, not_not, pure_eq_ok]
  constructor
  · rintro ⟨found', hrow, hscope, rfl⟩
    exact ⟨hrow, hscope⟩
  · rintro ⟨hrow, hscope⟩
    exact ⟨found, hrow, hscope, rfl⟩

theorem record_writes {attempt : OutboundDeliveryAttempt}
    (h : (StoreOp.record attempt).apply row = .ok (.write new outcome)) :
    row = none ∧ new = .plain attempt := by
  obtain ⟨u, -, h⟩ := bind_eq_ok.1 h
  cases row with
  | none =>
    cases h
    exact ⟨rfl, rfl⟩
  | some existing =>
    obtain ⟨u, -, h⟩ := bind_eq_ok.1 h
    cases h

theorem claim_writes (h : (StoreOp.claim scope).apply row = .ok (.write new outcome)) :
    ∃ before, row = some before ∧ before.attempt.status = .prepared ∧
      new = before.setStatus .sending none := by
  obtain ⟨before, hbefore, h⟩ := bind_eq_ok.1 h
  split at h
  · cases h
  · rename_i hprepared
    cases h
    exact ⟨before, (scopedRow_eq_ok.1 hbefore).1, not_not.1 hprepared, rfl⟩

theorem update_writes {status : OutboundDeliveryStatus} {failureKind : Option DeliveryFailureKind}
    (h : (StoreOp.update scope status failureKind).apply row = .ok (.write new outcome)) :
    new.attempt.status = status := by
  obtain ⟨u, -, h⟩ := bind_eq_ok.1 h
  obtain ⟨before, -, h⟩ := bind_eq_ok.1 h
  cases h
  rfl

theorem recover_writes (h : (StoreOp.recover scope).apply row = .ok (.write new outcome)) :
    new.attempt.status = .unknown := by
  obtain ⟨before, -, h⟩ := bind_eq_ok.1 h
  split at h
  · cases h
  split at h
  · cases h
  · cases h
    rfl

end

/-! ### What the loop makes of a report -/

section

variable {parts attemptsUsed maxAttempts : ℕ}
  {answer : Except ChannelError (List PartDeliveryOutcome)}

/-- A report in which every part has an outcome and every outcome is `Sent`. -/
def SentAll (parts : ℕ) (answer : Except ChannelError (List PartDeliveryOutcome)) : Prop :=
  ∃ report, answer = .ok report ∧ parts ≤ report.length ∧ ∀ part ∈ report, part.isSent = true

/-- A report in which every part has an outcome and every outcome is retryable. -/
def RetryableAll (parts : ℕ) (answer : Except ChannelError (List PartDeliveryOutcome)) : Prop :=
  ∃ report, answer = .ok report ∧ parts ≤ report.length ∧ ∀ part ∈ report, part.isRetryable = true

theorem driveStep_not_prepared {status : OutboundDeliveryStatus}
    {failureKind : Option DeliveryFailureKind}
    (h : driveStep parts attemptsUsed maxAttempts answer = .terminal status failureKind) :
    status ≠ .prepared := by
  unfold driveStep at h
  split at h
  · cases h
    decide
  · split_ifs at h <;> (cases h; decide)

theorem driveStep_delivered {failureKind : Option DeliveryFailureKind}
    (h : driveStep parts attemptsUsed maxAttempts answer = .terminal .delivered failureKind) :
    SentAll parts answer := by
  unfold driveStep at h
  split at h
  · cases h
  · rename_i report
    split at h
    · cases h
    rename_i hshort
    split at h
    · rename_i hsent
      exact ⟨report, rfl, not_lt.1 hshort, List.all_eq_true.1 hsent.1⟩
    · split_ifs at h <;> cases h

theorem PartDeliveryOutcome.isRetryable_of_not {part : PartDeliveryOutcome}
    (hsent : part.isSent = false) (hambiguous : part.isAmbiguous = false)
    (hunauthorized : part.isUnauthorized = false) (hpermanent : part.isPermanent = false) :
    part.isRetryable = true := by
  cases part with
  | retryable reason => rfl
  | sent vendorMessageRef => cases hsent
  | ambiguous reason => cases hambiguous
  | permanent reason => cases hpermanent
  | unauthorized reason => cases hunauthorized

theorem eq_false_of_not_any {report : List PartDeliveryOutcome} {p : PartDeliveryOutcome → Bool}
    (h : ¬ report.any p = true) {part : PartDeliveryOutcome} (hpart : part ∈ report) :
    p part = false :=
  Bool.eq_false_iff.2 fun hyes => h (List.any_eq_true.2 ⟨part, hpart, hyes⟩)

theorem driveStep_retry (h : driveStep parts attemptsUsed maxAttempts answer = .retry) :
    RetryableAll parts answer ∧ attemptsUsed < maxAttempts := by
  unfold driveStep at h
  split at h
  · cases h
  · rename_i report
    split at h
    · cases h
    rename_i hshort
    split at h
    · cases h
    rename_i hsent
    split at h
    · cases h
    rename_i hambiguous
    split at h
    · cases h
    rename_i hunauthorized
    split at h
    · cases h
    rename_i hpermanent
    split at h
    · cases h
    rename_i hused
    refine ⟨⟨report, rfl, not_lt.1 hshort, ?_⟩, not_le.1 hused⟩
    rw [not_or, not_and] at hpermanent
    have hclear : ∀ part ∈ report, part.isAmbiguous = false ∧ part.isUnauthorized = false ∧
        part.isPermanent = false := by
      intro part hpart
      exact ⟨eq_false_of_not_any hambiguous hpart, eq_false_of_not_any hunauthorized hpart,
        eq_false_of_not_any hpermanent.1 hpart⟩
    -- nothing is sent: with something sent, all is sent or some part is retryable
    have hnone : ∀ part ∈ report, part.isSent = false := by
      by_contra hsome
      simp only [not_forall, Bool.not_eq_false] at hsome
      obtain ⟨part, hpart, hyes⟩ := hsome
      refine hsent ⟨List.all_eq_true.2 fun other hother => ?_, List.ne_nil_of_mem hpart⟩
      by_contra hunsent
      obtain ⟨ha, hu, hp⟩ := hclear other hother
      have hretryable := PartDeliveryOutcome.isRetryable_of_not (Bool.eq_false_iff.2 hunsent) ha hu hp
      exact hpermanent.2 (List.any_eq_true.2 ⟨other, hother, hretryable⟩)
        (List.any_eq_true.2 ⟨part, hpart, hyes⟩)
    intro part hpart
    obtain ⟨ha, hu, hp⟩ := hclear part hpart
    exact PartDeliveryOutcome.isRetryable_of_not (hnone part hpart) ha hu hp

end

/-! ### The calls of the adapter -/

section

variable {ι : Type}

/-- How often the adapter was called. -/
def sends : List (DriveEvent ι) → ℕ
  | [] => 0
  | .sent _ :: log => sends log + 1
  | .reported _ _ :: log => sends log

/-- A log of one call: an attempt after the first follows a report in which everything is
retryable. -/
inductive Trail (parts maxAttempts : ℕ) (call : ι) : List (DriveEvent ι) → Prop
  | nil : Trail parts maxAttempts call []
  | first : Trail parts maxAttempts call [.sent call]
  | reported {log : List (DriveEvent ι)}
      (answer : Except ChannelError (List PartDeliveryOutcome)) :
      Trail parts maxAttempts call (.sent call :: log) →
      Trail parts maxAttempts call (.reported call answer :: .sent call :: log)
  | again {log : List (DriveEvent ι)} {answer : Except ChannelError (List PartDeliveryOutcome)} :
      Trail parts maxAttempts call (.reported call answer :: log) → RetryableAll parts answer →
      sends log < maxAttempts →
      Trail parts maxAttempts call (.sent call :: .reported call answer :: log)

def DriveEvent.call : DriveEvent ι → ι
  | .sent call => call
  | .reported call _ => call

namespace Trail

variable {parts maxAttempts : ℕ} {call : ι} {log : List (DriveEvent ι)}

theorem call_eq (h : Trail parts maxAttempts call log) : ∀ event ∈ log, event.call = call := by
  induction h with
  | nil => exact fun event hevent => absurd hevent List.not_mem_nil
  | first => simp [DriveEvent.call]
  | reported answer _ ih => exact List.forall_mem_cons.2 ⟨rfl, ih⟩
  | again _ _ _ ih => exact List.forall_mem_cons.2 ⟨rfl, ih⟩

theorem sends_le (h : Trail parts maxAttempts call log) : sends log ≤ max 1 maxAttempts := by
  induction h with
  | nil => exact Nat.zero_le _
  | first => exact le_max_left _ _
  | reported answer _ ih => exact ih
  | again _ _ hlt _ => exact (Nat.succ_le_of_lt hlt).trans (le_max_right _ _)

/-- A repeat comes right after a report in which everything is retryable. -/
theorem repeat_after (h : Trail parts maxAttempts call log) {earlier : List (DriveEvent ι)}
    (hsuffix : .sent call :: earlier <:+ log) (hrepeat : .sent call ∈ earlier) :
    ∃ answer rest, earlier = .reported call answer :: rest ∧ RetryableAll parts answer := by
  induction h with
  | nil => exact absurd hsuffix (by simp)
  | first =>
    rcases List.suffix_cons_iff.1 hsuffix with heq | hsuffix
    · cases heq
      exact absurd hrepeat List.not_mem_nil
    · exact absurd hsuffix (by simp)
  | reported answer _ ih =>
    rcases List.suffix_cons_iff.1 hsuffix with heq | hsuffix
    · cases heq
    · exact ih hsuffix
  | @again log answer _ hretryable _ ih =>
    rcases List.suffix_cons_iff.1 hsuffix with heq | hsuffix
    · cases heq
      exact ⟨answer, log, rfl, hretryable⟩
    · exact ih hsuffix

end Trail

end

/-! ### The invariant -/

section

variable {ι κ : Type} {calls : ι → DeliveryCall κ} {start : Option DeliveryAttemptRow}
  {s : Deliveries ι κ} {call : ι}

/-- The call has won the claim and goes on. -/
def DeliveryPhase.Won : DeliveryPhase → Prop
  | .claimed => True
  | .resolving => True
  | .driving _ => True
  | .calling _ => True
  | .reading (.update _ _ _) _ => True
  | .writing (.update _ _ _) _ _ _ _ => True
  | _ => False

/-- What is in the log when a call makes an operation. -/
def StoreOp.Meant (parts : ℕ) (call : ι) (log : List (DriveEvent ι)) : StoreOp → Prop
  | .record attempt => attempt.status ≠ .delivered
  | .update _ status _ => status ≠ .prepared ∧ (status = .delivered →
      ∃ answer, .reported call answer ∈ log ∧ SentAll parts answer)
  | _ => True

/-- What is in the log in a phase of a call. -/
def DeliveryPhase.Tells (parts maxAttempts : ℕ) (call : ι) (log : List (DriveEvent ι)) :
    DeliveryPhase → Prop
  | .claimed => log = []
  | .resolving => log = []
  | .driving attemptsUsed => sends log = attemptsUsed ∧ (log = [] ∨
      ∃ answer rest, log = .reported call answer :: rest ∧ RetryableAll parts answer ∧
        attemptsUsed < maxAttempts)
  | .calling attemptsUsed => sends log = attemptsUsed ∧ ∃ rest, log = .sent call :: rest
  | .reading op _ => op.Meant parts call log
  | .writing op _ _ _ _ => op.Meant parts call log
  | _ => True

/-- A write that is still possible is what the operation does to the row as it is. -/
def DeliveryPhase.Fresh (version : ℕ) (row : Option DeliveryAttemptRow) : DeliveryPhase → Prop
  | .writing op _ seen new outcome =>
    seen ≤ version ∧ (seen = version → op.apply row = .ok (.write new outcome))
  | _ => True

def DeliveredAttempt (row : Option DeliveryAttemptRow) : Prop :=
  ∃ found, row = some found ∧ found.attempt.status = .delivered

structure Deliveries.Inv (calls : ι → DeliveryCall κ) (start : Option DeliveryAttemptRow)
    (s : Deliveries ι κ) : Prop where
  /-- After the claim the row is never prepared again. -/
  owner : ∀ call, s.owner = some call →
    ∃ row, s.row = some row ∧ row.attempt.status ≠ .prepared
  won : ∀ call, (s.phase call).Won → s.owner = some call
  fresh : ∀ call, (s.phase call).Fresh s.version s.row
  tells : ∀ call, (s.phase call).Tells (calls call).parts (calls call).maxAttempts call s.log
  trail : s.log = [] ∨ ∃ call, s.owner = some call ∧
    Trail (calls call).parts (calls call).maxAttempts call s.log
  delivered : DeliveredAttempt s.row → DeliveredAttempt start ∨
    ∃ call answer, .reported call answer ∈ s.log ∧ SentAll (calls call).parts answer

theorem Deliveries.inv_initial (calls : ι → DeliveryCall κ) (start : Option DeliveryAttemptRow) :
    Deliveries.Inv calls start (.initial start) where
  owner := fun _ h => absurd h.symm (Option.some_ne_none _)
  won := fun _ h => h.elim
  fresh := fun _ => trivial
  tells := fun _ => trivial
  trail := .inl rfl
  delivered := .inl

variable (h : s.Inv calls start)
include h

theorem Deliveries.Inv.log_of_owner_none (hnone : s.owner = none) : s.log = [] := by
  rcases h.trail with hnil | ⟨call, howner, -⟩
  · exact hnil
  · exact absurd (howner.symm.trans hnone) (Option.some_ne_none call)

theorem Deliveries.Inv.trail_of_owner (howner : s.owner = some call) :
    Trail (calls call).parts (calls call).maxAttempts call s.log := by
  rcases h.trail with hnil | ⟨other, hother, htrail⟩
  · rw [hnil]
    exact .nil
  · cases howner.symm.trans hother
    exact htrail

variable {phase : DeliveryPhase}

omit h in
/-- What a call relies on does not depend on the log unless it has won. -/
theorem DeliveryPhase.Tells.of_not_won {parts maxAttempts : ℕ} {log log' : List (DriveEvent ι)}
    (h : phase.Tells parts maxAttempts call log) (hlost : ¬ phase.Won) :
    phase.Tells parts maxAttempts call log' := by
  cases phase with
  | reading op tries =>
    cases op with
    | update scope status failureKind => exact absurd trivial hlost
    | record attempt => exact h
    | claim scope => trivial
    | recover scope => trivial
  | writing op tries seen row outcome =>
    cases op with
    | update scope status failureKind => exact absurd trivial hlost
    | record attempt => exact h
    | claim scope => trivial
    | recover scope => trivial
  | starting => trivial
  | validating stored => trivial
  | finished => trivial
  | claimed => exact absurd trivial hlost
  | resolving => exact absurd trivial hlost
  | driving attemptsUsed => exact absurd trivial hlost
  | calling attemptsUsed => exact absurd trivial hlost

omit h in
/-- An operation that wins nothing ends with a call that relies on nothing. -/
theorem afterOp_cases (op : StoreOp) (result : Except OutboundError Bool) :
    (∃ scope, op = .claim scope ∧ result = .ok true ∧ afterOp op result = .claimed) ∨
      (¬ (afterOp op result).Won ∧ ∀ (version : ℕ) (row : Option DeliveryAttemptRow)
        (parts maxAttempts : ℕ) (call : ι) (log : List (DriveEvent ι)),
        (afterOp op result).Fresh version row ∧
        (afterOp op result).Tells parts maxAttempts call log) := by
  unfold afterOp
  split
  · right
    split_ifs
    · exact ⟨not_false, fun _ _ _ _ _ _ => ⟨trivial, trivial⟩⟩
    · exact ⟨not_false, fun _ _ _ _ _ _ => ⟨trivial, trivial⟩⟩
  · exact .inl ⟨_, rfl, rfl, rfl⟩
  · exact .inr ⟨not_false, fun _ _ _ _ _ _ => ⟨trivial, trivial⟩⟩

theorem Deliveries.Inv.leave [DecidableEq κ] (call : ι) (op : StoreOp) :
    (s.leave calls call op).Inv calls start := by
  cases op <;> exact ⟨h.owner, h.won, h.fresh, h.tells, h.trail, h.delivered⟩

variable [DecidableEq ι]

theorem Deliveries.Inv.goto (hwon : phase.Won → s.owner = some call)
    (hfresh : phase.Fresh s.version s.row)
    (htells : phase.Tells (calls call).parts (calls call).maxAttempts call s.log) :
    (s.goto call phase).Inv calls start where
  owner := h.owner
  won := fun other => by
    show (Function.update s.phase call phase other).Won → s.owner = some other
    by_cases hother : other = call
    · rw [hother, Function.update_self]
      exact hwon
    · rw [Function.update_of_ne hother]
      exact h.won other
  fresh := fun other => by
    show (Function.update s.phase call phase other).Fresh s.version s.row
    by_cases hother : other = call
    · rw [hother, Function.update_self]
      exact hfresh
    · rw [Function.update_of_ne hother]
      exact h.fresh other
  tells := fun other => by
    show (Function.update s.phase call phase other).Tells _ _ other s.log
    by_cases hother : other = call
    · rw [hother, Function.update_self]
      exact htells
    · rw [Function.update_of_ne hother]
      exact h.tells other
  trail := h.trail
  delivered := h.delivered

theorem Deliveries.Inv.finish (call : ι) : (s.goto call .finished).Inv calls start :=
  h.goto (fun hwon => hwon.elim) trivial trivial

/-- A write that is committed is made on the row as it is. -/
theorem Deliveries.Inv.commit {op : StoreOp} {tries : ℕ} {new : DeliveryAttemptRow} {outcome : Bool}
    (hphase : s.phase call = .writing op tries s.version new outcome)
    {result : Except OutboundError Bool} {inFlight : κ → Bool} :
    Deliveries.Inv calls start ⟨some new, s.version + 1,
      Function.update s.phase call (afterOp op result), inFlight, s.log,
      ownerAfter op call s.owner⟩ := by
  have hfresh := h.fresh call
  have hmeant := h.tells call
  have hwon := h.won call
  rw [hphase] at hfresh hmeant hwon
  have happly := hfresh.2 rfl
  -- a claim is written only before there is an owner
  have hclaim : ∀ scope, op = .claim scope → s.owner = none := by
    intro scope hop
    rw [hop] at happly
    obtain ⟨before, hrow, hprepared, -⟩ := claim_writes happly
    cases howner : s.owner with
    | none => rfl
    | some other =>
      obtain ⟨row, hother, hnot⟩ := h.owner other howner
      cases hrow.symm.trans hother
      exact absurd hprepared hnot
  have hnew : ∀ owner, ownerAfter op call s.owner = some owner →
      new.attempt.status ≠ .prepared := by
    intro owner howner
    cases op with
    | record attempt =>
      obtain ⟨hnone, -⟩ := record_writes happly
      obtain ⟨row, hrow, -⟩ := h.owner owner howner
      rw [hnone] at hrow
      cases hrow
    | claim scope =>
      obtain ⟨before, -, -, rfl⟩ := claim_writes happly
      show OutboundDeliveryStatus.sending ≠ .prepared
      decide
    | update scope status failureKind =>
      rw [update_writes happly]
      exact hmeant.1
    | recover scope =>
      rw [recover_writes happly]
      decide
  -- the owner does not change once there is one
  have hkeeps : ∀ owner, s.owner = some owner →
      ownerAfter op call s.owner = some owner := by
    intro owner howner
    cases op with
    | claim scope => exact absurd (howner.symm.trans (hclaim scope rfl)) (Option.some_ne_none owner)
    | record attempt => exact howner
    | update scope status failureKind => exact howner
    | recover scope => exact howner
  refine ⟨fun owner howner => ⟨new, rfl, hnew owner howner⟩, ?_, ?_, ?_, ?_, ?_⟩
  · intro other
    show (Function.update s.phase call (afterOp op result) other).Won → _
    by_cases hother : other = call
    · rw [hother, Function.update_self]
      intro hphase'
      rcases @afterOp_cases ι op result with ⟨scope, rfl, -, -⟩ | ⟨hnot, -⟩
      · rfl
      · exact absurd hphase' hnot
    · rw [Function.update_of_ne hother]
      exact fun hphase' => hkeeps other (h.won other hphase')
  · intro other
    show (Function.update s.phase call (afterOp op result) other).Fresh (s.version + 1) (some new)
    by_cases hother : other = call
    · rw [hother, Function.update_self]
      rcases @afterOp_cases ι op result with ⟨scope, -, -, hclaimed⟩ | ⟨-, hrest⟩
      · rw [hclaimed]
        trivial
      · exact (hrest _ _ 0 0 call s.log).1
    · rw [Function.update_of_ne hother]
      -- what another call has read is out of date
      have hold := h.fresh other
      cases hwriting : s.phase other with
      | writing op' tries' seen new' outcome' =>
        rw [hwriting] at hold
        refine ⟨hold.1.trans (Nat.le_succ _), fun hseen => ?_⟩
        exact absurd hold.1 (by rw [hseen]; exact Nat.not_succ_le_self _)
      | _ => trivial
  · intro other
    show (Function.update s.phase call (afterOp op result) other).Tells _ _ other s.log
    by_cases hother : other = call
    · rw [hother, Function.update_self]
      rcases @afterOp_cases ι op result with ⟨scope, hop, -, hclaimed⟩ | ⟨-, hrest⟩
      · rw [hclaimed]
        exact h.log_of_owner_none (hclaim scope hop)
      · exact (hrest 0 none _ _ call s.log).2
    · rw [Function.update_of_ne hother]
      exact h.tells other
  · exact h.trail.imp_right fun htrail => by
      obtain ⟨owner, howner, htrail⟩ := htrail
      exact ⟨owner, hkeeps owner howner, htrail⟩
  · rintro ⟨found, hfound, hdelivered⟩
    cases hfound
    cases op with
    | record attempt =>
      obtain ⟨-, rfl⟩ := record_writes happly
      exact absurd hdelivered hmeant
    | claim scope =>
      obtain ⟨before, -, -, rfl⟩ := claim_writes happly
      cases hdelivered
    | update scope status failureKind =>
      rw [update_writes happly] at hdelivered
      obtain ⟨answer, hmem, hall⟩ := hmeant.2 hdelivered
      exact .inr ⟨call, answer, hmem, hall⟩
    | recover scope =>
      rw [recover_writes happly] at hdelivered
      cases hdelivered

theorem Deliveries.Inv.logged (howner : s.owner = some call) {event : DriveEvent ι}
    (hfresh : phase.Fresh s.version s.row)
    (htells : phase.Tells (calls call).parts (calls call).maxAttempts call (event :: s.log))
    (htrail : Trail (calls call).parts (calls call).maxAttempts call (event :: s.log)) :
    Deliveries.Inv calls start { s.goto call phase with log := event :: s.log } := by
  refine ⟨h.owner, ?_, ?_, ?_, .inr ⟨call, howner, htrail⟩, ?_⟩
  · intro other
    show (Function.update s.phase call phase other).Won → s.owner = some other
    by_cases hother : other = call
    · rw [hother]
      exact fun _ => howner
    · rw [Function.update_of_ne hother]
      exact h.won other
  · intro other
    show (Function.update s.phase call phase other).Fresh s.version s.row
    by_cases hother : other = call
    · rw [hother, Function.update_self]
      exact hfresh
    · rw [Function.update_of_ne hother]
      exact h.fresh other
  · intro other
    show (Function.update s.phase call phase other).Tells _ _ other (event :: s.log)
    by_cases hother : other = call
    · rw [hother, Function.update_self]
      exact htells
    · rw [Function.update_of_ne hother]
      refine (h.tells other).of_not_won fun hwon => ?_
      exact hother (Option.some.inj ((h.won other hwon).symm.trans howner))
  · intro hdelivered
    refine (h.delivered hdelivered).imp_right fun hreported => ?_
    obtain ⟨other, answer, hmem, hall⟩ := hreported
    exact ⟨other, answer, List.mem_cons_of_mem _ hmem, hall⟩

/-! ### The steps -/

variable [DecidableEq κ]

theorem Deliveries.Inv.load (call : ι) (fault : StoreFault) :
    (s.next calls (.load call fault)).Inv calls start := by
  rw [Deliveries.next]
  split
  · split
    · have hquiet : ∀ log, ¬ (afterLoad (calls call).attempt s.row).Won ∧
          (afterLoad (calls call).attempt s.row).Fresh s.version s.row ∧
          (afterLoad (calls call).attempt s.row).Tells (calls call).parts (calls call).maxAttempts
            call log := by
        intro log
        unfold afterLoad
        split
        · split_ifs <;> exact ⟨not_false, trivial, trivial⟩
        · exact ⟨not_false, trivial, trivial⟩
      obtain ⟨hlost, hfresh, htells⟩ := hquiet s.log
      exact h.goto (fun hwon => absurd hwon hlost) hfresh htells
    · exact h.finish call
  · exact h

theorem Deliveries.Inv.starts (call : ι) : (s.next calls (.start call)).Inv calls start := by
  have hprepared : (preparedAttempt (calls call).attempt).status ≠ .delivered := by
    show OutboundDeliveryStatus.prepared ≠ .delivered
    decide
  rw [Deliveries.next]
  split
  · exact h.goto (fun hwon => hwon.elim) trivial hprepared
  · exact h.goto (fun hwon => hwon.elim) trivial trivial
  · exact h

theorem Deliveries.Inv.validate (call : ι) (validation : Validation) :
    (s.next calls (.validate call validation)).Inv calls start := by
  have hprepared : (preparedAttempt (calls call).attempt).status ≠ .delivered := by
    show OutboundDeliveryStatus.prepared ≠ .delivered
    decide
  have hrevoked : (revokedAttempt (calls call).attempt).status ≠ .delivered := by
    show OutboundDeliveryStatus.failed ≠ .delivered
    decide
  rw [Deliveries.next]
  split
  · unfold afterValidation
    split
    · split_ifs
      · exact h.goto (fun hwon => hwon.elim) trivial trivial
      · exact h.goto (fun hwon => hwon.elim) trivial hprepared
    · split_ifs
      · exact h.finish call
      · exact h.goto (fun hwon => hwon.elim) trivial hrevoked
    · exact h.finish call
    · exact h.finish call
  · exact h

theorem Deliveries.Inv.unwritten (call : ι) {op : StoreOp} {result : Except OutboundError Bool}
    (hlost : ∀ scope, op = .claim scope → result ≠ .ok true) :
    ((s.goto call (afterOp op result)).leave calls call op).Inv calls start := by
  refine Deliveries.Inv.leave ?_ call op
  rcases @afterOp_cases ι op result with ⟨scope, hop, hresult, -⟩ | ⟨hnot, hrest⟩
  · exact absurd hresult (hlost scope hop)
  · obtain ⟨hfresh, htells⟩ := hrest s.version s.row (calls call).parts (calls call).maxAttempts
      call s.log
    exact h.goto (fun hwon => absurd hwon hnot) hfresh htells

theorem Deliveries.Inv.read (call : ι) (fault : StoreFault) :
    (s.next calls (.read call fault)).Inv calls start := by
  rw [Deliveries.next]
  split
  · rename_i op tries hphase
    have htells := h.tells call
    have hwon := h.won call
    rw [hphase] at htells hwon
    split
    · exact h.unwritten call fun _ _ hresult => (by cases hresult)
    · split
      · exact h.unwritten call fun _ _ hresult => (by cases hresult)
      · rename_i outcome hkeep
        refine h.unwritten call fun scope hop htrue => ?_
        -- a claim that keeps the row is lost
        cases htrue
        rw [hop] at hkeep
        obtain ⟨before, -, hkeep⟩ := bind_eq_ok.1 hkeep
        split at hkeep
        · cases hkeep
        · cases hkeep
      · rename_i new outcome hwrite
        refine h.goto (fun hphase' => hwon ?_) ⟨le_refl _, fun _ => hwrite⟩ htells
        cases op <;> exact hphase'
  · exact h

theorem Deliveries.Inv.write (call : ι) (fault : StoreFault) :
    (s.next calls (.write call fault)).Inv calls start := by
  rw [Deliveries.next]
  split
  · rename_i op tries seen new outcome hphase
    have htells := h.tells call
    have hwon := h.won call
    rw [hphase] at htells hwon
    split
    · split
      · refine h.goto (fun hphase' => hwon ?_) trivial htells
        cases op <;> exact hphase'
      · exact h.unwritten call fun _ _ hresult => (by cases hresult)
    · rename_i hseen
      cases not_not.1 hseen
      split
      · exact h.unwritten call fun _ _ hresult => (by cases hresult)
      · cases op <;> exact h.commit hphase
  · exact h

theorem Deliveries.Inv.enter (call : ι) : (s.next calls (.enter call)).Inv calls start := by
  rw [Deliveries.next]
  split
  · rename_i hphase
    have htells := h.tells call
    have hwon := h.won call
    rw [hphase] at htells hwon
    split
    · exact h.finish call
    · have hgoto : (s.goto call .resolving).Inv calls start := h.goto hwon trivial htells
      exact ⟨hgoto.owner, hgoto.won, hgoto.fresh, hgoto.tells, hgoto.trail, hgoto.delivered⟩
  · exact h

theorem Deliveries.Inv.resolve (call : ι) (stop : Option DriveStop) :
    (s.next calls (.resolve call stop)).Inv calls start := by
  unfold Deliveries.next
  dsimp only
  split
  · rename_i hphase
    have htells := h.tells call
    have hwon := h.won call
    rw [hphase] at htells hwon
    split
    · refine h.goto hwon trivial ⟨?_, .inl htells⟩
      rw [show s.log = [] from htells]
      rfl
    · rename_i stop
      refine h.goto hwon trivial ⟨?_, fun hdelivered => ?_⟩
      · cases stop <;> exact OutboundDeliveryStatus.noConfusion
      · cases stop <;> cases hdelivered
  · exact h

theorem Deliveries.Inv.send (call : ι) : (s.next calls (.send call)).Inv calls start := by
  unfold Deliveries.next
  dsimp only
  split
  · rename_i attemptsUsed hphase
    have htells := h.tells call
    have hwon := h.won call
    rw [hphase] at htells hwon
    have htrail := h.trail_of_owner (hwon trivial)
    obtain ⟨hsends, hlog⟩ := htells
    refine h.logged (hwon trivial) trivial ⟨?_, s.log, rfl⟩ ?_
    · show sends s.log + 1 = attemptsUsed + 1
      rw [hsends]
    · rcases hlog with hnil | ⟨answer, rest, hlog, hretryable, hlt⟩
      · rw [hnil]
        exact .first
      · rw [hlog] at htrail hsends ⊢
        refine .again htrail hretryable ?_
        rw [show sends rest = attemptsUsed from hsends]
        exact hlt
  · exact h

theorem Deliveries.Inv.report (call : ι) (answer : Except ChannelError (List PartDeliveryOutcome)) :
    (s.next calls (.report call answer)).Inv calls start := by
  unfold Deliveries.next
  dsimp only
  split
  · rename_i attemptsUsed hphase
    have htells := h.tells call
    have hwon := h.won call
    rw [hphase] at htells hwon
    have htrail := h.trail_of_owner (hwon trivial)
    obtain ⟨hsends, rest, hlog⟩ := htells
    have htrail' : Trail (calls call).parts (calls call).maxAttempts call
        (.reported call answer :: s.log) := by
      rw [hlog] at htrail ⊢
      exact .reported answer htrail
    cases hstep : driveStep (calls call).parts attemptsUsed (calls call).maxAttempts answer with
    | retry =>
      obtain ⟨hretryable, hlt⟩ := driveStep_retry hstep
      exact h.logged (hwon trivial) trivial
        ⟨hsends, .inr ⟨answer, s.log, rfl, hretryable, hlt⟩⟩ htrail'
    | terminal status failureKind =>
      refine h.logged (hwon trivial) trivial ⟨driveStep_not_prepared hstep, ?_⟩ htrail'
      rintro rfl
      exact ⟨answer, List.mem_cons_self, driveStep_delivered hstep⟩
  · exact h

theorem Deliveries.Inv.crash (coordinator : κ) :
    (s.next calls (.crash coordinator)).Inv calls start := by
  refine ⟨h.owner, ?_, ?_, ?_, h.trail, h.delivered⟩
  · intro call
    show (ite _ _ _ : DeliveryPhase).Won → _
    split
    · exact fun hwon => hwon.elim
    · exact h.won call
  · intro call
    show (ite _ _ _ : DeliveryPhase).Fresh _ _
    split
    · trivial
    · exact h.fresh call
  · intro call
    show (ite _ _ _ : DeliveryPhase).Tells _ _ _ _
    split
    · trivial
    · exact h.tells call

theorem Deliveries.Inv.next (action : DeliveryAction ι κ) :
    (s.next calls action).Inv calls start := by
  cases action with
  | load call fault => exact h.load call fault
  | start call => exact h.starts call
  | validate call validation => exact h.validate call validation
  | read call fault => exact h.read call fault
  | write call fault => exact h.write call fault
  | enter call => exact h.enter call
  | resolve call stop => exact h.resolve call stop
  | send call => exact h.send call
  | report call answer => exact h.report call answer
  | cancel call => exact h.finish call
  | crash coordinator => exact h.crash coordinator

theorem Deliveries.Inv.run (actions : List (DeliveryAction ι κ)) :
    (s.run calls actions).Inv calls start := by
  induction actions generalizing s with
  | nil => exact h
  | cons action actions ih => exact ih (h.next action)

omit h

/-! ### The result -/

/-- However the calls for one delivery id interleave, and wherever the store fails or a coordinator
crashes: the adapter is called by one of them only; it is called again only right after a report that
covers every part and in which every outcome is retryable, and at most as often as configured, but
once in any case; and the row gets `Delivered` only after a report with an outcome for every part in
which every outcome is `Sent`. -/
theorem discrete_delivery_driven_once (calls : ι → DeliveryCall κ)
    (start : Option DeliveryAttemptRow) (actions : List (DeliveryAction ι κ)) :
    let s := (Deliveries.initial start).run calls actions
    (∀ call call', .sent call ∈ s.log → .sent call' ∈ s.log → call = call') ∧
      (∀ call earlier, .sent call :: earlier <:+ s.log → .sent call ∈ earlier →
        ∃ answer rest, earlier = .reported call answer :: rest ∧
          RetryableAll (calls call).parts answer) ∧
      (∀ call, .sent call ∈ s.log → sends s.log ≤ max 1 (calls call).maxAttempts) ∧
      (DeliveredAttempt s.row → DeliveredAttempt start ∨
        ∃ call answer, .reported call answer ∈ s.log ∧ SentAll (calls call).parts answer) := by
  intro s
  have hinv : s.Inv calls start := (Deliveries.inv_initial calls start).run actions
  -- the log is the trail of the call that has won the claim
  have hsent : ∀ call, .sent call ∈ s.log →
      Trail (calls call).parts (calls call).maxAttempts call s.log ∧ s.owner = some call := by
    intro call hmem
    rcases hinv.trail with hnil | ⟨owner, howner, htrail⟩
    · rw [hnil] at hmem
      exact absurd hmem List.not_mem_nil
    · cases htrail.call_eq _ hmem
      exact ⟨htrail, howner⟩
  refine ⟨?_, ?_, ?_, hinv.delivered⟩
  · intro call call' hmem hmem'
    exact Option.some.inj ((hsent call hmem).2.symm.trans (hsent call' hmem').2)
  · intro call earlier hsuffix hrepeat
    have hmem : .sent call ∈ s.log := hsuffix.subset List.mem_cons_self
    exact (hsent call hmem).1.repeat_after hsuffix hrepeat
  · intro call hmem
    exact (hsent call hmem).1.sends_le

end

/-- A notice to the conversation that a run was started from. -/
def startedNotice : OutboundDeliveryAttempt where
  deliveryId := ⟨11⟩
  scope := ⟨⟨"acme"⟩, none, none, ⟨"thread-1"⟩, .actorFallback⟩
  candidate :=
    { tenantId := ⟨"acme"⟩
      agentId := none
      projectId := none
      threadId := ⟨"thread-1"⟩
      turnRunId := some ⟨3⟩
      target := ⟨"notice:C1"⟩
      kind := .deliveryStatus
      projectionRef := ⟨"system-notice:run_started:3"⟩
      requiresReplyTargetRevalidation := false }
  status := .prepared
  attemptedAt := 0
  failureKind := none

/-- With no attempts configured the adapter is still called once. -/
theorem no_attempts_configured_called_once :
    let calls : Unit → DeliveryCall Unit := fun _ => ⟨(), .notice, startedNotice, 1, 0⟩
    let s := (Deliveries.initial none).run calls [.start (), .read () .works, .write () .works,
      .read () .works, .write () .works, .enter (), .resolve () none, .send ()]
    sends s.log = 1 ∧ (calls ()).maxAttempts = 0 := by
  decide +kernel

end Ironclaw.Outbound
