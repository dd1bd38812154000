import Ironclaw.Outbound.Worker
import Ironclaw.Lib.Run

/-! # One call of the sink at a time

Any number of publisher processes work on one publication, with a common clock. A process starts a
worker when its map of targets has none for the publication; a worker that ends takes the entry out
again, whoever's it is. A shutdown drains the map, aborts the worker if its handle has been stored,
waits for it to stop, and hands a lease that the process holds back (`shutdown_reply_publication`);
nothing keeps the process from starting another worker meanwhile. A process may crash at any point.
Requests carry a clock reading that may be old when they reach the store; the time that is left of a
lease is read when the call of the sink starts.

`Views` is what a process may rely on: the fence it holds was given to it, and as long as the lease
it has read has not run out, the row is still its own. Every step keeps it for the process that
takes it and for all others (`Views.other`), as long as no process has two workers or hands back the
lease of a worker of its own: this is what `System.Undisturbed` asks of the steps, and
`Publisher.Alone` what comes of it. -/

namespace Ironclaw.Outbound

/-! ### The processes -/

/-- How far a shutdown has got with a target. -/
inductive HandBack where
  /-- Taken out of the map; the handle of the task is taken next. -/
  | drained
  /-- The row is read next. -/
  | stopped
  | releasing (fence : ℕ)
deriving DecidableEq

/-- A target that has been registered for the publication, and the worker driving it. -/
structure TargetState where
  worker : Option Worker
  /-- The handle of the worker's task is there. -/
  task : Bool
  handBack : Option HandBack

def TargetState.vacant : TargetState := ⟨none, false, none⟩

/-- One process: its targets by number, and which of them the map of targets has. -/
structure Publisher where
  registered : Option ℕ
  targets : ℕ → TargetState
  spawned : ℕ

def Publisher.fresh : Publisher := ⟨none, fun _ => .vacant, 0⟩

def Publisher.setTarget (process : Publisher) (n : ℕ) (target : TargetState) : Publisher :=
  { process with
    targets := Function.update process.targets n target }

/-- What the processes have in common, and how each is set up. -/
structure Fleet where
  scope : TurnScope
  transport : ReplyTransport
  settings : PublisherId → ReplyPublicationSettings

variable (fleet : Fleet)

def Fleet.target (publisher : PublisherId) : Target where
  scope := fleet.scope
  publisherId := publisher
  transport := fleet.transport
  settings := fleet.settings publisher

structure System where
  clock : Timestamp
  row : Option DeliveryAttemptRow
  publisher : PublisherId → Publisher
  /-- The fence and the desired revision of every advance that was stored, newest first. -/
  advances : List (ℕ × ℕ)

def System.initial (clock : Timestamp) : System := ⟨clock, none, fun _ => .fresh, []⟩

/-- A step of the system; `n` is the number of a target. -/
inductive SystemAction where
  /-- Time passes. -/
  | tick (clock : Timestamp)
  | opening (request : OpenReplyPublicationRequest)
  | spawn (publisher : PublisherId)
  /-- The handle of a task that has been spawned is stored. -/
  | keep (publisher : PublisherId) (n : ℕ)
  | work (publisher : PublisherId) (n : ℕ) (input : WorkerInput)
  /-- A worker that has ended forgets its target. -/
  | forget (publisher : PublisherId) (n : ℕ)
  | crash (publisher : PublisherId)
  | drain (publisher : PublisherId)
  | abort (publisher : PublisherId) (n : ℕ)
  /-- The shutdown reads the row. -/
  | inspect (publisher : PublisherId) (n : ℕ) (fault : StoreFault)
  | release (publisher : PublisherId) (n : ℕ) (fault : StoreFault)

def System.setPublisher (s : System) (publisher : PublisherId) (process : Publisher) : System :=
  { s with
    publisher := Function.update s.publisher publisher process }

/-- No clock reading is from the future, and a call of the sink starts now. -/
def WorkerInput.readAt (clock : Timestamp) : WorkerInput → WorkerInput
  | .plan snapshot fault now => .plan snapshot fault now
  | .prepare channel materialized => .prepare channel materialized
  | .store fault now => .store fault (min now clock)
  | .call _ => .call clock
  | .answer found => .answer found

/-- The advances after a step of a worker. -/
def storedAdvance (target : Target) (worker : Worker) (input : WorkerInput)
    (row : Option DeliveryAttemptRow) (advances : List (ℕ × ℕ)) : List (ℕ × ℕ) :=
  match input with
  | .store fault now =>
    match target.pendingAdvance worker now with
    | some request =>
      match fault, (PublicationCall.advance request).update row with
      | .lost, _ => advances
      | _, .ok _ => (request.fence, request.desiredRevision) :: advances
      | _, .error _ => advances
    | none => advances
  | _ => advances

/-- `spawn_target`: a target that the map has is only woken. -/
def Publisher.spawn (process : Publisher) : Publisher :=
  match process.registered with
  | some _ => process
  | none =>
    { process.setTarget process.spawned ⟨some .spawned, false, none⟩ with
      registered := some process.spawned
      spawned := process.spawned + 1 }

/-- `forget_target` goes by the key of the target, which all targets of the publication share. -/
def Publisher.forget (process : Publisher) (n : ℕ) : Publisher :=
  match (process.targets n).worker.map Worker.phase with
  | some .exited =>
    { process.setTarget n { process.targets n with
        worker := none } with
      registered := none }
  | _ => process

def Publisher.drain (process : Publisher) : Publisher :=
  match process.registered with
  | some n =>
    { process.setTarget n { process.targets n with
        handBack := some .drained } with
      registered := none }
  | none => process

/-- The shutdown takes the handle, aborts the task and waits for it to stop. Without a handle it
goes on at once. A worker that has ended first forgets its target. -/
def Publisher.abort (process : Publisher) (n : ℕ) : Publisher :=
  let target := process.targets n
  if target.handBack = some .drained then
    if target.task = true then
      match target.worker.map Worker.phase with
      | some .exited => process
      | _ => process.setTarget n ⟨none, false, some .stopped⟩
    else process.setTarget n { target with
      handBack := some .stopped }
  else process

/-- What the shutdown does once it has read the row: it hands a lease of its process back. -/
def Publisher.inspect (process : Publisher) (publisher : PublisherId) (n : ℕ) (fault : StoreFault)
    (record : Option ReplyPublicationRecord) : Publisher :=
  let target := process.targets n
  let goOn (handBack : Option HandBack) := process.setTarget n { target with
    handBack := handBack }
  if target.handBack = some .stopped then
    match record with
    | some record =>
      if fault = .works ∧ ∃ lease ∈ record.publication.lease, lease.owner = publisher then
        goOn (some (.releasing record.publication.fence))
      else goOn none
    | none => goOn none
  else process

def System.next (s : System) : SystemAction → System
  | .tick clock => { s with clock := max s.clock clock }
  | .opening request =>
    { s with row := (storeCall .works (openReplyPublication request) s.row).1 }
  | .spawn publisher => s.setPublisher publisher (s.publisher publisher).spawn
  | .keep publisher n =>
    let process := s.publisher publisher
    if (process.targets n).worker.isSome then
      s.setPublisher publisher (process.setTarget n { process.targets n with
        task := true })
    else s
  | .work publisher n input =>
    let process := s.publisher publisher
    match (process.targets n).worker with
    | some worker =>
      let target := fleet.target publisher
      let after := worker.step target (input.readAt s.clock) s.row
      { s.setPublisher publisher (process.setTarget n { process.targets n with
          worker := some after.2 }) with
        row := after.1
        advances := storedAdvance target worker (input.readAt s.clock) s.row s.advances }
    | none => s
  | .forget publisher n => s.setPublisher publisher ((s.publisher publisher).forget n)
  | .crash publisher => s.setPublisher publisher .fresh
  | .drain publisher => s.setPublisher publisher (s.publisher publisher).drain
  | .abort publisher n => s.setPublisher publisher ((s.publisher publisher).abort n)
  | .inspect publisher n fault =>
    s.setPublisher publisher ((s.publisher publisher).inspect publisher n fault
      (loadReplyPublication fleet.scope s.row))
  | .release publisher n fault =>
    let process := s.publisher publisher
    match (process.targets n).handBack with
    | some (.releasing fence) =>
      { s.setPublisher publisher (process.setTarget n { process.targets n with
          handBack := none }) with
        row := (storeCall fault (releaseReplyPublicationLease ⟨fleet.scope, fence⟩) s.row).1 }
    | _ => s

def System.worker? (s : System) (publisher : PublisherId) (n : ℕ) : Option Worker :=
  ((s.publisher publisher).targets n).worker

/-- The sink is being called by a worker of the process, for a plan and under a record. -/
def System.Calling (s : System) (publisher : PublisherId) (n : ℕ) (plan : Plan)
    (record : ReplyPublicationRecord) : Prop :=
  ∃ worker generation deadline, s.worker? publisher n = some worker ∧
    worker.phase = .calling plan generation record deadline ∧ s.clock < deadline

/-- The call of the sink that a worker is about to make: what it was planned for, and the record it
is made under. -/
def System.nextCall (s : System) (publisher : PublisherId) (n : ℕ) :
    Option (Plan × ReplyPublicationRecord) :=
  match (s.worker? publisher n).map Worker.phase with
  | some (.ready plan _ record) =>
    if 0 < (fleet.target publisher).remaining record s.clock then some (plan, record) else none
  | _ => none

/-! ### The steps that disturb no worker -/

/-- No worker starts on a process that is handing a lease back, and the shutdown finds the handle of
a worker that it has to stop. -/
def System.undisturbed (s : System) : SystemAction → Bool
  | .spawn publisher =>
    let process := s.publisher publisher
    process.registered.isSome ||
      (List.range process.spawned).all fun n => (process.targets n).handBack.isNone
  | .abort publisher n =>
    let target := (s.publisher publisher).targets n
    target.handBack ≠ some .drained || target.worker.isNone || target.task
  | _ => true

/-- The record of the row. -/
def recordOf (row : Option DeliveryAttemptRow) : Option ReplyPublicationRecord :=
  row.bind fun row => row.publication.map fun publication => ⟨row.attempt, publication⟩

/-- A worker that claims the row to send a revision is going to store it, or is back in its own
epoch, under whose fence the revision has been stored. -/
def Phase.bringsRevision (publisher : PublisherId) (now : Timestamp)
    (row : Option DeliveryAttemptRow) (advances : List (ℕ × ℕ)) : Phase → Bool
  | .claiming plan (.ok _) => (recordOf row).all fun record =>
    decide (record.publication.desiredRevision ≤ plan.snapshot.revision ∧
        NeedsPersist plan record) ||
      ((record.publication.liveLease now).any (·.owner = publisher) &&
        decide ((record.publication.fence, plan.snapshot.revision) ∈ advances))
  | _ => true

def System.bringsRevision (s : System) : SystemAction → Bool
  | .work publisher n (.store _ now) => (s.worker? publisher n).all fun worker =>
    worker.phase.bringsRevision publisher (min now s.clock) s.row s.advances
  | _ => true

/-! ### What a call of the store does to the row -/

theorem storeCall_row {T : Type} (fault : StoreFault)
    (operation : Option DeliveryAttemptRow → Except OutboundError (RowUpdate T))
    (row : Option DeliveryAttemptRow) :
    (storeCall fault operation row).1 = row ∨
      written (operation row) = .ok (storeCall fault operation row).1 := by
  rw [storeCall]
  split
  · exact .inl rfl
  · exact .inl rfl
  · rename_i new outcome hwrite
    rw [hwrite]
    cases fault with
    | works => exact .inr rfl
    | lost => exact .inl rfl
    | obscured => exact .inr rfl

variable {row : Option DeliveryAttemptRow} {fault : StoreFault}

/-- A result that comes with a write has been written. -/
theorem storeCall_ok {T : Type}
    {operation : Option DeliveryAttemptRow → Except OutboundError (RowUpdate T)} {outcome : T}
    (h : (storeCall fault operation row).2 = .ok outcome) :
    operation row = .ok (.keep outcome) ∨
      ∃ new, operation row = .ok (.write new outcome) ∧
        (storeCall fault operation row).1 = some new := by
  rw [storeCall] at h ⊢
  split at h
  · exact nomatch h
  · rename_i kept hkeep
    dsimp only at h
    split at h
    · cases h
      exact .inl hkeep
    · exact nomatch h
  · rename_i new written hwrite
    cases fault with
    | works =>
      cases h
      exact .inr ⟨new, hwrite, rfl⟩
    | lost => exact nomatch h
    | obscured => exact nomatch h

/-! ### What a process holds -/

/-- What a target may do to the row: its worker's steps, or the release of a hand-back. -/
inductive Process where
  | absent
  | running (worker : Worker)
  | releasing (fence : ℕ)

def TargetState.process (target : TargetState) : Process :=
  match target.worker, target.handBack with
  | some worker, _ => .running worker
  | none, some (.releasing fence) => .releasing fence
  | none, _ => .absent

/-- The record that a pass of the loop works with. -/
def Phase.record? : Phase → Option ReplyPublicationRecord
  | .persisting _ _ record => some record
  | .ready _ _ record => some record
  | .calling _ _ record _ => some record
  | .handling _ record _ => some record
  | _ => none

def Process.record? : Process → Option ReplyPublicationRecord
  | .running worker => worker.phase.record?
  | _ => none

/-- The fence that a process writes with. -/
def Phase.fence? (phase : Phase) : Option ℕ :=
  match phase.record?, phase with
  | some record, _ => some record.publication.fence
  | none, .settling fence _ => some fence
  | none, _ => none

def Process.fence? : Process → Option ℕ
  | .running worker => worker.phase.fence?
  | .releasing fence => some fence
  | _ => none

/-- The row is in the epoch `fence` of the publisher, with a lease until `expiresAt` or later. -/
def Owned (row : Option DeliveryAttemptRow) (publisher : PublisherId) (fence : ℕ)
    (expiresAt : Timestamp) : Prop :=
  ∃ (current : ReplyPublicationRecord) (lease : ReplyPublicationLease), row = some current.row ∧
    current.publication.fence = fence ∧ current.publication.lease = some lease ∧
    lease.owner = publisher ∧ expiresAt ≤ lease.expiresAt

/-- What a process may rely on. -/
structure Views (clock : Timestamp) (row : Option DeliveryAttemptRow) (publisher : PublisherId)
    (process : Process) : Prop where
  fence_le : ∀ fence, process.fence? = some fence → fence ≤ fenceOf row
  /-- Nobody else has the lease of an epoch that the process writes in. -/
  owner : ∀ (current : ReplyPublicationRecord) lease, row = some current.row →
    process.fence? = some current.publication.fence → current.publication.lease = some lease →
    lease.owner = publisher
  covered : ∀ record, process.record? = some record →
    ∃ expiresAt, record.publication.lease = some ⟨publisher, expiresAt⟩ ∧
      (clock < expiresAt → Owned row publisher record.publication.fence expiresAt)

variable {publisher : PublisherId} {process : Process} {clock : Timestamp}

theorem Views.of_nothing (hfence : process.fence? = none)
    (hrecord : process.record? = none) : Views clock row publisher process where
  fence_le := fun fence h => by
    rw [hfence] at h
    exact nomatch h
  owner := fun current lease _ h => by
    rw [hfence] at h
    exact nomatch h
  covered := fun record h => by
    rw [hrecord] at h
    exact nomatch h

theorem Views.tick {clock later : Timestamp} (h : Views clock row publisher process)
    (hle : clock ≤ later) : Views later row publisher process where
  fence_le := h.fence_le
  owner := h.owner
  covered := fun record hrecord => by
    obtain ⟨expiresAt, hlease, howned⟩ := h.covered record hrecord
    exact ⟨expiresAt, hlease, fun hlt => howned (hle.trans_lt hlt)⟩

variable {call : PublicationCall}

variable {now : Timestamp}

theorem liveLease_eq_some {publication : ReplyPublicationState} {lease : ReplyPublicationLease} :
    publication.liveLease now = some lease ↔
      publication.lease = some lease ∧ now < lease.expiresAt := by
  simp [ReplyPublicationState.liveLease, Option.filter_eq_some_iff]

/-- What a process may do to the row: claim it for itself, with a clock reading that is not from the
future, or write with the fence it holds. -/
def Acts (clock : Timestamp) (publisher : PublisherId) (process : Process) :
    PublicationCall → Prop
  | .opening _ => False
  | .claim request => request.owner = publisher ∧ request.now ≤ clock
  | .advance request => process.fence? = some request.fence
  | .settle request => process.fence? = some request.fence
  | .release request => process.fence? = some request.fence

/-- The owner of a live lease keeps all others out of its epoch. -/
theorem Views.other {row row' : Option DeliveryAttemptRow}
    {publisher actor : PublisherId} {process acting : Process}
    (h : Views clock row publisher process) (hactor : Views clock row actor acting)
    (hne : publisher ≠ actor) (hacts : Acts clock actor acting call)
    (hupdate : call.update row = .ok row') : Views clock row' publisher process := by
  have hfence := fenceOf_le_of_update hupdate
  rcases update_cases hupdate with ⟨request, rfl, -⟩ | ⟨before, after, rfl, rfl, hchanges⟩
  · exact absurd hacts not_false
  refine ⟨fun fence hheld => (h.fence_le fence hheld).trans hfence, ?_, ?_⟩
  · intro current lease hcurrent hheld hlease
    cases some_row_injective hcurrent
    cases hchanges with
    | @reenter request _ live active hlive howner =>
      obtain ⟨hbefore, -⟩ := liveLease_eq_some.1 hlive
      have hmine := h.owner before live rfl hheld hbefore
      exact absurd (hmine.symm.trans (howner.trans hacts.1)) hne
    | epoch active hnone =>
      have hle := h.fence_le _ hheld
      exact absurd hle (Nat.not_succ_le_self _)
    | advance published terminal active fence hsome => exact h.owner before lease rfl hheld hlease
    | settle active fence applied => exact nomatch hlease
    | release fence => exact nomatch hlease
  · intro record hrecord
    obtain ⟨expiresAt, hlease, howned⟩ := h.covered record hrecord
    refine ⟨expiresAt, hlease, fun hlt => ?_⟩
    obtain ⟨current, lease, hcurrent, hepoch, hleased, howner, hexpires⟩ := howned hlt
    cases some_row_injective hcurrent
    cases hchanges with
    | @reenter request _ live active hlive hsame =>
      obtain ⟨hbefore, -⟩ := liveLease_eq_some.1 hlive
      cases hleased.symm.trans hbefore
      exact absurd (howner.symm.trans (hsame.trans hacts.1)) hne
    | @epoch request _ active hnone =>
      -- the lease is live at every reading up to now
      have hlive : before.publication.liveLease request.now = some lease :=
        liveLease_eq_some.2 ⟨hleased, (hacts.2.trans_lt hlt).trans_le hexpires⟩
      rw [hlive] at hnone
      exact nomatch hnone
    | advance published terminal active fence hsome =>
      exact ⟨_, lease, rfl, hepoch, hleased, howner, hexpires⟩
    | settle active fence applied =>
      have hactors := hactor.owner before lease rfl (by rw [fence]; exact hacts) hleased
      exact absurd (howner.symm.trans hactors) hne
    | release fence =>
      have hactors := hactor.owner before lease rfl (by rw [fence]; exact hacts) hleased
      exact absurd (howner.symm.trans hactors) hne

/-! ### The process that takes a step -/

section

variable {clock : Timestamp} {row row' : Option DeliveryAttemptRow} {publisher : PublisherId}
  {process process' : Process} {record : ReplyPublicationRecord}

theorem Views.fresh {expiresAt : Timestamp}
    (hlease : record.publication.lease = some ⟨publisher, expiresAt⟩)
    (hfence : process.fence? = some record.publication.fence)
    (hrecord : ∀ held, process.record? = some held → held = record) :
    Views clock (some record.row) publisher process where
  fence_le := fun fence h => by
    cases hfence.symm.trans h
    exact le_refl _
  owner := fun current lease hcurrent _ h => by
    cases some_row_injective hcurrent
    cases hlease.symm.trans h
    rfl
  covered := fun held h => by
    cases hrecord held h
    exact ⟨expiresAt, hlease, fun _ => ⟨record, _, rfl, rfl, hlease, rfl, le_refl _⟩⟩

theorem Views.same (h : Views clock row publisher process) (hfence : process'.fence? = process.fence?)
    (hrecord : ∀ held, process'.record? = some held → process.record? = some held) :
    Views clock row publisher process' where
  fence_le := fun fence h' => h.fence_le fence (hfence.symm.trans h')
  owner := fun current lease hcurrent h' => h.owner current lease hcurrent (hfence.symm.trans h')
  covered := fun held h' => h.covered held (hrecord held h')

theorem Views.advanced {request : AdvanceReplyPublicationRequest}
    (h : Views clock row publisher process)
    (hupdate : (PublicationCall.advance request).update row = .ok row')
    (hfence : process'.fence? = process.fence?) (hrecord : process'.record? = none) :
    Views clock row' publisher process' := by
  obtain ⟨before, after, rfl, rfl, hchanges⟩ := advance_cases hupdate
  cases hchanges with
  | advance published terminal active fence hsome =>
    refine ⟨fun fence h' => h.fence_le fence (hfence.symm.trans h'), ?_, ?_⟩
    · intro current lease hcurrent hheld hlease
      cases some_row_injective hcurrent
      exact h.owner before lease rfl (hfence.symm.trans hheld) hlease
    · intro held h'
      rw [hrecord] at h'
      exact nomatch h'

end

/-- A claim keeps the row, or writes the record it returns, with a lease of the claimant. -/
theorem claimReplyPublicationLease_eq_ok {request : ClaimReplyPublicationLeaseRequest}
    {update : RowUpdate ReplyPublicationClaim}
    (h : claimReplyPublicationLease request row = .ok update) :
    (∃ record, update = .keep (.settled record)) ∨
      (∃ owner expiresAt, update = .keep (.held owner expiresAt)) ∨
      ∃ (record : ReplyPublicationRecord) (expiresAt : Timestamp),
        update = .write record.row (.acquired record) ∧
        record.publication.lease = some ⟨request.owner, expiresAt⟩ := by
  obtain ⟨expiresAt, -, h⟩ := bind_eq_ok.1 h
  obtain ⟨before, -, -, h⟩ := updateReplyPublication_eq_ok.1 h
  split at h
  · exact .inl ⟨_, (Except.ok.inj h).symm⟩
  split at h
  · split at h
    · exact .inr (.inl ⟨_, _, (Except.ok.inj h).symm⟩)
    · exact .inr (.inr ⟨_, _, (Except.ok.inj h).symm, rfl⟩)
  · split at h
    · exact .inr (.inr ⟨_, _, (Except.ok.inj h).symm, rfl⟩)
    · exact nomatch h

variable {record : ReplyPublicationRecord}

theorem claim_acquired {request : ClaimReplyPublicationLeaseRequest}
    (h : (storeCall fault (claimReplyPublicationLease request) row).2 = .ok (.acquired record)) :
    (storeCall fault (claimReplyPublicationLease request) row).1 = some record.row ∧
      (PublicationCall.claim request).update row = .ok (some record.row) ∧
      ∃ expiresAt, record.publication.lease = some ⟨request.owner, expiresAt⟩ := by
  rcases storeCall_ok h with hkeep | ⟨new, hwrite, hrow⟩
  · rcases claimReplyPublicationLease_eq_ok hkeep with
      ⟨settled, heq⟩ | ⟨owner, expiresAt, heq⟩ | ⟨written, expiresAt, heq, -⟩
    · cases heq
    · cases heq
    · cases heq
  · rcases claimReplyPublicationLease_eq_ok hwrite with
      ⟨settled, heq⟩ | ⟨owner, expiresAt, heq⟩ | ⟨stored, expiresAt, heq, hlease⟩
    · cases heq
    · cases heq
    · cases heq
      refine ⟨hrow, ?_, expiresAt, hlease⟩
      rw [PublicationCall.update, hwrite]
      rfl

variable {request : AdvanceReplyPublicationRequest}

theorem advanceReplyPublication_eq_ok {update : RowUpdate ReplyPublicationRecord}
    (h : advanceReplyPublication request row = .ok update) :
    ∃ before : ReplyPublicationRecord, row = some before.row ∧
      before.publication.fence = request.fence ∧ before.publication.lease ≠ none ∧
      update = .write (ReplyPublicationRecord.row ⟨before.attempt, advanced request before.publication⟩)
        ⟨before.attempt, advanced request before.publication⟩ := by
  obtain ⟨u, -, h⟩ := bind_eq_ok.1 h
  obtain ⟨before, hbefore, -, h⟩ := updateReplyPublication_eq_ok.1 h
  simp only [bind_eq_ok, ensureActive, ensureFence, rejectIf_eq_ok, exists_const, not_not] at h
  obtain ⟨-, hfence, hlease, -, -, -, h⟩ := h
  exact ⟨before, hbefore, hfence, hlease, (Except.ok.inj h).symm⟩

theorem advance_stored
        (h : (storeCall fault (advanceReplyPublication request) row).2 = .ok record) :
    (storeCall fault (advanceReplyPublication request) row).1 = some record.row ∧
      ∃ before : ReplyPublicationRecord, row = some before.row ∧
        before.publication.fence = request.fence ∧ before.publication.lease ≠ none ∧
        record = ⟨before.attempt, advanced request before.publication⟩ := by
  rcases storeCall_ok h with hkeep | ⟨new, hwrite, hrow⟩
  · obtain ⟨before, -, -, -, heq⟩ := advanceReplyPublication_eq_ok hkeep
    cases heq
  · obtain ⟨before, hbefore, hfence, hlease, heq⟩ := advanceReplyPublication_eq_ok hwrite
    cases heq
    exact ⟨hrow, before, hbefore, hfence, hlease, rfl⟩

variable {worker : Worker} {target : Target}

theorem pendingAdvance_fence (h : target.pendingAdvance worker now = some request) :
    worker.phase.fence? = some request.fence := by
  rw [Target.pendingAdvance] at h
  split at h
  · rename_i plan generation record hphase
    split at h
    · cases h
      rw [hphase]
      rfl
    · exact nomatch h
  · rename_i plan record step hphase
    rw [hphase]
    cases step <;> cases h <;> rfl
  · exact nomatch h

theorem Phase.record?_of_fence?_none {phase : Phase} (h : phase.fence? = none) :
    phase.record? = none := by
  cases phase <;> first | rfl | exact nomatch h

/-- A worker that writes with no fence relies on nothing. -/
theorem Views.of_free (h : worker.phase.fence? = none) :
    Views clock row publisher (.running worker) :=
  .of_nothing h (Phase.record?_of_fence?_none h)

/-! ### The steps of a worker -/

section

variable {target : Target} {worker : Worker} {clock : Timestamp} {row : Option DeliveryAttemptRow}

theorem planAgainst_free (snapshot : ReplySnapshot) (publishedRevision : ℕ) (now : Timestamp) :
    (worker.planAgainst target snapshot publishedRevision now).phase.fence? = none := by
  unfold Worker.planAgainst
  dsimp only
  split_ifs <;> rfl

theorem plan_free (h : worker.phase = .planning) (snapshot : Option ReplySnapshot)
    (fault : StoreFault) (now : Timestamp) :
    (worker.plan target snapshot fault now row).phase.fence? = none := by
  have hstay : worker.phase.fence? = none := by
    rw [h]
    rfl
  unfold Worker.plan
  split
  · exact hstay
  split
  · exact hstay
  split
  · exact planAgainst_free _ _ _
  split
  · exact hstay
  split
  · rfl
  split
  · rfl
  · exact planAgainst_free _ _ _

theorem prepared_free (plan : Plan) (preparation : Except Step ℕ) :
    (worker.prepared target plan preparation).phase.fence? = none := by
  unfold Worker.prepared
  split
  · dsimp only
    split_ifs <;> rfl
  · rfl

theorem loaded_free (plan : Plan) (preparation : Except Step ℕ) (fault : StoreFault) :
    (worker.loaded target plan preparation fault row).phase.fence? = none := by
  unfold Worker.loaded
  split
  · rfl
  split
  · rfl
  split
  · rfl
  split
  · rfl
  · rfl

/-- A worker that has claimed the row works with the record that was written, or with nothing. -/
theorem claimed_cases (worker : Worker) (plan : Plan) (preparation : Except Step ℕ)
    (claim : Except OutboundError ReplyPublicationClaim) :
    (worker.claimed plan preparation claim).phase.fence? = none ∨
      ∃ record, claim = .ok (.acquired record) ∧
        (worker.claimed plan preparation claim).phase.fence? = some record.publication.fence ∧
        (worker.claimed plan preparation claim).phase.record? = some record := by
  unfold Worker.claimed
  split
  · rename_i record
    split
    · exact .inl rfl
    split
    · exact .inr ⟨record, rfl, rfl, rfl⟩
    · exact .inr ⟨record, rfl, rfl, rfl⟩
  · exact .inl rfl
  · exact .inl rfl
  · exact .inl rfl

/-- A worker that has stored the desired revision goes on with the record that was written. -/
theorem persisted_cases (worker : Worker) (plan : Plan) (generation : ℕ)
    (advanced : Except OutboundError ReplyPublicationRecord) :
    (worker.persisted plan generation advanced).phase.fence? = none ∨
      ∃ record, advanced = .ok record ∧
        (worker.persisted plan generation advanced).phase = .ready plan generation record := by
  unfold Worker.persisted
  split
  · rename_i record
    exact .inr ⟨record, rfl, rfl⟩
  · rw [Worker.goto]
    dsimp only
    split_ifs <;> exact .inl rfl

/-- A worker that has handled a step settles with the fence of its record, or goes on with nothing. -/
theorem handled_cases (target : Target) (worker : Worker) (plan : Plan)
    (record : ReplyPublicationRecord) (step : Step) (now : Timestamp)
    (advanced : Except OutboundError ReplyPublicationRecord) :
    (worker.handled target plan record step now advanced).phase.fence? = none ∨
      (worker.handled target plan record step now advanced).phase.fence? =
          some record.publication.fence ∧
        (worker.handled target plan record step now advanced).phase.record? = none := by
  unfold Worker.handled
  dsimp only
  split
  · split
    · rw [Worker.applied]
      dsimp only
      split
      · exact .inr ⟨rfl, rfl⟩
      · exact .inl rfl
    · rw [Worker.goto]
      dsimp only
      split_ifs <;> exact .inl rfl
  · rw [Worker.goto]
    dsimp only
    split_ifs
    · exact .inr ⟨rfl, rfl⟩
    · exact .inl rfl
  · rw [Worker.goto]
    dsimp only
    split_ifs
    · exact .inr ⟨rfl, rfl⟩
    · exact .inl rfl
  · exact .inr ⟨rfl, rfl⟩
  · exact .inl rfl
  · exact .inl rfl

/-- What a step does to the row is one of the calls that the process may make. -/
theorem store_acts (fault : StoreFault) {now : Timestamp} (hnow : now ≤ clock) :
    (worker.store target fault now row).1 = row ∨
      ∃ call, Acts clock target.publisherId (.running worker) call ∧
        call.update row = .ok (worker.store target fault now row).1 := by
  unfold Worker.store
  split
  · exact .inl rfl
  · exact (storeCall_row fault _ row).imp_right fun hwritten =>
      ⟨.claim (target.claimRequest now), ⟨rfl, hnow⟩, hwritten⟩
  · dsimp only
    split
    · exact (storeCall_row fault _ row).imp_right fun hwritten =>
        ⟨.claim (target.claimRequest now), ⟨rfl, hnow⟩, hwritten⟩
    · exact (storeCall_row fault _ row).imp_right fun hwritten =>
        ⟨.claim (target.claimRequest now), ⟨rfl, hnow⟩, hwritten⟩
  · split
    · rename_i request hrequest
      exact (storeCall_row fault _ row).imp_right fun hwritten =>
        ⟨.advance request, pendingAdvance_fence hrequest, hwritten⟩
    · exact .inl rfl
  · split
    · rename_i request hrequest
      exact (storeCall_row fault _ row).imp_right fun hwritten =>
        ⟨.advance request, pendingAdvance_fence hrequest, hwritten⟩
    · exact .inl rfl
  · rename_i fence settlement hphase
    refine (storeCall_row fault _ row).imp_right fun hwritten =>
      ⟨.settle ⟨target.scope, fence, settlement, now⟩, ?_, hwritten⟩
    show worker.phase.fence? = some fence
    rw [hphase]
    rfl
  · exact .inl rfl

theorem step_acts (input : WorkerInput) :
    (worker.step target (input.readAt clock) row).1 = row ∨
      ∃ call, Acts clock target.publisherId (.running worker) call ∧
        call.update row = .ok (worker.step target (input.readAt clock) row).1 := by
  cases input with
  | plan snapshot fault now =>
    refine .inl ?_
    rw [WorkerInput.readAt, Worker.step]
    split <;> rfl
  | prepare channel materialized =>
    refine .inl ?_
    rw [WorkerInput.readAt, Worker.step]
    split <;> rfl
  | store fault now => exact store_acts fault (min_le_right now clock)
  | call now =>
    refine .inl ?_
    rw [WorkerInput.readAt, Worker.step]
    split <;> rfl
  | answer found =>
    refine .inl ?_
    rw [WorkerInput.readAt, Worker.step]
    split <;> rfl

variable {record : ReplyPublicationRecord}

/-- The lease of a record that the process has just advanced is its own. -/
theorem Views.advance_stored {fault : StoreFault} {request : AdvanceReplyPublicationRequest}
    {publisher : PublisherId} {process : Process}
    (h : Views clock row publisher process) (hfence : process.fence? = some request.fence)
    (hok : (storeCall fault (advanceReplyPublication request) row).2 = .ok record) :
    (storeCall fault (advanceReplyPublication request) row).1 = some record.row ∧
      ∃ expiresAt, record.publication.lease = some ⟨publisher, expiresAt⟩ := by
  obtain ⟨hrow, before, hbefore, hcurrent, hsome, rfl⟩ := Outbound.advance_stored hok
  refine ⟨hrow, ?_⟩
  obtain ⟨lease, hlease⟩ := Option.ne_none_iff_exists'.1 hsome
  have howner := h.owner before lease hbefore (by rw [hcurrent]; exact hfence) hlease
  exact ⟨lease.expiresAt, by rw [← howner]; exact hlease⟩

theorem store_views (h : Views clock row target.publisherId (.running worker)) (fault : StoreFault)
    (now : Timestamp) :
    Views clock (worker.store target fault now row).1 target.publisherId
      (.running (worker.store target fault now row).2) := by
  unfold Worker.store
  split
  · exact .of_free (loaded_free _ _ _)
  · rename_i plan preparation hphase
    rcases claimed_cases worker plan preparation
        (storeCall fault (claimReplyPublicationLease (target.claimRequest now)) row).2 with
      hfree | ⟨record, hclaim, hfence, hrecord⟩
    · exact .of_free hfree
    · obtain ⟨hrow, -, expiresAt, hlease⟩ := claim_acquired hclaim
      rw [hrow]
      exact .fresh hlease hfence fun held hheld => Option.some.inj (hheld.symm.trans hrecord)
  · dsimp only
    split
    · rename_i record hclaim
      obtain ⟨hrow, -, expiresAt, hlease⟩ := claim_acquired hclaim
      rw [hrow]
      exact .fresh hlease rfl fun held hheld => absurd hheld.symm (Option.some_ne_none held)
    · exact .of_free rfl
  · rename_i plan generation record hphase
    split
    · rename_i request hrequest
      rcases persisted_cases worker plan generation
          (storeCall fault (advanceReplyPublication request) row).2 with
        hfree | ⟨stored, hok, hready⟩
      · exact .of_free hfree
      · obtain ⟨hrow, expiresAt, hlease⟩ :=
          h.advance_stored (pendingAdvance_fence hrequest) hok
        dsimp only
        rw [hrow]
        refine .fresh hlease ?_ fun held hheld => ?_
        · show Phase.fence? _ = _
          rw [hready]
          rfl
        · change Phase.record? _ = _ at hheld
          rw [hready] at hheld
          exact (Option.some.inj hheld).symm
    · refine h.same ?_ fun held hheld => ?_
      · show some _ = worker.phase.fence?
        rw [hphase]
        rfl
      · show worker.phase.record? = some held
        rw [hphase]
        exact hheld
  · rename_i plan record step hphase
    have hmine : worker.phase.fence? = some record.publication.fence := by
      rw [hphase]
      rfl
    split
    · rename_i request hrequest
      rcases handled_cases target worker plan record step now
          (storeCall fault (advanceReplyPublication request) row).2 with hfree | ⟨hfence, hrecord⟩
      · exact .of_free hfree
      · have hfence' := hfence.trans hmine.symm
        rcases storeCall_row fault (advanceReplyPublication request) row with hsame | hwritten
        · dsimp only
          rw [hsame]
          refine h.same hfence' fun held hheld => ?_
          exact nomatch hrecord.symm.trans hheld
        · exact h.advanced hwritten hfence' hrecord
    · rcases handled_cases target worker plan record step now
          (.error .backend) with hfree | ⟨hfence, hrecord⟩
      · exact .of_free hfree
      · refine h.same (hfence.trans hmine.symm) fun held hheld => ?_
        exact nomatch hrecord.symm.trans hheld
  · exact .of_free rfl
  · exact h

theorem step_views (h : Views clock row target.publisherId (.running worker)) (input : WorkerInput) :
    Views clock (worker.step target (input.readAt clock) row).1 target.publisherId
      (.running (worker.step target (input.readAt clock) row).2) := by
  cases input with
  | plan snapshot fault now =>
    rw [WorkerInput.readAt, Worker.step]
    split
    · exact .of_free (plan_free ‹_› _ _ _)
    · exact h
  | prepare channel materialized =>
    rw [WorkerInput.readAt, Worker.step]
    split
    · exact .of_free (prepared_free _ _)
    · exact h
  | store fault now => exact store_views h fault _
  | call now =>
    rw [WorkerInput.readAt, Worker.step]
    split
    · rename_i plan generation record hphase
      rw [Worker.called]
      split
      all_goals
        refine h.same ?_ fun held hheld => ?_
        · show some _ = worker.phase.fence?
          rw [hphase]
          rfl
        · show worker.phase.record? = some held
          rw [hphase]
          exact hheld
    · exact h
  | answer found =>
    rw [WorkerInput.readAt, Worker.step]
    split
    · rename_i plan generation record deadline hphase
      refine h.same ?_ fun held hheld => ?_
      · show some _ = worker.phase.fence?
        rw [hphase]
        rfl
      · show worker.phase.record? = some held
        rw [hphase]
        exact hheld
    · exact h

/-! ### A call ends with the lease -/

/-- The deadline of a call is not after the end of the lease it is made under. -/
def Phase.InLease : Phase → Prop
  | .calling _ _ record deadline =>
    ∀ lease, record.publication.lease = some lease → deadline ≤ lease.expiresAt
  | _ => True

theorem called_inLease {plan : Plan} {generation : ℕ} {now : Timestamp} :
    (worker.called target plan generation record now).phase.InLease := by
  rw [Worker.called]
  split
  · trivial
  · intro lease hlease
    have hremaining : target.remaining record now = lease.expiresAt - now := by
      rw [Target.remaining, hlease]
    have hmin := min_le_right (target.settings.reconcileTimeout : ℤ) (target.remaining record now)
    rw [hremaining] at hmin ⊢
    calc now + min (target.settings.reconcileTimeout : ℤ) (lease.expiresAt - now)
        ≤ now + (lease.expiresAt - now) := Int.add_le_add_left hmin now
      _ = lease.expiresAt := add_sub_cancel _ _

theorem Phase.inLease_of_free {phase : Phase} (h : phase.fence? = none) : phase.InLease := by
  cases phase <;> trivial

theorem Phase.inLease_of_no_record {phase : Phase} (h : phase.record? = none) :
    phase.InLease := by
  cases phase <;> trivial

theorem store_inLease (h : worker.phase.InLease) (fault : StoreFault) (now : Timestamp) :
    (worker.store target fault now row).2.phase.InLease := by
  unfold Worker.store
  split
  · exact Phase.inLease_of_free (loaded_free _ _ _)
  · dsimp only
    unfold Worker.claimed
    split
    · split
      · trivial
      split <;> trivial
    · trivial
    · trivial
    · trivial
  · dsimp only
    split <;> trivial
  · rename_i plan generation record hphase
    split
    · rcases persisted_cases worker plan generation _ with hfree | ⟨stored, -, hready⟩
      · exact Phase.inLease_of_free hfree
      · rw [hready]
        trivial
    · trivial
  · rename_i plan record step hphase
    split
    · rcases handled_cases target worker plan record step now _ with hfree | ⟨-, hrecord⟩
      · exact Phase.inLease_of_free hfree
      · exact Phase.inLease_of_no_record hrecord
    · rcases handled_cases target worker plan record step now _ with hfree | ⟨-, hrecord⟩
      · exact Phase.inLease_of_free hfree
      · exact Phase.inLease_of_no_record hrecord
  · trivial
  · exact h

theorem step_inLease (h : worker.phase.InLease) (input : WorkerInput) :
    (worker.step target input row).2.phase.InLease := by
  cases input with
  | plan snapshot fault now =>
    rw [Worker.step]
    split
    · exact Phase.inLease_of_free (plan_free ‹_› _ _ _)
    · exact h
  | prepare channel materialized =>
    rw [Worker.step]
    split
    · exact Phase.inLease_of_free (prepared_free _ _)
    · exact h
  | store fault now => exact store_inLease h fault now
  | call now =>
    rw [Worker.step]
    split
    · exact called_inLease
    · exact h
  | answer found =>
    rw [Worker.step]
    split
    · trivial
    · exact h

end

/-! ### One worker for each process -/

/-- A worker or a hand-back is at the target. -/
def TargetState.Busy (target : TargetState) : Prop :=
  target.worker ≠ none ∨ target.handBack ≠ none

theorem TargetState.process_of_not_busy {target : TargetState} (h : ¬ target.Busy) :
    target.process = .absent := by
  rw [Busy, not_or, not_not, not_not] at h
  rw [TargetState.process, h.1, h.2]

theorem TargetState.process_of_worker {target : TargetState} {worker : Worker}
    (h : target.worker = some worker) : target.process = .running worker := by
  rw [TargetState.process, h]

/-- A process has one target at most at which something happens, and its worker runs alone: it is
the one in the map, or a shutdown is about to stop it. -/
structure Publisher.Alone (process : Publisher) : Prop where
  one : ∀ n m, (process.targets n).Busy → (process.targets m).Busy → n = m
  registered : ∀ n, process.registered = some n →
    (process.targets n).worker ≠ none ∧ (process.targets n).handBack = none
  held : ∀ n, (process.targets n).worker ≠ none → (process.targets n).handBack = none →
    process.registered = some n
  stopped : ∀ n handBack, (process.targets n).handBack = some handBack →
    (process.targets n).worker ≠ none → handBack = .drained
  spawned : ∀ n, process.spawned ≤ n → ¬ (process.targets n).Busy

namespace Publisher

theorem alone_fresh : Publisher.fresh.Alone where
  one := fun n _ h => absurd h (by simp [fresh, TargetState.vacant, TargetState.Busy])
  registered := fun _ h => nomatch h
  held := fun _ h => absurd rfl h
  stopped := fun _ _ h => nomatch h
  spawned := fun _ _ h => absurd h (by simp [fresh, TargetState.vacant, TargetState.Busy])

variable {process : Publisher} {n : ℕ} {target : TargetState}

theorem setTarget_self (process : Publisher) (n : ℕ) (target : TargetState) :
    (process.setTarget n target).targets n = target := by
  rw [setTarget]
  exact Function.update_self ..

theorem setTarget_of_ne (process : Publisher) {n m : ℕ} (target : TargetState) (h : m ≠ n) :
    (process.setTarget n target).targets m = process.targets m := by
  rw [setTarget]
  exact Function.update_of_ne h ..

/-- What is to be known of the one target of a process. -/
theorem alone_of_sole (hothers : ∀ m, m ≠ n → ¬ (process.targets m).Busy)
    (hspawned : (process.targets n).Busy → n < process.spawned)
    (hregistered : ∀ m, process.registered = some m →
      m = n ∧ (process.targets n).worker ≠ none ∧ (process.targets n).handBack = none)
    (hheld : (process.targets n).worker ≠ none → (process.targets n).handBack = none →
      process.registered = some n)
    (hstopped : ∀ handBack, (process.targets n).handBack = some handBack →
      (process.targets n).worker ≠ none → handBack = .drained) : process.Alone := by
  have hsole : ∀ m, (process.targets m).Busy → m = n :=
    fun m hbusy => by_contra fun hne => hothers m hne hbusy
  refine ⟨fun m m' hm hm' => (hsole m hm).trans (hsole m' hm').symm, fun m hm => ?_,
    fun m hworker => ?_, fun m handBack hback hworker => ?_, fun m hle hbusy => ?_⟩
  · obtain ⟨rfl, h⟩ := hregistered m hm
    exact h
  · obtain rfl := hsole m (.inl hworker)
    exact hheld hworker
  · obtain rfl := hsole m (.inl hworker)
    exact hstopped handBack hback hworker
  · obtain rfl := hsole m hbusy
    exact absurd (hspawned hbusy) (not_lt.2 hle)

theorem Alone.others (h : process.Alone) (hbusy : (process.targets n).Busy) :
    ∀ m, m ≠ n → ¬ (process.targets m).Busy :=
  fun m hne hm => hne (h.one m n hm hbusy)

theorem Alone.lt_spawned (h : process.Alone) (hbusy : (process.targets n).Busy) :
    n < process.spawned :=
  not_le.1 fun hle => h.spawned n hle hbusy

/-- Only whether there is a worker, and the hand-back, are looked at. -/
theorem Alone.congr {process' : Publisher} (h : process.Alone)
    (hregistered : process'.registered = process.registered)
    (hspawned : process'.spawned = process.spawned)
    (htargets : ∀ m, ((process'.targets m).worker = none ↔ (process.targets m).worker = none) ∧
      (process'.targets m).handBack = (process.targets m).handBack) : process'.Alone := by
  have hworker := fun m => (htargets m).1
  have hback := fun m => (htargets m).2
  constructor
  · simpa only [TargetState.Busy, ne_eq, hworker, hback] using h.one
  · simpa only [ne_eq, hregistered, hworker, hback] using h.registered
  · simpa only [ne_eq, hregistered, hworker, hback] using h.held
  · simpa only [ne_eq, hworker, hback] using h.stopped
  · simpa only [TargetState.Busy, ne_eq, hspawned, hworker, hback] using h.spawned

theorem Alone.spawn (h : process.Alone)
    (hfree : process.registered = none → ∀ n < process.spawned, (process.targets n).handBack = none) :
    process.spawn.Alone := by
  rw [Publisher.spawn]
  split
  · exact h
  rename_i hnone
  have hidle : ∀ m, ¬ (process.targets m).Busy := by
    intro m hbusy
    have hback := hfree hnone m (h.lt_spawned hbusy)
    have hworker : (process.targets m).worker ≠ none :=
      hbusy.resolve_right fun hsome => hsome hback
    exact nomatch hnone.symm.trans (h.held m hworker hback)
  have hself := setTarget_self process process.spawned ⟨some .spawned, false, none⟩
  refine alone_of_sole (n := process.spawned) ?_ ?_ ?_ ?_ ?_
  · intro m hne
    show ¬ ((process.setTarget process.spawned _).targets m).Busy
    rw [setTarget_of_ne process _ hne]
    exact hidle m
  · exact fun _ => Nat.lt_succ_self _
  · intro m hm
    refine ⟨(Option.some.inj hm).symm, ?_⟩
    show ((process.setTarget process.spawned _).targets process.spawned).worker ≠ none ∧
      ((process.setTarget process.spawned _).targets process.spawned).handBack = none
    rw [hself]
    exact ⟨Option.some_ne_none _, rfl⟩
  · exact fun _ _ => rfl
  · intro handBack hback
    change ((process.setTarget process.spawned _).targets process.spawned).handBack = _ at hback
    rw [hself] at hback
    exact nomatch hback

/-- The map loses the target of a worker that ends or that a shutdown is to stop. -/
theorem Alone.unregister (h : process.Alone) (hbusy : (process.targets n).Busy)
    (htarget : target.worker ≠ none → target.handBack = some .drained) :
    Publisher.Alone { process.setTarget n target with
      registered := none } := by
  have hself := setTarget_self process n target
  refine alone_of_sole (n := n) ?_ (fun _ => h.lt_spawned hbusy) (fun _ hm => nomatch hm) ?_ ?_
  · intro m hne
    show ¬ ((process.setTarget n target).targets m).Busy
    rw [setTarget_of_ne process _ hne]
    exact h.others hbusy m hne
  · intro hworker hback
    change ((process.setTarget n target).targets n).worker ≠ none at hworker
    change ((process.setTarget n target).targets n).handBack = none at hback
    rw [hself] at hworker hback
    exact nomatch hback.symm.trans (htarget hworker)
  · intro handBack hback hworker
    change ((process.setTarget n target).targets n).worker ≠ none at hworker
    change ((process.setTarget n target).targets n).handBack = _ at hback
    rw [hself] at hworker hback
    exact Option.some.inj (hback.symm.trans (htarget hworker))

theorem Alone.not_registered (h : process.Alone) {handBack : HandBack}
    (hback : (process.targets n).handBack = some handBack) : process.registered = none := by
  cases hregistered : process.registered with
  | none => rfl
  | some m =>
    obtain ⟨hworker, hnone⟩ := h.registered m hregistered
    obtain rfl := h.one n m (.inr (by rw [hback]; exact Option.some_ne_none _)) (.inl hworker)
    exact nomatch hback.symm.trans hnone

theorem Alone.handBack (h : process.Alone) {handBack : HandBack}
    (hback : (process.targets n).handBack = some handBack) (hworker : target.worker = none) :
    (process.setTarget n target).Alone := by
  have hnone := h.not_registered hback
  have hstep : process.setTarget n target = { process.setTarget n target with
      registered := none } := by
    rw [← hnone]
    rfl
  rw [hstep]
  exact h.unregister (.inr (by rw [hback]; exact Option.some_ne_none _))
    fun hsome => absurd hworker hsome

end Publisher

/-! ### The invariant -/

theorem row_of_loadReplyPublication {scope : TurnScope}
    (h : loadReplyPublication scope row = some record) :
    row = some record.row := by
  cases row with
  | none => cases h
  | some row =>
    rw [loadReplyPublication] at h
    split at h
    · obtain ⟨publication, hpublication, rfl⟩ := Option.map_eq_some_iff.1 h
      rw [ReplyPublicationRecord.row, ← hpublication]
    · cases h

/-- What holds of a process at any time. -/
structure Publisher.Safe (clock : Timestamp) (row : Option DeliveryAttemptRow)
    (publisher : PublisherId) (process : Publisher) : Prop where
  alone : process.Alone
  views : ∀ n, Views clock row publisher (process.targets n).process
  inLease : ∀ n worker, (process.targets n).worker = some worker → worker.phase.InLease

namespace Publisher.Safe

variable {process process' : Publisher} {n : ℕ} {target : TargetState}

theorem fresh : Publisher.fresh.Safe clock row publisher :=
  ⟨alone_fresh, fun _ => .of_nothing rfl rfl, fun _ _ h => nomatch h⟩

/-- A step at one target of the process; `row` is the row after it. -/
theorem setTarget (hothers : ∀ m, m ≠ n → Views clock row publisher (process.targets m).process)
    (hinLeases : ∀ m worker, (process.targets m).worker = some worker → worker.phase.InLease)
    (htargets : process'.targets = (process.setTarget n target).targets)
    (halone : process'.Alone) (hviews : Views clock row publisher target.process)
    (hinLease : ∀ worker, target.worker = some worker → worker.phase.InLease) :
    process'.Safe clock row publisher := by
  refine ⟨halone, fun m => ?_, fun m worker hworker => ?_⟩
  · rw [htargets]
    by_cases hm : m = n
    · rw [hm, setTarget_self]
      exact hviews
    · rw [setTarget_of_ne _ _ hm]
      exact hothers m hm
  · rw [htargets] at hworker
    by_cases hm : m = n
    · rw [hm, setTarget_self] at hworker
      exact hinLease worker hworker
    · rw [setTarget_of_ne _ _ hm] at hworker
      exact hinLeases m worker hworker

variable (h : process.Safe clock row publisher)
include h

theorem still (htargets : process'.targets = (process.setTarget n target).targets)
    (halone : process'.Alone) (hviews : Views clock row publisher target.process)
    (hinLease : ∀ worker, target.worker = some worker → worker.phase.InLease) :
    process'.Safe clock row publisher :=
  setTarget (fun m _ => h.views m) h.inLease htargets halone hviews hinLease

theorem acted {row' : Option DeliveryAttemptRow} (hbusy : (process.targets n).Busy)
    (halone : (process.setTarget n target).Alone)
    (hviews : Views clock row' publisher target.process)
    (hinLease : ∀ worker, target.worker = some worker → worker.phase.InLease) :
    (process.setTarget n target).Safe clock row' publisher := by
  refine setTarget (fun m hm => ?_) h.inLease rfl halone hviews hinLease
  -- nothing else happens on the process
  rw [TargetState.process_of_not_busy (h.alone.others hbusy m hm)]
  exact .of_nothing rfl rfl

theorem spawn (hfree : process.registered = none →
    ∀ n < process.spawned, (process.targets n).handBack = none) :
    process.spawn.Safe clock row publisher := by
  have halone := h.alone.spawn hfree
  rw [Publisher.spawn] at halone ⊢
  split at halone
  · exact h
  · refine h.still rfl halone (.of_nothing rfl rfl) fun worker hworker => ?_
    cases hworker
    trivial

theorem keep (n : ℕ) : (process.setTarget n { process.targets n with
    task := true }).Safe clock row publisher := by
  refine h.still rfl (h.alone.congr rfl rfl fun m => ?_) (h.views n) (h.inLease n)
  by_cases hm : m = n
  · rw [hm, setTarget_self]
    exact ⟨Iff.rfl, rfl⟩
  · rw [setTarget_of_ne _ _ hm]
    exact ⟨Iff.rfl, rfl⟩

theorem forget (n : ℕ) : (process.forget n).Safe clock row publisher := by
  rw [Publisher.forget]
  split
  · rename_i hphase
    obtain ⟨worker, hworker, -⟩ := Option.map_eq_some_iff.1 hphase
    have hsome : (process.targets n).worker ≠ none := by
      rw [hworker]
      exact Option.some_ne_none _
    refine h.still rfl (h.alone.unregister (.inl hsome) fun hnone => absurd rfl hnone) ?_
      fun _ hnone => nomatch hnone
    rw [TargetState.process]
    cases hback : (process.targets n).handBack with
    | none => exact .of_nothing rfl rfl
    | some handBack =>
      rw [h.alone.stopped n handBack hback hsome]
      exact .of_nothing rfl rfl
  · exact h

theorem drain : process.drain.Safe clock row publisher := by
  rw [Publisher.drain]
  split
  · rename_i n hregistered
    have hworker := (h.alone.registered n hregistered).1
    refine h.still rfl (h.alone.unregister (.inl hworker) fun _ => rfl) ?_ (h.inLease n)
    have hviews := h.views n
    obtain ⟨worker, hsome⟩ := Option.ne_none_iff_exists'.1 hworker
    rw [TargetState.process_of_worker hsome] at hviews
    have hprocess : TargetState.process { process.targets n with
        handBack := some .drained } = .running worker := TargetState.process_of_worker hsome
    rw [hprocess]
    exact hviews
  · exact h

theorem abort (hkept : (process.targets n).handBack = some .drained →
    (process.targets n).worker ≠ none → (process.targets n).task = true) :
    (process.abort n).Safe clock row publisher := by
  unfold Publisher.abort
  dsimp only
  split
  · rename_i hdrained
    split
    · split
      · exact h
      · exact h.still rfl (h.alone.handBack hdrained rfl) (.of_nothing rfl rfl)
          fun _ hnone => nomatch hnone
    · rename_i htask
      have hworker : (process.targets n).worker = none :=
        by_contra fun hsome => htask (hkept hdrained hsome)
      refine h.still rfl (h.alone.handBack hdrained hworker) ?_ (h.inLease n)
      rw [TargetState.process, hworker]
      exact .of_nothing rfl rfl
  · exact h

theorem inspect (n : ℕ) (fault : StoreFault) (scope : TurnScope) :
    (process.inspect publisher n fault (loadReplyPublication scope row)).Safe
      clock row publisher := by
  unfold Publisher.inspect
  dsimp only
  split
  · rename_i hstopped
    have hworker : (process.targets n).worker = none :=
      by_contra fun hsome => nomatch h.alone.stopped n _ hstopped hsome
    have hgo (handBack : Option HandBack) (hviews : Views clock row publisher
        (TargetState.process ⟨none, (process.targets n).task, handBack⟩)) :
        (process.setTarget n { process.targets n with
          handBack := handBack }).Safe clock row publisher := by
      refine h.still rfl (h.alone.handBack hstopped hworker) ?_ (h.inLease n)
      rwa [← hworker] at hviews
    split
    · rename_i record hload
      split
      · rename_i howns
        obtain ⟨-, lease, hlease, howner⟩ := howns
        have hmine : record.publication.lease = some ⟨publisher, lease.expiresAt⟩ := by
          rw [hlease, ← howner]
        refine hgo _ ?_
        rw [row_of_loadReplyPublication hload]
        exact .fresh hmine rfl fun held hheld => nomatch hheld
      · exact hgo none (.of_nothing rfl rfl)
    · exact hgo none (.of_nothing rfl rfl)
  · exact h

end Publisher.Safe

def System.Inv (s : System) : Prop :=
  ∀ publisher, (s.publisher publisher).Safe s.clock s.row publisher

theorem System.inv_initial (clock : Timestamp) : (System.initial clock).Inv := fun _ => .fresh

/-- Opening the publication is nothing that a process relies on. -/
theorem Views.opened {row row' : Option DeliveryAttemptRow} {request : OpenReplyPublicationRequest}
    (h : Views clock row publisher process)
    (hupdate : (PublicationCall.opening request).update row = .ok row') :
    Views clock row' publisher process := by
  have hfence := fenceOf_le_of_update hupdate
  obtain ⟨rfl, -, rfl⟩ := opening_cases hupdate
  refine ⟨fun fence hheld => (h.fence_le fence hheld).trans hfence, ?_, ?_⟩
  · intro current lease hcurrent _ hlease
    cases some_row_injective hcurrent
    exact nomatch hlease
  · intro record hrecord
    obtain ⟨expiresAt, hlease, howned⟩ := h.covered record hrecord
    refine ⟨expiresAt, hlease, fun hlt => ?_⟩
    obtain ⟨current, lease, hnone, -⟩ := howned hlt
    exact absurd hnone.symm (Option.some_ne_none _)

variable {s : System}

variable (h : s.Inv)
include h

/-- A process acts on the row, if at all, and what it then relies on holds. -/
theorem System.Inv.acted {n : ℕ} {process : Publisher} {row' : Option DeliveryAttemptRow}
    {advances' : List (ℕ × ℕ)}
    (hrow : row' = s.row ∨ ∃ call,
      Acts s.clock publisher ((s.publisher publisher).targets n).process call ∧
        call.update s.row = .ok row')
    (hsafe : process.Safe s.clock row' publisher) :
    System.Inv { s.setPublisher publisher process with
      row := row'
      advances := advances' } := by
  intro other
  show Publisher.Safe s.clock row' other (Function.update s.publisher publisher process other)
  by_cases hne : other = publisher
  · rw [hne, Function.update_self]
    exact hsafe
  · rw [Function.update_of_ne hne]
    refine ⟨(h other).alone, fun m => ?_, (h other).inLease⟩
    rcases hrow with rfl | ⟨call, hacts, hupdate⟩
    · exact (h other).views m
    · exact ((h other).views m).other ((h publisher).views n) hne hacts hupdate

theorem System.Inv.setPublisher {process : Publisher}
    (hsafe : process.Safe s.clock s.row publisher) : (s.setPublisher publisher process).Inv :=
  h.acted (n := 0) (.inl rfl) hsafe

theorem System.Inv.release (n : ℕ) (fault : StoreFault) :
    (s.next fleet (.release publisher n fault)).Inv := by
  rw [System.next]
  dsimp only
  split
  · rename_i fence hreleasing
    have hsafe := h publisher
    have hworker : ((s.publisher publisher).targets n).worker = none :=
      by_contra fun hsome => nomatch hsafe.alone.stopped n _ hreleasing hsome
    have hprocess : ((s.publisher publisher).targets n).process = .releasing fence := by
      rw [TargetState.process, hworker, hreleasing]
    refine h.acted (n := n) ?_ (hsafe.acted ?_ (hsafe.alone.handBack hreleasing hworker) ?_
      fun worker hsome => nomatch hworker.symm.trans hsome)
    · refine (storeCall_row fault _ s.row).imp_right fun hwritten =>
        ⟨.release ⟨fleet.scope, fence⟩, ?_, hwritten⟩
      rw [hprocess]
      rfl
    · exact .inr (by rw [hreleasing]; exact Option.some_ne_none _)
    · rw [TargetState.process, hworker]
      exact .of_nothing rfl rfl
  · exact h

theorem System.Inv.work (n : ℕ) (input : WorkerInput) :
    (s.next fleet (.work publisher n input)).Inv := by
  rw [System.next]
  dsimp only
  split
  · rename_i worker hworker
    have hsafe := h publisher
    have hprocess := TargetState.process_of_worker hworker
    have hviews := hsafe.views n
    rw [hprocess] at hviews
    have hsome : ((s.publisher publisher).targets n).worker ≠ none := by
      rw [hworker]
      exact Option.some_ne_none _
    change Views s.clock s.row (fleet.target publisher).publisherId _ at hviews
    refine h.acted (n := n) ?_ (hsafe.acted (.inl hsome) ?_ (step_views hviews input)
      fun after hafter => ?_)
    · rw [hprocess]
      exact @step_acts (fleet.target publisher) worker s.clock s.row input
    · refine hsafe.alone.congr rfl rfl fun m => ?_
      by_cases hm : m = n
      · rw [hm, Publisher.setTarget_self]
        exact ⟨iff_of_false (Option.some_ne_none _) hsome, rfl⟩
      · rw [Publisher.setTarget_of_ne _ _ hm]
        exact ⟨Iff.rfl, rfl⟩
    · cases hafter
      exact step_inLease (hsafe.inLease n worker hworker) _
  · exact h

theorem System.Inv.opening (request : OpenReplyPublicationRequest) :
    System.Inv { s with row := (storeCall .works (openReplyPublication request) s.row).1 } := by
  intro publisher
  refine ⟨(h publisher).alone, fun n => ?_, (h publisher).inLease⟩
  rcases storeCall_row .works (openReplyPublication request) s.row with hsame | hwritten
  · show Views s.clock (storeCall .works (openReplyPublication request) s.row).1 _ _
    rw [hsame]
    exact (h publisher).views n
  · have hupdate : (PublicationCall.opening request).update s.row = .ok _ := hwritten
    exact ((h publisher).views n).opened hupdate

theorem System.Inv.next {action : SystemAction} (hundisturbed : s.undisturbed action = true) :
    (s.next fleet action).Inv := by
  cases action with
  | tick clock =>
    exact fun publisher => ⟨(h publisher).alone,
      fun n => ((h publisher).views n).tick (le_max_left _ _), (h publisher).inLease⟩
  | opening request => exact h.opening request
  | spawn publisher =>
    refine h.setPublisher ((h publisher).spawn fun hnone n hn => ?_)
    simp only [System.undisturbed, hnone, Option.isSome_none, Bool.false_or, List.all_eq_true,
      List.mem_range, Option.isNone_iff_eq_none] at hundisturbed
    exact hundisturbed n hn
  | keep publisher n =>
    rw [System.next]
    dsimp only
    split
    · exact h.setPublisher ((h publisher).keep n)
    · exact h
  | work publisher n input => exact h.work fleet n input
  | forget publisher n => exact h.setPublisher ((h publisher).forget n)
  | crash publisher => exact h.setPublisher .fresh
  | drain publisher => exact h.setPublisher (h publisher).drain
  | abort publisher n =>
    refine h.setPublisher ((h publisher).abort fun hdrained hworker => ?_)
    simp only [System.undisturbed, hdrained, Bool.or_eq_true] at hundisturbed
    simpa [hworker] using hundisturbed
  | inspect publisher n fault =>
    exact h.setPublisher ((h publisher).inspect n fault fleet.scope)
  | release publisher n fault => exact h.release fleet n fault

omit h

def System.run (s : System) (actions : List SystemAction) : System :=
  actions.foldl (System.next fleet) s

/-! ### Stored under the fence of the call -/

variable {advances : List (ℕ × ℕ)}

/-- The revision that is to be sent has been stored under the fence of the claim, or will be. -/
def Phase.Brought (advances : List (ℕ × ℕ)) : Phase → Prop
  | .persisting plan _ record =>
    (record.publication.desiredRevision ≤ plan.snapshot.revision ∧ NeedsPersist plan record) ∨
      (record.publication.fence, plan.snapshot.revision) ∈ advances
  | .ready plan _ record => (record.publication.fence, plan.snapshot.revision) ∈ advances
  | .calling plan _ record _ => (record.publication.fence, plan.snapshot.revision) ∈ advances
  | _ => True

theorem Phase.Brought.mono {phase : Phase} {advances' : List (ℕ × ℕ)} (h : phase.Brought advances)
    (hsub : advances ⊆ advances') : phase.Brought advances' := by
  cases phase with
  | persisting => exact h.imp_right fun hmem => hsub hmem
  | ready => exact hsub h
  | calling => exact hsub h
  | _ => trivial

theorem Phase.brought_of_no_record {phase : Phase} (h : phase.record? = none) :
    phase.Brought advances := by
  cases phase <;> trivial

theorem subset_storedAdvance (target : Target) (worker : Worker) (input : WorkerInput)
    (row : Option DeliveryAttemptRow) : advances ⊆ storedAdvance target worker input row advances := by
  unfold storedAdvance
  split
  · split
    · split
      · exact List.Subset.refl _
      · exact List.subset_cons_self ..
      · exact List.Subset.refl _
    · exact List.Subset.refl _
  · exact List.Subset.refl _

section

variable {target : Target} {worker : Worker} {row : Option DeliveryAttemptRow}

/-- A claim leaves the revisions of the row, and a re-entry its fence too. -/
theorem claim_keeps {request : ClaimReplyPublicationLeaseRequest} {fault : StoreFault}
    (h : (storeCall fault (claimReplyPublicationLease request) row).2 = .ok (.acquired record)) :
    ∃ before : ReplyPublicationRecord, recordOf row = some before ∧
      record.publication.desiredRevision = before.publication.desiredRevision ∧
      record.publication.terminalRevision = before.publication.terminalRevision ∧
      ((before.publication.liveLease request.now).any (·.owner = request.owner) = true →
        record.publication.fence = before.publication.fence) := by
  obtain ⟨-, hupdate, -⟩ := claim_acquired h
  obtain ⟨before, after, rfl, hafter, hchanges⟩ := claim_cases hupdate
  cases some_row_injective hafter
  refine ⟨before, rfl, ?_⟩
  cases hchanges with
  | reenter active lease owner => exact ⟨rfl, rfl, fun _ => rfl⟩
  | epoch active hnone =>
    refine ⟨rfl, rfl, fun hlive => ?_⟩
    rw [hnone] at hlive
    exact nomatch hlive

/-- An advance that comes back has been stored. -/
theorem mem_storedAdvance {request : AdvanceReplyPublicationRequest} {fault : StoreFault}
    {now : Timestamp} (hrequest : target.pendingAdvance worker now = some request)
    (hok : (storeCall fault (advanceReplyPublication request) row).2 = .ok record) :
    (request.fence, request.desiredRevision) ∈
      storedAdvance target worker (.store fault now) row advances := by
  rw [storedAdvance, hrequest]
  dsimp only
  cases hresult : advanceReplyPublication request row with
  | error error =>
    rw [storeCall, hresult] at hok
    exact nomatch hok
  | ok update =>
    obtain ⟨before, rfl, -, -, rfl⟩ := advanceReplyPublication_eq_ok hresult
    rw [storeCall, hresult] at hok
    rw [PublicationCall.update, hresult]
    cases fault with
    | works => exact List.mem_cons_self
    | lost => exact nomatch hok
    | obscured => exact nomatch hok

theorem desiredRevision_eq_of_pendingAdvance {now : Timestamp} {plan : Plan} {generation : ℕ}
    {record : ReplyPublicationRecord} {request : AdvanceReplyPublicationRequest}
    (hphase : worker.phase = .persisting plan generation record)
    (h : target.pendingAdvance worker now = some request) :
    request.desiredRevision = max plan.snapshot.revision record.publication.desiredRevision := by
  rw [Target.pendingAdvance, hphase] at h
  dsimp only at h
  split at h
  · cases h
    rfl
  · exact nomatch h

theorem store_brought (h : worker.phase.Brought advances) (fault : StoreFault) (now : Timestamp)
    (hbrings : worker.phase.bringsRevision target.publisherId now row advances = true) :
    (worker.store target fault now row).2.phase.Brought
      (storedAdvance target worker (.store fault now) row advances) := by
  have hsub : advances ⊆ storedAdvance target worker (.store fault now) row advances :=
    subset_storedAdvance target worker (.store fault now) row
  have hfree {phase : Phase} (hnone : phase.fence? = none) :
      phase.Brought (storedAdvance target worker (.store fault now) row advances) :=
    Phase.brought_of_no_record (Phase.record?_of_fence?_none hnone)
  unfold Worker.store
  split
  · exact hfree (loaded_free _ _ _)
  · rename_i plan preparation hphase
    rw [hphase] at hbrings
    dsimp only
    unfold Worker.claimed
    split
    · rename_i record hclaim
      split
      · trivial
      split
      · obtain ⟨before, hbefore, hdesired, hterminal, hfence⟩ := claim_keeps hclaim
        simp only [Phase.bringsRevision, hbefore, Option.all_some, Bool.or_eq_true,
          decide_eq_true_eq, Bool.and_eq_true] at hbrings
        show (_ ∧ NeedsPersist plan record) ∨ _
        rw [NeedsPersist, hdesired, hterminal]
        refine hbrings.imp id fun hmine => hsub ?_
        rw [hfence hmine.1]
        exact hmine.2
      · trivial
    · trivial
    · trivial
    · trivial
  · dsimp only
    split <;> trivial
  · rename_i plan generation record hphase
    rw [hphase] at h
    split
    · rename_i request hrequest
      dsimp only
      unfold Worker.persisted
      split
      · rename_i stored hok
        obtain ⟨-, before, -, hfence, -, rfl⟩ := advance_stored hok
        show (before.publication.fence, plan.snapshot.revision) ∈ _
        have hcarried := pendingAdvance_fence hrequest
        rw [hphase] at hcarried
        have hepoch : before.publication.fence = record.publication.fence :=
          hfence.trans (Option.some.inj hcarried).symm
        rw [hepoch]
        rcases h with ⟨hdesired, -⟩ | hmem
        · have hstored : (request.fence, request.desiredRevision) ∈
              storedAdvance target worker (.store fault now) row advances :=
            mem_storedAdvance hrequest hok
          rw [desiredRevision_eq_of_pendingAdvance hphase hrequest, max_eq_left hdesired,
            ← Option.some.inj hcarried] at hstored
          exact hstored
        · exact hsub hmem
      · rw [Worker.goto]
        dsimp only
        split_ifs <;> trivial
    · rename_i hnone
      -- nothing is stored when the row has the revision already
      rw [Target.pendingAdvance, hphase] at hnone
      dsimp only at hnone
      split at hnone
      · exact nomatch hnone
      · rename_i hneeds
        exact hsub (h.resolve_left fun hpersist => hneeds hpersist.2)
  · rename_i plan record step hphase
    split
    · rename_i request hrequest
      rcases handled_cases target worker plan record step now
          (storeCall fault (advanceReplyPublication request) row).2 with hnone | ⟨-, hrecord⟩
      · exact hfree hnone
      · exact Phase.brought_of_no_record hrecord
    · rcases handled_cases target worker plan record step now (.error .backend) with
        hnone | ⟨-, hrecord⟩
      · exact hfree hnone
      · exact Phase.brought_of_no_record hrecord
  · trivial
  · exact h.mono hsub

theorem step_brought (h : worker.phase.Brought advances) (input : WorkerInput)
    (hbrings : ∀ fault now, input = .store fault now →
      worker.phase.bringsRevision target.publisherId now row advances = true) :
    (worker.step target input row).2.phase.Brought
      (storedAdvance target worker input row advances) := by
  cases input with
  | plan snapshot fault now =>
    rw [Worker.step]
    split
    · exact Phase.brought_of_no_record (Phase.record?_of_fence?_none (plan_free ‹_› _ _ _))
    · exact h
  | prepare channel materialized =>
    rw [Worker.step]
    split
    · exact Phase.brought_of_no_record (Phase.record?_of_fence?_none (prepared_free _ _))
    · exact h
  | store fault now => exact store_brought h fault now (hbrings fault now rfl)
  | call now =>
    rw [Worker.step]
    split
    · rename_i plan generation record hphase
      rw [hphase] at h
      rw [Worker.called]
      split
      · trivial
      · exact h
    · exact h
  | answer found =>
    rw [Worker.step]
    split
    · trivial
    · exact h

end

/-- Every worker is to send what has been stored under the fence of its claim. -/
def System.Brought (s : System) : Prop :=
  ∀ publisher n worker, s.worker? publisher n = some worker → worker.phase.Brought s.advances

variable {s : System}

theorem System.Brought.setPublisher (h : s.Brought) {publisher : PublisherId} {process : Publisher}
    {row' : Option DeliveryAttemptRow} {advances' : List (ℕ × ℕ)} (hsub : s.advances ⊆ advances')
    (hworkers : ∀ n worker, (process.targets n).worker = some worker →
      ((s.publisher publisher).targets n).worker = some worker ∨ worker.phase.Brought advances') :
    System.Brought { s.setPublisher publisher process with
      row := row'
      advances := advances' } := by
  intro other n worker hworker
  change ((Function.update s.publisher publisher process other).targets n).worker = _ at hworker
  by_cases hne : other = publisher
  · rw [hne, Function.update_self] at hworker
    rcases hworkers n worker hworker with hbefore | hbrought
    · exact (h publisher n worker hbefore).mono hsub
    · exact hbrought
  · rw [Function.update_of_ne hne] at hworker
    exact (h other n worker hworker).mono hsub

theorem System.Brought.next (h : s.Brought) {action : SystemAction}
    (hbrings : s.bringsRevision action = true) : (s.next fleet action).Brought := by
  have hset {publisher : PublisherId} {n : ℕ} {target : TargetState} {advances' : List (ℕ × ℕ)}
      (htarget : ∀ worker, target.worker = some worker →
        ((s.publisher publisher).targets n).worker = some worker ∨
          worker.phase.Brought advances') :
      ∀ m worker, (((s.publisher publisher).setTarget n target).targets m).worker = some worker →
        ((s.publisher publisher).targets m).worker = some worker ∨
          worker.phase.Brought advances' := by
    intro m worker hworker
    by_cases hm : m = n
    · rw [hm, Publisher.setTarget_self] at hworker
      exact hm ▸ htarget worker hworker
    · rw [Publisher.setTarget_of_ne _ _ hm] at hworker
      exact .inl hworker
  have hsame : s.advances ⊆ s.advances := List.Subset.refl _
  cases action with
  | tick clock => exact h
  | opening request => exact h
  | spawn publisher =>
    refine h.setPublisher hsame ?_
    rw [Publisher.spawn]
    split
    · exact fun _ _ => .inl
    · refine hset fun worker hworker => .inr ?_
      cases hworker
      trivial
  | keep publisher n =>
    rw [System.next]
    dsimp only
    split
    · exact h.setPublisher hsame (hset fun _ => .inl)
    · exact h
  | work publisher n input =>
    rw [System.next]
    dsimp only
    split
    · rename_i worker hworker
      refine h.setPublisher (subset_storedAdvance _ worker _ _) (hset fun after hafter => .inr ?_)
      cases hafter
      refine step_brought (h publisher n worker hworker) _ fun fault now hinput => ?_
      cases input with
      | store fault' now' =>
        cases hinput
        have hall := hbrings
        simp only [System.bringsRevision, System.worker?, hworker, Option.all_some] at hall
        exact hall
      | _ => cases hinput
    · exact h
  | forget publisher n =>
    refine h.setPublisher hsame ?_
    rw [Publisher.forget]
    split
    · exact hset fun _ hnone => nomatch hnone
    · exact fun _ _ => .inl
  | crash publisher => exact h.setPublisher hsame fun _ _ hnone => nomatch hnone
  | drain publisher =>
    refine h.setPublisher hsame ?_
    rw [Publisher.drain]
    split
    · exact hset fun _ => .inl
    · exact fun _ _ => .inl
  | abort publisher n =>
    refine h.setPublisher hsame ?_
    unfold Publisher.abort
    dsimp only
    split
    · split
      · split
        · exact fun _ _ => .inl
        · exact hset fun _ hnone => nomatch hnone
      · exact hset fun _ => .inl
    · exact fun _ _ => .inl
  | inspect publisher n fault =>
    refine h.setPublisher hsame ?_
    unfold Publisher.inspect
    dsimp only
    split
    · split
      · split <;> exact hset fun _ => .inl
      · exact hset fun _ => .inl
    · exact fun _ _ => .inl
  | release publisher n fault =>
    rw [System.next]
    dsimp only
    split
    · exact h.setPublisher hsame (hset fun _ => .inl)
    · exact h

/-! ### The result -/

/-- A call of the sink that is in progress or about to start. -/
def System.Calls (s : System) (publisher : PublisherId) (n : ℕ) (plan : Plan)
    (record : ReplyPublicationRecord) : Prop :=
  s.nextCall fleet publisher n = some (plan, record) ∨ s.Calling publisher n plan record

variable {fleet : Fleet} {n : ℕ} {plan : Plan}

/-- The worker of a call, and what is left of the lease it has read. -/
theorem System.Calls.caller (h : s.Calls fleet publisher n plan record) :
    ∃ worker, s.worker? publisher n = some worker ∧ worker.phase.record? = some record ∧
      (worker.phase.InLease →
        ∀ lease, record.publication.lease = some lease → s.clock < lease.expiresAt) ∧
      (worker.phase.Brought s.advances →
        (record.publication.fence, plan.snapshot.revision) ∈ s.advances) := by
  rcases h with hnext | ⟨worker, generation, deadline, hworker, hphase, hclock⟩
  · rw [System.nextCall] at hnext
    split at hnext
    · rename_i planned generation held hmap
      obtain ⟨worker, hworker, hphase⟩ := Option.map_eq_some_iff.1 hmap
      split at hnext
      · rename_i hremaining
        cases hnext
        refine ⟨worker, hworker, by rw [hphase]; rfl, ?_⟩
        rw [hphase]
        refine ⟨fun _ lease hlease => ?_, id⟩
        rw [Target.remaining, hlease] at hremaining
        exact sub_pos.1 hremaining
      · exact nomatch hnext
    · exact nomatch hnext
  · refine ⟨worker, hworker, by rw [hphase]; rfl, ?_⟩
    rw [hphase]
    exact ⟨fun hin lease hlease => hclock.trans_le (hin lease hlease), id⟩

/-- A call is made in the epoch of the row, and its process holds the live lease. -/
theorem System.Inv.holds (h : s.Inv) (hcalls : s.Calls fleet publisher n plan record) :
    HoldsLease s.row publisher s.clock ∧ fenceOf s.row = record.publication.fence := by
  obtain ⟨worker, hworker, hrecord, hlive, -⟩ := hcalls.caller
  have hviews := (h publisher).views n
  rw [TargetState.process_of_worker hworker] at hviews
  obtain ⟨expiresAt, hlease, howned⟩ := hviews.covered record hrecord
  have hclock := hlive ((h publisher).inLease n worker hworker) _ hlease
  obtain ⟨current, lease, hrow, hfence, hcurrent, howner, hexpires⟩ := howned hclock
  refine ⟨⟨current, lease, hrow, liveLease_eq_some.2 ⟨hcurrent, hclock.trans_le hexpires⟩, howner⟩,
    ?_⟩
  rw [hrow]
  exact hfence

def helloScope : TurnScope where
  tenantId := ⟨"acme"⟩
  agentId := none
  projectId := none
  threadId := ⟨"thread-1"⟩
  threadOwner := .actorFallback

def helloAttempt : OutboundDeliveryAttempt where
  deliveryId := ⟨7⟩
  scope := helloScope
  candidate :=
    { tenantId := ⟨"acme"⟩
      agentId := none
      projectId := none
      threadId := ⟨"thread-1"⟩
      turnRunId := some ⟨3⟩
      target := ⟨"slack:C1"⟩
      kind := .finalReply
      projectionRef := ⟨"reply"⟩
      requiresReplyTargetRevalidation := true }
  status := .prepared
  attemptedAt := 0
  failureKind := none

def helloOpening : OpenReplyPublicationRequest where
  attempt := helloAttempt
  target := ⟨⟨3⟩, ⟨"slack"⟩⟩
  descriptor := some ⟨⟨"slack"⟩, ⟨"alice"⟩, ⟨"slack:C1"⟩, .stream⟩
  now := 0

def helloFleet : Fleet where
  scope := helloScope
  transport := .stream
  settings := fun _ => ⟨60, 1, 3, 20, 30⟩

def helloSnapshot (revision : ℕ) : ReplySnapshot :=
  ⟨revision, { ReplyDocument.empty with answerText := "hello" }, false⟩

/-- The pass of a worker up to its claim. -/
def untilClaim (publisher : PublisherId) (n revision : ℕ) : List SystemAction :=
  let work := SystemAction.work publisher n
  [work (.plan (some (helloSnapshot revision)) .works 0), work (.prepare (some ⟨1, true⟩) .files),
    work (.store .works 0)]

/-- The claim, the store of the desired revision and the call. -/
def claimAndCall (publisher : PublisherId) (n : ℕ) : List SystemAction :=
  let work := SystemAction.work publisher n
  [work (.store .works 0), work (.store .works 0), work (.call 0)]

/-- A process calls the sink. -/
def firstCall : List SystemAction :=
  [.opening helloOpening, .spawn ⟨"a"⟩, .keep ⟨"a"⟩ 0] ++ untilClaim ⟨"a"⟩ 0 1 ++
    claimAndCall ⟨"a"⟩ 0

/-- It is shut down and hands its lease back; another one goes on with the next revision. -/
def handedOver : List SystemAction :=
  firstCall ++ [.drain ⟨"a"⟩, .abort ⟨"a"⟩ 0, .inspect ⟨"a"⟩ 0 .works, .release ⟨"a"⟩ 0 .works,
    .spawn ⟨"b"⟩, .keep ⟨"b"⟩ 0] ++ untilClaim ⟨"b"⟩ 0 2 ++ claimAndCall ⟨"b"⟩ 0

/-- The record of the call that a worker is in, and the revision that it sends. -/
def System.calling? (s : System) (publisher : PublisherId) (n : ℕ) : Option (ℕ × ℕ) :=
  match (s.worker? publisher n).map Worker.phase with
  | some (.calling plan _ record deadline) =>
    if s.clock < deadline then some (record.publication.fence, plan.snapshot.revision) else none
  | _ => none

theorem System.calling_of_calling? {s : System} {publisher : PublisherId} {n : ℕ} {sent : ℕ × ℕ}
    (h : s.calling? publisher n = some sent) : ∃ plan record, s.Calling publisher n plan record ∧
      (record.publication.fence, plan.snapshot.revision) = sent := by
  rw [System.calling?] at h
  split at h
  · rename_i plan generation record deadline hmap
    obtain ⟨worker, hworker, hphase⟩ := Option.map_eq_some_iff.1 hmap
    split at h
    · exact ⟨plan, record, ⟨worker, generation, deadline, hworker, hphase, ‹_›⟩, Option.some.inj h⟩
    · exact nomatch h
  · exact nomatch h

/-- While the shutdown waits between the map and the worker, a commit of the run starts a second
worker, which takes the lease of its process again and calls the sink beside the first one. -/
def besideTheFirst : List SystemAction :=
  firstCall ++ [.drain ⟨"a"⟩, .spawn ⟨"a"⟩, .keep ⟨"a"⟩ 1] ++ untilClaim ⟨"a"⟩ 1 2 ++
    claimAndCall ⟨"a"⟩ 1

/-- A process plans for the first revision and is then slow; another one takes the row, stores the
second revision and crashes; its lease runs out and the first process claims the row and calls. -/
def overtaken : List SystemAction :=
  let slow := SystemAction.work ⟨"a"⟩ 0
  [.opening helloOpening, .spawn ⟨"a"⟩, .spawn ⟨"b"⟩] ++ untilClaim ⟨"a"⟩ 0 1 ++
    untilClaim ⟨"b"⟩ 0 2 ++ claimAndCall ⟨"b"⟩ 0 ++
    [.crash ⟨"b"⟩, .tick 100, slow (.store .works 100), slow (.store .works 100), slow (.call 100)]

end Ironclaw.Outbound
