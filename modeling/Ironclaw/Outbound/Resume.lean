import Ironclaw.Outbound.Exclusive

/-! # Resuming a publication

A process that has stopped leaves the row of a publication behind, at any point of its worker. A
fresh process finds the open rows (`resume_records`), starts a worker for each and builds the
terminal revision of the run from the durable facts (`fetch_and_apply_terminal_facts`): its number
goes above all revisions that the rows of the run have seen.

The worker then runs step by step, in a world that works: the run is terminal, the store answers, the
channel is there, the sink answers with applied. `Stage` is where it can be when no terminal revision
is stored yet, `Phase.rank` what is left to do. With a stored terminal revision it never gets there:
the revision of the fresh projection is above it, and the store refuses to publish it. -/

namespace Ironclaw.Outbound

/-! ### The projection of a fresh process -/

inductive TurnStatus where
  | queued | running | blockedApproval | blockedAuth | blockedResource | blockedDependentRun
  | blockedExternalTool | cancelRequested | cancelled | completed | failed | recoveryRequired

def TurnStatus.isTerminal : TurnStatus → Bool
  | .cancelled => true
  | .completed => true
  | .failed => true
  | .recoveryRequired => true
  | _ => false

/-- The durable facts of a run. The texts are sanitized and within their bounds, and a blank summary
is left out. -/
structure TerminalReplyFacts where
  status : TurnStatus
  answer : Option String
  attachments : List String
  failureSummary : Option String

structure RunReply where
  document : ReplyDocument
  revision : ℕ
  terminalPending : Bool

def RunReply.new : RunReply := ⟨.empty, 0, false⟩

def RunReply.snapshot (run : RunReply) : ReplySnapshot :=
  ⟨run.revision, run.document, run.terminalPending⟩

/-- The document, and whether it has changed. -/
def ReplyDocument.clearAttention (document : ReplyDocument) : ReplyDocument × Bool :=
  if document.isTerminal = true ∨ document.attention = none then (document, false)
  else ({ document with attention := none }, true)

def replyMaxAttachments : ℕ := 16

def ReplyDocument.finalizeAnswer (document : ReplyDocument) (text : String)
    (attachments : List String) : ReplyDocument :=
  { document with
    answerText := text
    answerFinalized := true
    answerTruncated := false
    attachments := attachments.take replyMaxAttachments }

def ReplyDocument.settle (document : ReplyDocument) (outcome : ReplyOutcome) :
    ReplyDocument × Bool :=
  if document.isTerminal then (document, false)
  else ({ document with
    outcome := some outcome
    attention := none }, true)

def runFailedMessage : String := "That run didn't finish — open the Ironclaw web app for details."

/-- The document with the facts of the run, and whether it has changed. -/
def foldTerminalFacts (document : ReplyDocument) (facts : TerminalReplyFacts) :
    ReplyDocument × Bool :=
  let cleared := document.clearAttention
  match facts.status with
  | .completed =>
    let canonical := facts.answer.getD ""
    let shown := cleared.1.answerText
    -- finalize in place when the text that is shown ends with the canonical one
    let text :=
      if cleared.1.answerTruncated = false ∧ canonical.toList <:+ shown.toList then shown
      else canonical
    ((cleared.1.finalizeAnswer text facts.attachments).settle .completed |>.1, true)
  | .failed | .recoveryRequired =>
    let failed := cleared.1.settle (.failed (facts.failureSummary.getD runFailedMessage))
    (failed.1, cleared.2 || failed.2)
  | .cancelled =>
    let cancelled := cleared.1.settle .cancelled
    (cancelled.1, cleared.2 || cancelled.2)
  | _ => (document, false)

def applyTerminalFacts (run : Option RunReply) (facts : TerminalReplyFacts) : RunReply :=
  let run := run.getD .new
  if run.document.isTerminal then { run with terminalPending := false }
  else
    let folded := foldTerminalFacts run.document facts
    { document := folded.1
      revision := if folded.2 then run.revision + 1 else run.revision
      terminalPending := if folded.1.isTerminal then false else run.terminalPending }

def raiseRevisionFloor (run : Option RunReply) (floor : ℕ) : RunReply :=
  { run.getD .new with
    revision := max (run.getD .new).revision floor }

/-- The newest revision that the targets of the run have seen. -/
def revisionFloor (records : List ReplyPublicationRecord) : ℕ :=
  ((records.map fun record =>
    max record.publication.desiredRevision record.publication.publishedRevision).max?).getD 0

/-! ### The resumed worker -/

/-- What the worker of a fresh process meets, step by step. -/
structure Resume where
  target : Target
  facts : TerminalReplyFacts
  /-- The rows of the other targets of the run. -/
  others : List ReplyPublicationRecord
  /-- The step at which the floor of the revisions is raised. -/
  raiseAt : ℕ
  /-- The step at which the facts are applied. -/
  factsAt : ℕ
  clock : ℕ → Timestamp
  channel : ℕ → ResolvedChannelDelivery
  report : ℕ → ReplySinkReport

def Resume.floor (env : Resume) (record : ReplyPublicationRecord) : ℕ :=
  revisionFloor (record :: env.others)

/-- The projection of the run at a step. It starts empty; raising the floor puts an entry with an
empty document there. -/
def Resume.projection (env : Resume) (record : ReplyPublicationRecord) (n : ℕ) : Option RunReply :=
  let raised :=
    if env.raiseAt ≤ n ∧ 0 < env.floor record then
      some (raiseRevisionFloor none (env.floor record))
    else none
  if env.factsAt ≤ n then some (applyTerminalFacts raised env.facts) else raised

/-- What the worker is given at a step: what it waits for. -/
def Resume.input (env : Resume) (record : ReplyPublicationRecord) (worker : Worker) (n : ℕ) :
    WorkerInput :=
  match worker.phase with
  | .planning => .plan ((env.projection record n).map RunReply.snapshot) .works (env.clock n)
  | .preparing _ => .prepare (some (env.channel n)) .files
  | .ready _ _ _ => .call (env.clock n)
  | .calling _ _ _ _ => .answer (.report (env.report n))
  | _ => .store .works (env.clock n)

structure Resumed where
  row : Option DeliveryAttemptRow
  worker : Worker
  /-- How often the sink has been called. -/
  calls : ℕ

def callsMade : Phase → Phase → ℕ
  | .ready _ _ _, .calling _ _ _ _ => 1
  | _, _ => 0

def Resumed.next (env : Resume) (record : ReplyPublicationRecord) (n : ℕ) (s : Resumed) : Resumed :=
  let after := s.worker.step env.target (env.input record s.worker n) s.row
  ⟨after.1, after.2, s.calls + callsMade s.worker.phase after.2.phase⟩

/-- The worker of the fresh process, from the row that was left behind. -/
def Resume.state (env : Resume) (record : ReplyPublicationRecord) : ℕ → Resumed
  | 0 => ⟨some record.row, .spawned, 0⟩
  | n + 1 => (env.state record n).next env record n

/-- The row is one that a worker is started for. -/
structure Resume.Resumes (env : Resume) (record : ReplyPublicationRecord) : Prop where
  active : record.publication.status = .active
  scope : record.attempt.scope = env.target.scope
  transport : ∃ descriptor ∈ record.publication.descriptor,
    descriptor.transport = env.target.transport

/-- The run is terminal, the store and the channel work, the sink answers with applied; a lease that
was left behind runs out at some time, and a worker comes from the claim to the call within the time
of its own lease, whose length and end can be represented. -/
structure Resume.Works (env : Resume) (record : ReplyPublicationRecord) : Prop where
  terminal : env.facts.status.isTerminal = true
  raised_first : env.raiseAt ≤ env.factsAt
  clock_mono : ∀ m n, m ≤ n → env.clock m ≤ env.clock n
  clock_le : ∀ n, env.clock n + env.target.settings.leaseTtl ≤ maxUtc
  ttl_pos : 0 < env.target.settings.leaseTtl
  ttl_le : env.target.settings.leaseTtl ≤ maxTtl
  in_time : ∀ n plan preparation,
    (env.state record n).worker.phase = .claiming plan preparation →
    env.clock (n + 2) < env.clock n + env.target.settings.leaseTtl
  expires : ∀ lease ∈ record.publication.lease, ∃ n, lease.expiresAt ≤ env.clock n
  fence_lt : record.publication.fence + 1 < 2 ^ 64
  binds : ∀ n, (env.channel n).bindsReply = true
  applied : ∀ n, (env.report n).outcome = .applied

/-- The empty document that stands in the projection between the floor and the facts is not sent:
there is no such entry, no step is taken in between, the transport waits for the terminal revision,
or the row is not behind it. -/
def Resume.Quiet (env : Resume) (record : ReplyPublicationRecord) : Prop :=
  env.floor record = 0 ∨ env.raiseAt = env.factsAt ∨ env.target.transport = .message ∨
    (env.floor record ≤ record.publication.publishedRevision ∧
      0 < env.target.settings.heartbeatInterval)

def DeliveredRow (row : Option DeliveryAttemptRow) : Prop :=
  ∃ record : ReplyPublicationRecord, row = some record.row ∧
    record.publication.status = .settled .delivered ∧ record.attempt.status = .delivered

/-! ### The terminal revision -/

section

variable {env : Resume} {record : ReplyPublicationRecord}

/-- The document that the facts make of an empty one. -/
def Resume.document (env : Resume) : ReplyDocument := (foldTerminalFacts .empty env.facts).1

/-- What the worker plans for once the facts have been applied. -/
def Resume.plan (env : Resume) (record : ReplyPublicationRecord) : Plan where
  snapshot := ⟨env.floor record + 1, env.document, false⟩
  publishedRevision := record.publication.publishedRevision
  point := .terminal

theorem foldTerminalFacts_empty {facts : TerminalReplyFacts} (h : facts.status.isTerminal = true) :
    (foldTerminalFacts .empty facts).1.isTerminal = true ∧
      (foldTerminalFacts .empty facts).2 = true := by
  cases facts with
  | mk status answer attachments failureSummary =>
    cases status with
    | completed => exact ⟨rfl, rfl⟩
    | failed => exact ⟨rfl, rfl⟩
    | recoveryRequired => exact ⟨rfl, rfl⟩
    | cancelled => exact ⟨rfl, rfl⟩
    | _ => exact nomatch h

theorem applyTerminalFacts_of_empty {run : Option RunReply} {facts : TerminalReplyFacts}
    (h : facts.status.isTerminal = true) (hrun : (run.getD .new).document = .empty) :
    applyTerminalFacts run facts =
      ⟨(foldTerminalFacts .empty facts).1, (run.getD .new).revision + 1, false⟩ := by
  obtain ⟨hterminal, hchanged⟩ := foldTerminalFacts_empty h
  rw [applyTerminalFacts]
  dsimp only
  rw [hrun, if_neg (by decide), hterminal, hchanged]
  rfl

theorem Resume.projection_of_facts (hworks : env.Works record) {n : ℕ} (h : env.factsAt ≤ n) :
    (env.projection record n).map RunReply.snapshot = some (env.plan record).snapshot := by
  have hraise := hworks.raised_first.trans h
  rw [Resume.projection, if_pos h, Option.map_some]
  by_cases hfloor : 0 < env.floor record
  · rw [if_pos ⟨hraise, hfloor⟩, applyTerminalFacts_of_empty hworks.terminal rfl]
    have hrevision : ((some (raiseRevisionFloor none (env.floor record))).getD .new).revision =
        env.floor record := max_eq_right (Nat.zero_le _)
    rw [hrevision]
    rfl
  · rw [if_neg fun hraised => hfloor hraised.2, applyTerminalFacts_of_empty hworks.terminal rfl]
    have hzero : env.floor record = 0 := Nat.eq_zero_of_not_pos hfloor
    rw [Resume.plan, hzero]
    rfl

theorem Resume.projection_before_facts {n : ℕ} (h : ¬ env.factsAt ≤ n) :
    (env.projection record n).map RunReply.snapshot = none ∨
      (env.raiseAt ≤ n ∧ 0 < env.floor record ∧
        (env.projection record n).map RunReply.snapshot =
          some ⟨env.floor record, .empty, false⟩) := by
  rw [Resume.projection, if_neg h]
  by_cases hraised : env.raiseAt ≤ n ∧ 0 < env.floor record
  · refine .inr ⟨hraised.1, hraised.2, ?_⟩
    rw [if_pos hraised]
    have hrevision : (raiseRevisionFloor none (env.floor record)).revision = env.floor record :=
      max_eq_right (Nat.zero_le _)
    rw [Option.map_some, RunReply.snapshot, hrevision]
    rfl
  · rw [if_neg hraised]
    exact .inl rfl

theorem le_revisionFloor {records : List ReplyPublicationRecord} {record : ReplyPublicationRecord}
    (h : record ∈ records) :
    record.publication.desiredRevision ≤ revisionFloor records ∧
      record.publication.publishedRevision ≤ revisionFloor records := by
  have hmem := List.mem_map_of_mem
    (f := fun record => max record.publication.desiredRevision record.publication.publishedRevision) h
  have hle := List.le_max?_getD_of_mem hmem (k := 0)
  exact ⟨(le_max_left _ _).trans hle, (le_max_right _ _).trans hle⟩

theorem Resume.desired_le_floor : record.publication.desiredRevision ≤ env.floor record :=
  (le_revisionFloor List.mem_cons_self).1

theorem Resume.published_le_floor : record.publication.publishedRevision ≤ env.floor record :=
  (le_revisionFloor List.mem_cons_self).2

end

/-! ### Where the worker can be -/

/-- What is left to do of a pass. -/
def Phase.rank : Phase → ℕ
  | .planning => 9
  | .preparing _ => 8
  | .loading _ _ => 7
  | .claiming _ _ => 6
  | .persisting _ _ _ => 5
  | .ready _ _ _ => 4
  | .calling _ _ _ _ => 3
  | .handling _ _ _ => 2
  | .failingClosed => 2
  | .settling _ _ => 1
  | .exited => 0

/-- What the worker remembers of the row, before its first call. -/
structure Resume.Mirrors (record : ReplyPublicationRecord) (worker : Worker) : Prop where
  revision : ∀ revision ∈ worker.published.revision, revision = record.publication.publishedRevision
  unsent : worker.published.publishedAt = none

/-- The record of the worker's own epoch, claimed at a step. -/
structure Resume.Holds (env : Resume) (record held : ReplyPublicationRecord) (claimedAt : ℕ) :
    Prop where
  scope : held.attempt.scope = env.target.scope
  active : held.publication.status = .active
  published : held.publication.publishedRevision = record.publication.publishedRevision
  lease : ∃ lease, held.publication.lease = some lease ∧
    env.clock claimedAt + env.target.settings.leaseTtl ≤ lease.expiresAt

/-- The terminal revision is stored. -/
structure Resume.Sealed (env : Resume) (record held : ReplyPublicationRecord) : Prop where
  desired : held.publication.desiredRevision = env.floor record + 1
  terminal : held.publication.terminalRevision = some (env.floor record + 1)

inductive Resume.Stage (env : Resume) (record : ReplyPublicationRecord) : ℕ → Resumed → Prop
  | waiting {n : ℕ} {worker : Worker} (phase : worker.phase = .planning)
      (mirrors : Resume.Mirrors record worker) : Stage env record n ⟨some record.row, worker, 0⟩
  | preparing {n : ℕ} {worker : Worker} (phase : worker.phase = .preparing (env.plan record))
      (mirrors : Resume.Mirrors record worker) : Stage env record n ⟨some record.row, worker, 0⟩
  | loading {n : ℕ} {worker : Worker} {generation : ℕ}
      (phase : worker.phase = .loading (env.plan record) (.ok generation))
      (mirrors : Resume.Mirrors record worker) : Stage env record n ⟨some record.row, worker, 0⟩
  | claiming {n : ℕ} {worker : Worker} {generation : ℕ}
      (phase : worker.phase = .claiming (env.plan record) (.ok generation))
      (mirrors : Resume.Mirrors record worker) : Stage env record n ⟨some record.row, worker, 0⟩
  | persisting {n : ℕ} {worker : Worker} {generation : ℕ} {held : ReplyPublicationRecord}
      (phase : worker.phase = .persisting (env.plan record) generation held)
      (holds : env.Holds record held n)
      (in_time : env.clock (n + 2) < env.clock n + env.target.settings.leaseTtl)
      (desired_le : held.publication.desiredRevision ≤ env.floor record)
      (unsealed : held.publication.terminalRevision = none) :
      Stage env record (n + 1) ⟨some held.row, worker, 0⟩
  | ready {n : ℕ} {worker : Worker} {generation : ℕ} {held : ReplyPublicationRecord}
      (phase : worker.phase = .ready (env.plan record) generation held)
      (holds : env.Holds record held n)
      (in_time : env.clock (n + 2) < env.clock n + env.target.settings.leaseTtl)
      (done : env.Sealed record held) : Stage env record (n + 2) ⟨some held.row, worker, 0⟩
  | calling {n m : ℕ} {worker : Worker} {generation : ℕ} {held : ReplyPublicationRecord}
      {deadline : Timestamp}
      (phase : worker.phase = .calling (env.plan record) generation held deadline)
      (holds : env.Holds record held m) (done : env.Sealed record held) :
      Stage env record n ⟨some held.row, worker, 1⟩
  | handling {n m : ℕ} {worker : Worker} {report : ReplySinkReport} {generation : ℕ}
      {held : ReplyPublicationRecord}
      (phase : worker.phase = .handling (env.plan record) held (.applied report generation))
      (holds : env.Holds record held m) (done : env.Sealed record held) :
      Stage env record n ⟨some held.row, worker, 1⟩
  | settling {n : ℕ} {worker : Worker} {held : ReplyPublicationRecord}
      (phase : worker.phase = .settling held.publication.fence .delivered)
      (scope : held.attempt.scope = env.target.scope) (active : held.publication.status = .active)
      (applied : held.publication.terminalApplied) : Stage env record n ⟨some held.row, worker, 1⟩
  | exited {n : ℕ} {worker : Worker} {row : Option DeliveryAttemptRow}
      (phase : worker.phase = .exited) (delivered : DeliveredRow row) :
      Stage env record n ⟨row, worker, 1⟩

section

variable {env : Resume} {record : ReplyPublicationRecord} {worker : Worker}
  {row : Option DeliveryAttemptRow} {n calls : ℕ}

/-! ### Planning -/

theorem next_of_planning (h : worker.phase = .planning) :
    Resumed.next env record n ⟨row, worker, calls⟩ =
      ⟨row, worker.plan env.target ((env.projection record n).map RunReply.snapshot) .works
        (env.clock n) row, calls⟩ := by
  simp only [Resumed.next, Resume.input, Worker.step, h]
  rfl

theorem planAgainst_of_terminal {target : Target} {snapshot : ReplySnapshot}
    {publishedRevision : ℕ} (now : Timestamp) (hterminal : snapshot.document.isTerminal = true)
    (hbehind : publishedRevision < snapshot.revision) :
    (worker.planAgainst target snapshot publishedRevision now).phase =
        .preparing ⟨snapshot, publishedRevision, .terminal⟩ ∧
      (worker.planAgainst target snapshot publishedRevision now).published = worker.published := by
  have hpoint : ∀ published, reconcilePoint snapshot publishedRevision published = .terminal :=
    fun published => if_pos hterminal
  have hreconciles : ¬ target.transport.reconcilesAt .terminal = false := by
    cases target.transport <;> decide
  unfold Worker.planAgainst
  dsimp only
  rw [if_neg fun h => h.1 hbehind, if_neg fun h => h.1 hbehind, if_pos hbehind, hpoint,
    if_neg hreconciles, if_neg fun h => nomatch h.1]
  refine ⟨rfl, ?_⟩
  show (ite _ _ worker : Worker).published = worker.published
  split <;> rfl

/-- Nothing is sent of the empty document. -/
theorem planAgainst_of_quiet {target : Target} {floor publishedRevision : ℕ} (now : Timestamp)
    (hunsent : worker.published.publishedAt = none)
    (hquiet : target.transport = .message ∨
      (floor ≤ publishedRevision ∧ 0 < target.settings.heartbeatInterval)) :
    (worker.planAgainst target ⟨floor, .empty, false⟩ publishedRevision now).phase = .planning ∧
      (worker.planAgainst target ⟨floor, .empty, false⟩ publishedRevision now).published =
        worker.published := by
  unfold Worker.planAgainst
  dsimp only
  split
  · exact ⟨rfl, rfl⟩
  rename_i hpass
  split
  · exact ⟨rfl, rfl⟩
  rename_i hidle
  rcases hquiet with hmessage | ⟨hle, hbeat⟩
  · have hbehind : publishedRevision < floor := by
      by_contra hnot
      refine hpass ⟨hnot, fun hheart => ?_⟩
      rw [hmessage] at hheart
      exact nomatch hheart.2.2
    have hnever : ∀ published, target.transport.reconcilesAt
        (reconcilePoint ⟨floor, .empty, false⟩ publishedRevision published) = false := by
      intro published
      have hopen : ¬ ReplyDocument.empty.isTerminal = true := by decide
      rw [hmessage, reconcilePoint, if_neg hopen]
      split_ifs <;> rfl
    rw [if_pos hbehind, if_pos (hnever _)]
    refine ⟨rfl, ?_⟩
    show (ite _ _ worker : Worker).published = worker.published
    split <;> rfl
  · -- a worker that has sent nothing yet has not been idle
    refine absurd ⟨not_lt.2 hle, ?_⟩ hidle
    rw [Published.idleFor, hunsent]
    exact Int.natCast_pos.2 hbeat

theorem Resume.Resumes.load (hresumes : env.Resumes record) :
    loadReplyPublication env.target.scope (some record.row) = some record := by
  have hmatches : scopeMatches record.row.attempt.scope env.target.scope := by
    rw [← hresumes.scope]
    exact ⟨rfl, rfl, rfl, rfl⟩
  rw [loadReplyPublication, if_pos hmatches]
  rfl

/-- The first pass takes the mirror from the row. -/
theorem Resume.Mirrors.planned (hresumes : env.Resumes record)
    (hmirrors : Resume.Mirrors record worker) (snapshot : ReplySnapshot)
    (hpending : snapshot.terminalPending = false) (now : Timestamp) :
    ∃ mirror : Worker, Resume.Mirrors record mirror ∧
      worker.plan env.target (some snapshot) .works now (some record.row) =
        mirror.planAgainst env.target snapshot record.publication.publishedRevision now := by
  rw [Worker.plan]
  rw [if_neg fun h => by rw [hpending] at h; exact nomatch h.1]
  cases hrevision : worker.published.revision with
  | some revision =>
    cases hmirrors.revision revision hrevision
    exact ⟨worker, hmirrors, rfl⟩
  | none =>
    dsimp only
    rw [if_neg (not_not.2 rfl), hresumes.load]
    dsimp only
    rw [if_neg (not_not.2 hresumes.active)]
    exact ⟨worker.replan record.publication.publishedRevision,
      ⟨fun revision h => (Option.some.inj h).symm, hmirrors.unsent⟩, rfl⟩

theorem Resume.Mirrors.congr {worker' : Worker} (h : Resume.Mirrors record worker)
    (hpublished : worker'.published = worker.published) : Resume.Mirrors record worker' := by
  refine ⟨?_, ?_⟩
  · rw [hpublished]
    exact h.revision
  · rw [hpublished]
    exact h.unsent

/-- Before the facts the worker waits; with them it prepares. -/
theorem stage_of_planning (hresumes : env.Resumes record) (hworks : env.Works record)
    (hquiet : env.Quiet record) (h : worker.phase = .planning)
    (hmirrors : Resume.Mirrors record worker) :
    env.Stage record (n + 1) (Resumed.next env record n ⟨some record.row, worker, 0⟩) ∧
      (env.factsAt ≤ n →
        (Resumed.next env record n ⟨some record.row, worker, 0⟩).worker.phase.rank < 9) := by
  rw [next_of_planning h]
  by_cases hfacts : env.factsAt ≤ n
  · rw [Resume.projection_of_facts hworks hfacts]
    obtain ⟨mirror, hmirror, hplan⟩ :=
      hmirrors.planned hresumes (env.plan record).snapshot rfl (env.clock n)
    have hbehind : record.publication.publishedRevision < (env.plan record).snapshot.revision :=
      Nat.lt_succ_of_le Resume.published_le_floor
    obtain ⟨hphase, hpublished⟩ := @planAgainst_of_terminal mirror env.target _ _ (env.clock n)
      (foldTerminalFacts_empty hworks.terminal).1 hbehind
    rw [hplan]
    refine ⟨.preparing hphase (hmirror.congr hpublished), fun _ => ?_⟩
    show Phase.rank _ < 9
    rw [hphase]
    exact Nat.lt_succ_self 8
  · refine ⟨?_, fun hle => absurd hle hfacts⟩
    rcases Resume.projection_before_facts hfacts with hnone | ⟨hraised, hfloor, hempty⟩
    · rw [hnone]
      exact .waiting h hmirrors
    · rw [hempty]
      obtain ⟨mirror, hmirror, hplan⟩ :=
        hmirrors.planned hresumes ⟨env.floor record, .empty, false⟩ rfl (env.clock n)
      have hsilent : env.target.transport = .message ∨
          (env.floor record ≤ record.publication.publishedRevision ∧
            0 < env.target.settings.heartbeatInterval) := by
        rcases hquiet with hzero | hsame | hsilent
        · exact absurd hzero (Nat.ne_of_gt hfloor)
        · exact absurd (hsame ▸ hraised) hfacts
        · exact hsilent
      obtain ⟨hphase, hpublished⟩ := planAgainst_of_quiet (env.clock n) hmirror.unsent hsilent
      rw [hplan]
      exact .waiting hphase (hmirror.congr hpublished)

/-! ### Preparing, reading and claiming -/

variable {plan : Plan}

theorem next_of_preparing (h : worker.phase = .preparing plan) :
    Resumed.next env record n ⟨row, worker, calls⟩ =
      ⟨row, worker.prepared env.target plan (prepare (some (env.channel n)) .files plan), calls⟩ := by
  simp only [Resumed.next, Resume.input, Worker.step, h]
  rfl

theorem prepare_of_binds {channel : ResolvedChannelDelivery} (h : channel.bindsReply = true)
    (plan : Plan) : prepare (some channel) .files plan = .ok channel.generation := by
  rw [prepare, if_neg (by simp [h])]
  split <;> rfl

theorem next_of_loading {preparation : Except Step ℕ}
    (h : worker.phase = .loading plan preparation) :
    Resumed.next env record n ⟨row, worker, calls⟩ =
      ⟨row, worker.loaded env.target plan preparation .works row, calls⟩ := by
  simp only [Resumed.next, Resume.input, Worker.step, Worker.store, h]
  rfl

theorem loaded_of_resumes (hresumes : env.Resumes record) (preparation : Except Step ℕ) :
    worker.loaded env.target (env.plan record) preparation .works (some record.row) =
      worker.goto (.claiming (env.plan record) preparation) := by
  have hsame : ¬ record.publication.publishedRevision ≠ (env.plan record).publishedRevision :=
    not_not.2 rfl
  rw [Worker.loaded, if_neg (not_not.2 rfl), hresumes.load]
  dsimp only
  rw [if_neg (not_not.2 hresumes.active), if_neg hsame]

theorem next_of_claiming {preparation : Except Step ℕ}
    (h : worker.phase = .claiming plan preparation) :
    Resumed.next env record n ⟨row, worker, calls⟩ =
      let claim := storeCall .works
        (claimReplyPublicationLease (env.target.claimRequest (env.clock n))) row
      ⟨claim.1, worker.claimed plan preparation claim.2, calls⟩ := by
  simp only [Resumed.next, Resume.input, Worker.step, Worker.store, h]
  rfl

theorem updateReplyPublication_of_scope {T : Type} {scope : TurnScope}
    {apply : OutboundDeliveryAttempt → ReplyPublicationState → Except OutboundError (RowUpdate T)}
    (h : record.attempt.scope = scope) :
    updateReplyPublication scope apply (some record.row) =
      apply record.attempt record.publication := by
  have hsame : rejectIf (record.row.attempt.scope ≠ scope) OutboundError.subscriptionScopeMismatch =
      .ok () := if_neg (not_not.2 h)
  rw [updateReplyPublication]
  simp only [okOr, hsame, bind, Except.bind]
  rfl

theorem claimReplyPublicationLease_of_active {request : ClaimReplyPublicationLeaseRequest}
    (httl : leaseExpiresAt request.now request.ttl = .ok (request.now + request.ttl))
    (hscope : record.attempt.scope = request.scope)
    (hactive : record.publication.status = .active) :
    claimReplyPublicationLease request (some record.row) =
      match record.publication.liveLease request.now with
      | some live =>
        if live.owner ≠ request.owner then .ok (.keep (.held live.owner live.expiresAt))
        else
          .ok (.write (reentered request live record).row
            (.acquired (reentered request live record)))
      | none =>
        if record.publication.fence + 1 < 2 ^ 64 then
          .ok (.write
            (newEpoch request (request.now + request.ttl) record.attempt record.publication).row
            (.acquired
              (newEpoch request (request.now + request.ttl) record.attempt record.publication)))
        else .error (.invalidRequest "reply publication fence exhausted") := by
  simp only [claimReplyPublicationLease, httl, bind, Except.bind,
    updateReplyPublication_of_scope hscope]
  rw [if_neg (not_not.2 hactive)]
  rfl

/-- A claim is refused only while another process has the lease. -/
theorem claim_of_resumes (hresumes : env.Resumes record) (hworks : env.Works record) (n : ℕ) :
    (∃ live, record.publication.liveLease (env.clock n) = some live ∧
        storeCall .works (claimReplyPublicationLease (env.target.claimRequest (env.clock n)))
          (some record.row) = (some record.row, .ok (.held live.owner live.expiresAt))) ∨
      ∃ held, storeCall .works
          (claimReplyPublicationLease (env.target.claimRequest (env.clock n)))
          (some record.row) = (some held.row, .ok (.acquired held)) ∧
        env.Holds record held n ∧
        held.publication.desiredRevision = record.publication.desiredRevision ∧
        held.publication.terminalRevision = record.publication.terminalRevision := by
  have hclaim := @claimReplyPublicationLease_of_active record
    (env.target.claimRequest (env.clock n)) (leaseExpiresAt_eq_ok.2 ⟨Nat.ne_of_gt hworks.ttl_pos,
      hworks.ttl_le, hworks.clock_le n, rfl⟩) hresumes.scope hresumes.active
  cases hlive : record.publication.liveLease (env.clock n) with
  | some live =>
    rw [show record.publication.liveLease (env.target.claimRequest (env.clock n)).now = some live
      from hlive] at hclaim
    dsimp only at hclaim
    by_cases howner : live.owner = (env.target.claimRequest (env.clock n)).owner
    · rw [if_neg (not_not.2 howner)] at hclaim
      have hholds : env.Holds record
          (reentered (env.target.claimRequest (env.clock n)) live record) n :=
        ⟨hresumes.scope, hresumes.active, rfl, ⟨_, _⟩, rfl, le_max_right _ _⟩
      refine .inr ⟨_, ?_, hholds, rfl, rfl⟩
      rw [storeCall, hclaim]
    · rw [if_pos howner] at hclaim
      refine .inl ⟨live, rfl, ?_⟩
      rw [storeCall, hclaim]
      rfl
  | none =>
    rw [show record.publication.liveLease (env.target.claimRequest (env.clock n)).now = none
      from hlive] at hclaim
    dsimp only at hclaim
    rw [if_pos hworks.fence_lt] at hclaim
    have hholds : env.Holds record (newEpoch (env.target.claimRequest (env.clock n))
        (env.clock n + env.target.settings.leaseTtl) record.attempt record.publication) n := by
      refine ⟨?_, hresumes.active, rfl, ⟨_, _⟩, rfl, le_refl _⟩
      rw [newEpoch]
      dsimp only
      split <;> exact hresumes.scope
    refine .inr ⟨_, ?_, hholds, rfl, rfl⟩
    rw [storeCall, hclaim]
    rfl

variable {generation : ℕ}

theorem stage_of_claiming (hresumes : env.Resumes record) (hworks : env.Works record)
    (hunsealed : record.publication.terminalRevision = none)
    (h : worker.phase = .claiming (env.plan record) (.ok generation))
    (hmirrors : Resume.Mirrors record worker) (hstate : (env.state record n).worker = worker) :
    env.Stage record (n + 1) (Resumed.next env record n ⟨some record.row, worker, 0⟩) ∧
      (record.publication.liveLease (env.clock n) = none →
        (Resumed.next env record n ⟨some record.row, worker, 0⟩).worker.phase.rank < 6) := by
  rw [next_of_claiming h]
  rcases claim_of_resumes hresumes hworks n with
    ⟨live, hlive, hcall⟩ | ⟨held, hcall, hholds, hdesired, hterminal⟩
  · rw [hcall]
    refine ⟨.waiting rfl (hmirrors.congr rfl), fun hnone => ?_⟩
    rw [hlive] at hnone
    exact nomatch hnone
  · rw [hcall]
    have hphase : (worker.claimed (env.plan record) (.ok generation)
        (.ok (.acquired held))).phase = .persisting (env.plan record) generation held := by
      have hsame : ¬ held.publication.publishedRevision ≠ (env.plan record).publishedRevision :=
        not_not.2 hholds.published
      rw [Worker.claimed, if_neg hsame]
      rfl
    have hin : env.clock (n + 2) < env.clock n + env.target.settings.leaseTtl :=
      hworks.in_time n (env.plan record) (.ok generation) (by rw [hstate]; exact h)
    refine ⟨.persisting hphase hholds hin ?_ (hterminal.trans hunsealed), fun _ => ?_⟩
    · rw [hdesired]
      exact Resume.desired_le_floor
    · show Phase.rank _ < 6
      rw [hphase]
      exact Nat.lt_succ_self 5

/-! ### Storing the terminal revision -/

variable {held : ReplyPublicationRecord} {request : AdvanceReplyPublicationRequest}

theorem advance_works (hpublished : request.publishedRevision ≤ request.desiredRevision)
    (hterminal : ∀ t ∈ request.terminalRevision,
      t ≤ request.desiredRevision ∧ request.publishedRevision ≤ t)
    (hscope : held.attempt.scope = request.scope) (hactive : held.publication.status = .active)
    (hfence : held.publication.fence = request.fence) (hlease : held.publication.lease ≠ none)
    (hdesired : held.publication.desiredRevision ≤ request.desiredRevision)
    (hforward : held.publication.publishedRevision ≤ request.publishedRevision)
    (hfixed : held.publication.terminalRevision.isSome = true →
      request.terminalRevision = held.publication.terminalRevision) :
    storeCall .works (advanceReplyPublication request) (some held.row) =
      (some (ReplyPublicationRecord.row ⟨held.attempt, advanced request held.publication⟩),
        .ok ⟨held.attempt, advanced request held.publication⟩) := by
  have hcheck : checkAdvance request = .ok () := by
    simp only [checkAdvance, bind_eq_ok, rejectIf_eq_ok, exists_const]
    refine ⟨not_lt.2 hpublished, ?_, ?_⟩
    · rintro ⟨t, ht, hlt⟩
      exact absurd (hterminal t ht).1 (not_le.2 hlt)
    · rintro ⟨t, ht, hlt⟩
      exact absurd (hterminal t ht).2 (not_le.2 hlt)
  have hadvance : advanceReplyPublication request (some held.row) =
      .ok (.write (ReplyPublicationRecord.row ⟨held.attempt, advanced request held.publication⟩)
        ⟨held.attempt, advanced request held.publication⟩) := by
    rw [advanceReplyPublication, bind_eq_ok]
    refine ⟨(), hcheck, ?_⟩
    rw [updateReplyPublication_of_scope hscope]
    simp only [bind_eq_ok, ensureActive, ensureFence, rejectIf_eq_ok, exists_const, not_not]
    exact ⟨hactive, hfence, hlease, not_lt.2 hdesired, not_lt.2 hforward,
      fun hset => hset.2 (hfixed hset.1), rfl⟩
  rw [storeCall, hadvance]

theorem next_of_persisting (h : worker.phase = .persisting plan generation held)
    (hrequest : env.target.pendingAdvance worker (env.clock n) = some request) :
    Resumed.next env record n ⟨row, worker, calls⟩ =
      let advance := storeCall .works (advanceReplyPublication request) row
      ⟨advance.1, worker.persisted plan generation advance.2, calls⟩ := by
  simp only [Resumed.next, Resume.input, Worker.step, Worker.store, h, hrequest]
  rfl

theorem Resume.plan_terminal (hworks : env.Works record) : (env.plan record).terminal = true :=
  (foldTerminalFacts_empty hworks.terminal).1

theorem stage_of_persisting (hworks : env.Works record)
    (h : worker.phase = .persisting (env.plan record) generation held)
    (hholds : env.Holds record held n)
    (hin : env.clock (n + 2) < env.clock n + env.target.settings.leaseTtl)
    (hdesired : held.publication.desiredRevision ≤ env.floor record)
    (hunsealed : held.publication.terminalRevision = none) :
    env.Stage record (n + 2) (Resumed.next env record (n + 1) ⟨some held.row, worker, 0⟩) ∧
      (Resumed.next env record (n + 1) ⟨some held.row, worker, 0⟩).worker.phase.rank < 5 := by
  obtain ⟨lease, hlease, hexpires⟩ := hholds.lease
  have hrequest : env.target.pendingAdvance worker (env.clock (n + 1)) =
      some (advanceRequest env.target (env.plan record) held held.publication.publishedRevision
        held.publication.generation none held.publication.evidence (env.clock (n + 1))) := by
    rw [Target.pendingAdvance, h]
    exact if_pos (.inl (Nat.lt_succ_of_le hdesired))
  have hmax : max (env.floor record + 1) held.publication.desiredRevision = env.floor record + 1 :=
    max_eq_left (hdesired.trans (Nat.le_succ _))
  have hpublished : held.publication.publishedRevision ≤ env.floor record + 1 := by
    rw [hholds.published]
    exact Resume.published_le_floor.trans (Nat.le_succ _)
  have hterminal : (advanceRequest env.target (env.plan record) held
      held.publication.publishedRevision held.publication.generation none held.publication.evidence
      (env.clock (n + 1))).terminalRevision = some (env.floor record + 1) := by
    show held.publication.terminalRevision.or _ = _
    rw [hunsealed, if_pos (Resume.plan_terminal hworks)]
    rfl
  rw [next_of_persisting h hrequest, advance_works ?_ ?_ hholds.scope hholds.active rfl ?_ ?_ ?_ ?_]
  · refine ⟨.ready rfl ⟨hholds.scope, hholds.active, hholds.published, lease, hlease, hexpires⟩ hin
      ⟨hmax, ?_⟩, Nat.lt_succ_self 4⟩
    show Option.or _ _ = _
    rw [hterminal]
    rfl
  · exact hpublished.trans (le_max_left _ _)
  · rw [hterminal]
    rintro t ⟨⟩
    exact ⟨le_max_left _ _, hpublished⟩
  · rw [hlease]
    exact Option.some_ne_none lease
  · exact le_max_right _ _
  · exact le_refl _
  · rw [hunsealed]
    exact fun hsome => absurd hsome Bool.false_ne_true

/-! ### The call -/

theorem stage_of_ready (h : worker.phase = .ready (env.plan record) generation held)
    (hholds : env.Holds record held n)
    (hin : env.clock (n + 2) < env.clock n + env.target.settings.leaseTtl)
    (hsealed : env.Sealed record held) :
    env.Stage record (n + 3) (Resumed.next env record (n + 2) ⟨some held.row, worker, 0⟩) ∧
      (Resumed.next env record (n + 2) ⟨some held.row, worker, 0⟩).worker.phase.rank < 4 := by
  obtain ⟨lease, hlease, hexpires⟩ := hholds.lease
  -- what is left of the lease is enough to start
  have hremaining : ¬ env.target.remaining held (env.clock (n + 2)) ≤ 0 := by
    rw [Target.remaining, hlease]
    exact not_le.2 (sub_pos.2 (lt_of_lt_of_le hin hexpires))
  have hcalled : worker.called env.target (env.plan record) generation held (env.clock (n + 2)) =
      worker.goto (.calling (env.plan record) generation held (env.clock (n + 2) +
        min (env.target.settings.reconcileTimeout : ℤ)
          (env.target.remaining held (env.clock (n + 2))))) := if_neg hremaining
  have hnext : Resumed.next env record (n + 2) ⟨some held.row, worker, 0⟩ =
      ⟨some held.row, worker.goto (.calling (env.plan record) generation held (env.clock (n + 2) +
        min (env.target.settings.reconcileTimeout : ℤ)
          (env.target.remaining held (env.clock (n + 2))))), 1⟩ := by
    simp only [Resumed.next, Resume.input, Worker.step, h, hcalled]
    rfl
  rw [hnext]
  exact ⟨.calling rfl hholds hsealed, Nat.lt_succ_self 3⟩

theorem stage_of_calling (hworks : env.Works record) {m generation : ℕ} {deadline : Timestamp}
    (h : worker.phase = .calling (env.plan record) generation held deadline)
    (hholds : env.Holds record held m) (hsealed : env.Sealed record held) :
    env.Stage record (n + 1) (Resumed.next env record n ⟨some held.row, worker, 1⟩) ∧
      (Resumed.next env record n ⟨some held.row, worker, 1⟩).worker.phase.rank < 3 := by
  have hstep : (SinkAnswer.report (env.report n)).step generation =
      .applied (env.report n) generation := by
    rw [SinkAnswer.step, hworks.applied n]
  have hnext : Resumed.next env record n ⟨some held.row, worker, 1⟩ =
      ⟨some held.row,
        worker.goto (.handling (env.plan record) held (.applied (env.report n) generation)), 1⟩ := by
    simp only [Resumed.next, Resume.input, Worker.step, h, hstep]
    rfl
  rw [hnext]
  exact ⟨.handling rfl hholds hsealed, Nat.lt_succ_self 2⟩

/-! ### Storing what was sent -/

theorem next_of_handling {step : Step} (h : worker.phase = .handling plan held step)
    (hrequest : stepRequest env.target plan held step (env.clock n) = some request) :
    Resumed.next env record n ⟨row, worker, calls⟩ =
      let advance := storeCall .works (advanceReplyPublication request) row
      ⟨advance.1, worker.handled env.target plan held step (env.clock n) advance.2, calls⟩ := by
  simp only [Resumed.next, Resume.input, Worker.step, Worker.store, Target.pendingAdvance, h,
    hrequest]
  rfl

theorem stage_of_handling (hworks : env.Works record) {m generation : ℕ} {report : ReplySinkReport}
    (h : worker.phase = .handling (env.plan record) held (.applied report generation))
    (hholds : env.Holds record held m) (hsealed : env.Sealed record held) :
    env.Stage record (n + 1) (Resumed.next env record n ⟨some held.row, worker, 1⟩) ∧
      (Resumed.next env record n ⟨some held.row, worker, 1⟩).worker.phase.rank < 2 := by
  obtain ⟨lease, hlease, -⟩ := hholds.lease
  have hpublished : held.publication.publishedRevision ≤ env.floor record + 1 := by
    rw [hholds.published]
    exact Resume.published_le_floor.trans (Nat.le_succ _)
  have hterminal : held.publication.terminalRevision.or
      (if (env.plan record).terminal then some (env.plan record).snapshot.revision else none) =
      some (env.floor record + 1) := by
    rw [hsealed.terminal]
    rfl
  rw [next_of_handling h rfl, advance_works ?_ ?_ hholds.scope hholds.active rfl ?_ ?_ ?_ ?_]
  · have hphase : ∀ stored, (worker.handled env.target (env.plan record) held
        (.applied report generation) (env.clock n) (.ok stored)).phase =
        .settling held.publication.fence .delivered :=
      fun stored => if_pos (Resume.plan_terminal hworks)
    refine ⟨.settling (hphase _) hholds.scope hholds.active ?_, ?_⟩
    · show Option.or (Option.or _ _) _ = some (env.floor record + 1)
      rw [hterminal]
      rfl
    · show Phase.rank (Worker.phase _) < 2
      rw [hphase]
      exact Nat.lt_succ_self 1
  · exact le_max_left _ _
  · intro t ht
    change t ∈ Option.or _ _ at ht
    rw [hterminal] at ht
    cases ht
    exact ⟨le_max_left _ _, le_refl _⟩
  · rw [hlease]
    exact Option.some_ne_none lease
  · exact le_max_right _ _
  · exact hpublished
  · intro _
    show Option.or _ _ = _
    rw [hterminal, hsealed.terminal]

/-! ### Settling -/

theorem stage_of_settling (h : worker.phase = .settling held.publication.fence .delivered)
    (hscope : held.attempt.scope = env.target.scope) (hactive : held.publication.status = .active)
    (happlied : held.publication.terminalApplied) :
    env.Stage record (n + 1) (Resumed.next env record n ⟨some held.row, worker, 1⟩) ∧
      (Resumed.next env record n ⟨some held.row, worker, 1⟩).worker.phase.rank < 1 := by
  have hsettle : settleReplyPublication
      ⟨env.target.scope, held.publication.fence, .delivered, env.clock n⟩ (some held.row) =
      .ok (.write (settledRecord
          ⟨env.target.scope, held.publication.fence, .delivered, env.clock n⟩ held.attempt
          held.publication).row
        (settledRecord ⟨env.target.scope, held.publication.fence, .delivered, env.clock n⟩
          held.attempt held.publication)) := by
    rw [settleReplyPublication, updateReplyPublication_of_scope hscope]
    simp only [bind_eq_ok, ensureActive, ensureFence, rejectIf_eq_ok, exists_const, not_not]
    exact ⟨hactive, trivial, fun hnot => hnot.2 happlied, rfl⟩
  have hnext : Resumed.next env record n ⟨some held.row, worker, 1⟩ =
      ⟨some (settledRecord ⟨env.target.scope, held.publication.fence, .delivered, env.clock n⟩
        held.attempt held.publication).row, worker.goto .exited, 1⟩ := by
    simp only [Resumed.next, Resume.input, Worker.step, Worker.store, h, storeCall, hsettle]
    rfl
  rw [hnext]
  exact ⟨.exited rfl ⟨_, rfl, rfl, rfl⟩, Nat.lt_succ_self 0⟩

theorem next_of_exited (h : worker.phase = .exited) :
    Resumed.next env record n ⟨row, worker, calls⟩ = ⟨row, worker, calls⟩ := by
  simp only [Resumed.next, Resume.input, Worker.step, Worker.store, h]
  rfl

/-! ### The run -/

/-- Each step stays in the stages, and does something when the facts are there and no other process
has the lease. -/
theorem stage_next (hresumes : env.Resumes record) (hworks : env.Works record)
    (hunsealed : record.publication.terminalRevision = none) (hquiet : env.Quiet record)
    (h : env.Stage record n (env.state record n)) :
    env.Stage record (n + 1) (env.state record (n + 1)) ∧
      (env.factsAt ≤ n → record.publication.liveLease (env.clock n) = none →
        (env.state record n).worker.phase = .exited ∨
          (env.state record (n + 1)).worker.phase.rank <
            (env.state record n).worker.phase.rank) := by
  have hnext : env.state record (n + 1) = (env.state record n).next env record n := rfl
  rw [hnext]
  generalize hs : env.state record n = s at h ⊢
  cases h with
  | waiting phase mirrors =>
    obtain ⟨hstage, hrank⟩ := stage_of_planning hresumes hworks hquiet phase mirrors
    refine ⟨hstage, fun hfacts _ => .inr ?_⟩
    rw [phase]
    exact hrank hfacts
  | preparing phase mirrors =>
    rw [next_of_preparing phase, prepare_of_binds (hworks.binds n)]
    refine ⟨.loading rfl (mirrors.congr rfl), fun _ _ => .inr ?_⟩
    rw [phase]
    exact Nat.lt_succ_self 7
  | loading phase mirrors =>
    rw [next_of_loading phase, loaded_of_resumes hresumes]
    refine ⟨.claiming rfl (mirrors.congr rfl), fun _ _ => .inr ?_⟩
    rw [phase]
    exact Nat.lt_succ_self 6
  | claiming phase mirrors =>
    obtain ⟨hstage, hrank⟩ := stage_of_claiming hresumes hworks hunsealed phase mirrors
      (congrArg Resumed.worker hs)
    refine ⟨hstage, fun _ hfree => .inr ?_⟩
    rw [phase]
    exact hrank hfree
  | persisting phase holds in_time desired_le unsealed =>
    obtain ⟨hstage, hrank⟩ := stage_of_persisting hworks phase holds in_time desired_le unsealed
    refine ⟨hstage, fun _ _ => .inr ?_⟩
    rw [phase]
    exact hrank
  | ready phase holds in_time done =>
    obtain ⟨hstage, hrank⟩ := stage_of_ready phase holds in_time done
    refine ⟨hstage, fun _ _ => .inr ?_⟩
    rw [phase]
    exact hrank
  | calling phase holds done =>
    obtain ⟨hstage, hrank⟩ := stage_of_calling hworks phase holds done
    refine ⟨hstage, fun _ _ => .inr ?_⟩
    rw [phase]
    exact hrank
  | handling phase holds done =>
    obtain ⟨hstage, hrank⟩ := stage_of_handling hworks phase holds done
    refine ⟨hstage, fun _ _ => .inr ?_⟩
    rw [phase]
    exact hrank
  | settling phase scope active applied =>
    obtain ⟨hstage, hrank⟩ := stage_of_settling phase scope active applied
    refine ⟨hstage, fun _ _ => .inr ?_⟩
    rw [phase]
    exact hrank
  | exited phase delivered =>
    rw [next_of_exited phase]
    exact ⟨.exited phase delivered, fun _ _ => .inl phase⟩

theorem stage_state (hresumes : env.Resumes record) (hworks : env.Works record)
    (hunsealed : record.publication.terminalRevision = none) (hquiet : env.Quiet record) (n : ℕ) :
    env.Stage record n (env.state record n) := by
  induction n with
  | zero => exact .waiting rfl ⟨fun revision h => (nomatch h), rfl⟩
  | succ n ih => exact (stage_next hresumes hworks hunsealed hquiet ih).1

theorem Resume.Stage.delivered {s : Resumed} (h : env.Stage record n s)
    (hphase : s.worker.phase = .exited) : DeliveredRow s.row := by
  cases h with
  | exited _ delivered => exact delivered
  | waiting phase | preparing phase | loading phase | claiming phase | persisting phase
  | ready phase | calling phase | handling phase | settling phase =>
    exact nomatch phase.symm.trans hphase

theorem Resume.Stage.calls_le {s : Resumed} (h : env.Stage record n s) : s.calls ≤ 1 := by
  cases h <;> first | exact Nat.zero_le 1 | exact le_refl 1

theorem Resume.Stage.reaches {s : Resumed} (h : env.Stage record n s) {deadline : Timestamp}
    (hphase : s.worker.phase = .calling plan generation held deadline) :
    held.publication.terminalRevision = some plan.snapshot.revision := by
  cases h with
  | calling phase holds done =>
    cases phase.symm.trans hphase
    exact done.terminal
  | exited phase | waiting phase | preparing phase | loading phase | claiming phase
  | persisting phase | ready phase | handling phase | settling phase =>
    exact nomatch phase.symm.trans hphase

/-- From some step on nothing holds the worker up. -/
theorem Resume.Works.free (hworks : env.Works record) :
    ∃ start, env.factsAt ≤ start ∧ ∀ n, start ≤ n →
      record.publication.liveLease (env.clock n) = none := by
  cases hlease : record.publication.lease with
  | none =>
    refine ⟨env.factsAt, le_refl _, fun n _ => ?_⟩
    rw [ReplyPublicationState.liveLease, hlease]
    rfl
  | some lease =>
    obtain ⟨expired, hexpired⟩ := hworks.expires lease hlease
    refine ⟨max env.factsAt expired, le_max_left _ _, fun n hle => ?_⟩
    have hclock := hexpired.trans (hworks.clock_mono _ _ ((le_max_right _ _).trans hle))
    cases hlive : record.publication.liveLease (env.clock n) with
    | none => rfl
    | some live =>
      obtain ⟨hsame, hlt⟩ := liveLease_eq_some.1 hlive
      cases hlease.symm.trans hsame
      exact absurd hlt (not_lt.2 hclock)

end

/-- A publication that was left without a stored terminal revision is finished by the fresh process:
it is settled as delivered, with at most one call of the sink, which is for the terminal revision of
the row. -/
theorem resumed_publication_finishes (env : Resume) (record : ReplyPublicationRecord)
    (hresumes : env.Resumes record) (hworks : env.Works record)
    (hunsealed : record.publication.terminalRevision = none) (hquiet : env.Quiet record) :
    (∃ n, DeliveredRow (env.state record n).row) ∧
      ∀ n, (env.state record n).calls ≤ 1 ∧
        ∀ plan generation held deadline,
          (env.state record n).worker.phase = .calling plan generation held deadline →
          held.publication.terminalRevision = some plan.snapshot.revision := by
  have hstage := stage_state hresumes hworks hunsealed hquiet
  refine ⟨?_, fun n => ⟨(hstage n).calls_le, fun _ _ _ _ => (hstage n).reaches⟩⟩
  obtain ⟨start, hfacts, hfree⟩ := hworks.free
  -- by the rank of the phase
  have hreach : ∀ rank n, start ≤ n → (env.state record n).worker.phase.rank ≤ rank →
      ∃ m, DeliveredRow (env.state record m).row := by
    intro rank
    induction rank with
    | zero =>
      intro n hn hle
      rcases (stage_next hresumes hworks hunsealed hquiet (hstage n)).2 (hfacts.trans hn)
          (hfree n hn) with hexited | hlt
      · exact ⟨n, (hstage n).delivered hexited⟩
      · exact absurd (hlt.trans_le hle) (Nat.not_lt_zero _)
    | succ rank ih =>
      intro n hn hle
      rcases (stage_next hresumes hworks hunsealed hquiet (hstage n)).2 (hfacts.trans hn)
          (hfree n hn) with hexited | hlt
      · exact ⟨n, (hstage n).delivered hexited⟩
      · exact ih (n + 1) (hn.trans (Nat.le_succ n)) (Nat.le_of_lt_succ (hlt.trans_le hle))
  exact hreach _ start (le_refl start) (le_refl _)

/-! ### Two rows that were left behind -/

/-- The run has completed; the worker of the fresh process takes a step each nanosecond, and the clock
stands still after a thousand of them. -/
def helloResume : Resume where
  target := helloFleet.target ⟨"c"⟩
  facts := ⟨.completed, some "hello", [], none⟩
  others := []
  raiseAt := 0
  factsAt := 0
  clock := fun n => min n 1000
  channel := fun _ => ⟨1, true⟩
  report := fun _ => ⟨.applied, none, [], false⟩

/-- A process stores a revision and crashes. -/
def crashAfterStoring (snapshot : ReplySnapshot) : List SystemAction :=
  let publisher : PublisherId := ⟨"b"⟩
  [.opening helloOpening, .spawn publisher, .work publisher 0 (.plan (some snapshot) .works 0),
    .work publisher 0 (.prepare (some ⟨1, true⟩) .files), .work publisher 0 (.store .works 0),
    .work publisher 0 (.store .works 0), .work publisher 0 (.store .works 0), .crash publisher]

/-- The row that the process leaves behind. -/
def leftBehind (terminalRevision : Option ℕ) : ReplyPublicationRecord where
  attempt := { helloAttempt with
    status := .sending }
  publication := { (openedRecord helloOpening).publication with
    fence := 1
    lease := some ⟨⟨"b"⟩, 60⟩
    desiredRevision := 2
    terminalRevision := terminalRevision }

theorem helloResume_resumes (terminalRevision : Option ℕ) :
    helloResume.Resumes (leftBehind terminalRevision) :=
  ⟨rfl, rfl, _, rfl, rfl⟩

theorem helloResume_works (terminalRevision : Option ℕ) :
    helloResume.Works (leftBehind terminalRevision) where
  terminal := rfl
  raised_first := le_refl 0
  clock_mono := fun a b hle => min_le_min_right _ (Int.ofNat_le.2 hle)
  clock_le := fun n => by
    show min (n : ℤ) 1000 + 60 ≤ maxUtc
    have hle := min_le_right (n : ℤ) 1000
    rw [maxUtc]
    omega
  ttl_pos := by decide
  ttl_le := by decide
  in_time := fun n _ _ _ => by
    show min ((n + 2 : ℕ) : ℤ) 1000 < min (n : ℤ) 1000 + 60
    omega
  expires := fun lease hlease => by
    cases hlease
    exact ⟨60, le_refl _⟩
  fence_lt := by
    show 1 + 1 < 2 ^ 64
    decide
  binds := fun _ => rfl
  applied := fun _ => rfl

/-- A process that crashed in the middle of the reply. -/
theorem resumed_publication_finishes_hello :
    ((System.initial 0).run helloFleet (crashAfterStoring (helloSnapshot 2))).row =
        some (leftBehind none).row ∧
      ∃ n, DeliveredRow (helloResume.state (leftBehind none) n).row :=
  ⟨by decide +kernel, (resumed_publication_finishes helloResume (leftBehind none)
    (helloResume_resumes none) (helloResume_works none) rfl (.inr (.inl rfl))).1⟩

/-- A process that crashed between storing the terminal revision and sending it. The worker of the
fresh process sends the revision after it again and again: the store does not publish it. -/
theorem sealed_publication_resent : let snapshot : ReplySnapshot := ⟨2, { ReplyDocument.empty with
      answerText := "hello"
      answerFinalized := true
      outcome := some .completed }, false⟩
    ((System.initial 0).run helloFleet (crashAfterStoring snapshot)).row =
        some (leftBehind (some 2)).row ∧
      helloResume.Resumes (leftBehind (some 2)) ∧ helloResume.Works (leftBehind (some 2)) ∧
      helloResume.Quiet (leftBehind (some 2)) ∧
      (helloResume.state (leftBehind (some 2)) 84).calls = 3 :=
  ⟨by decide +kernel, helloResume_resumes _, helloResume_works _, .inr (.inl rfl),
    by decide +kernel⟩

end Ironclaw.Outbound
