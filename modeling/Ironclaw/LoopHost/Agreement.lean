import Ironclaw.LoopHost.Document
import Ironclaw.LoopHost.InMemoryInputQueue

/-! # The two input queues agree

Calls are made one after the other on one run, once of the durable queue and once of the in-memory
queue, with the same thread service and the same handler of effects. Both return the same results, make
the same transcript updates in the same order, and end with the same queue, as long as no
acknowledgement names a live input before a token that is refused (`CleanAck`).

The durable queue drops its copy of the document when an acknowledgement is refused; the in-memory queue
has by then changed its record, and the input it has not acknowledged is in the list of due flips. -/

namespace Ironclaw.LoopHost

/-! ### The surroundings of a call -/

/-- The thread service and the handler of effects, with states in `τ`. -/
structure Services (τ : Type) where
  markMessageSubmitted : τ → QueuedMessageStatusUpdate → Bool × τ
  markMessageRejectedBusy : τ → QueuedMessageStatusUpdate → Bool × τ
  readThreadMessage : τ → QueuedMessageStatusUpdate → Option MessageStatus × τ
  handleAckEffect : τ → LoopInputAckEffect → Bool × τ

/-- A status update that was made of the transcript, and whether it succeeded. -/
inductive TranscriptUpdate where
  | submitted (update : QueuedMessageStatusUpdate) (succeeded : Bool)
  | rejectedBusy (update : QueuedMessageStatusUpdate) (succeeded : Bool)
deriving DecidableEq

structure Outside (τ : Type) where
  service : τ
  /-- Newest first. -/
  updates : List TranscriptUpdate

/-- Where a backend keeps the queue of the run. -/
structure Backend (δ : Type) where
  get : δ → Except String (Option (RunQueueModel × ℕ))
  put : δ → RunQueueModel → Option ℕ → WriteAnswer × δ
  deleteIfVersion : δ → ℕ → WriteAnswer × δ

/-- A document with a version. -/
def durableBackend : Backend (Option (RunQueueModel × ℕ)) where
  get document := .ok document
  put document model expected :=
    if document.map Prod.snd = expected then (.done, some (model, (expected.map (· + 1)).getD 1))
    else (.conflict, document)
  deleteIfVersion document version :=
    match document with
    | none => (.fatal "not found", none)
    | some (model, found) => if found = version then (.done, none) else (.conflict, some (model, found))

/-- The record of the map. -/
def memoryBackend : Backend (Option RunQueueModel) where
  get model := .ok (model.map (·, 0))
  put _ model _ := (.done, some model)
  deleteIfVersion _ _ := (.done, none)

/-- No queue at all, for programs that only turn to the outside. -/
def noBackend : Backend Unit where
  get _ := .ok none
  put _ _ _ := (.conflict, ())
  deleteIfVersion _ _ := (.conflict, ())

@[ext] structure QueueWorld (δ τ : Type) where
  store : δ
  outside : Outside τ

def answer {δ τ : Type} (backend : Backend δ) (services : Services τ) (world : QueueWorld δ τ) :
    (request : QueueRequest) → request.Answer × QueueWorld δ τ
  | .get => (backend.get world.store, world)
  | .put model expected =>
    let written := backend.put world.store model expected
    (written.1, ⟨written.2, world.outside⟩)
  | .deleteIfVersion version =>
    let deleted := backend.deleteIfVersion world.store version
    (deleted.1, ⟨deleted.2, world.outside⟩)
  | .markMessageSubmitted update =>
    let marked := services.markMessageSubmitted world.outside.service update
    (marked.1, ⟨world.store, ⟨marked.2, .submitted update marked.1 :: world.outside.updates⟩⟩)
  | .markMessageRejectedBusy update =>
    let marked := services.markMessageRejectedBusy world.outside.service update
    (marked.1, ⟨world.store, ⟨marked.2, .rejectedBusy update marked.1 :: world.outside.updates⟩⟩)
  | .readThreadMessage update =>
    let row := services.readThreadMessage world.outside.service update
    (row.1, ⟨world.store, ⟨row.2, world.outside.updates⟩⟩)
  | .handleAckEffect effect =>
    let handled := services.handleAckEffect world.outside.service effect
    (handled.1, ⟨world.store, ⟨handled.2, world.outside.updates⟩⟩)

section runs

variable {τ : Type} (services : Services τ) {α β : Type}

/-- A program alone on a backend. -/
def runOn {δ : Type} (backend : Backend δ) (task : QueueTask α) (store : δ) (x : Outside τ) :
    α × QueueWorld δ τ :=
  task.run (answer backend services) ⟨store, x⟩

/-- A program that only turns to the outside. -/
def outwardly (task : QueueTask α) (x : Outside τ) : α × Outside τ :=
  ((runOn services noBackend task () x).1, (runOn services noBackend task () x).2.outside)

/-- The program leaves the queue alone and does not depend on it. -/
def Outward (task : QueueTask α) : Prop :=
  ∀ (δ : Type) (backend : Backend δ) (store : δ) (x : Outside τ), runOn services backend task store x =
    ((outwardly services task x).1, ⟨store, (outwardly services task x).2⟩)

variable {services}

theorem Outward.pure (a : α) : Outward services (pure a : QueueTask α) := fun _ _ _ _ => rfl

theorem runOn_bind {δ : Type} (backend : Backend δ) (task : QueueTask α) (f : α → QueueTask β)
    (store : δ) (x : Outside τ) : runOn services backend (task >>= f) store x =
      runOn services backend (f (runOn services backend task store x).1)
        (runOn services backend task store x).2.store (runOn services backend task store x).2.outside :=
  Task.run_bind task f _

theorem Outward.bind {task : QueueTask α} {f : α → QueueTask β} (h : Outward services task)
    (hf : ∀ a, Outward services (f a)) : Outward services (task >>= f) := by
  have hout : ∀ x, outwardly services (task >>= f) x =
      outwardly services (f (outwardly services task x).1) (outwardly services task x).2 := by
    intro x
    unfold outwardly
    rw [runOn_bind]
  intro δ backend store x
  rw [runOn_bind, h δ backend store x, hf _ δ backend store _, hout]

variable (update : QueuedMessageStatusUpdate)

theorem outward_markMessageSubmitted :
    Outward services (QueueRequest.markMessageSubmitted update).make := fun _ _ _ _ => rfl

theorem outward_markMessageRejectedBusy :
    Outward services (QueueRequest.markMessageRejectedBusy update).make := fun _ _ _ _ => rfl

theorem outward_readThreadMessage :
    Outward services (QueueRequest.readThreadMessage update).make := fun _ _ _ _ => rfl

theorem outward_handleAckEffect (effect : LoopInputAckEffect) :
    Outward services (QueueRequest.handleAckEffect effect).make := fun _ _ _ _ => rfl

theorem outward_flipSubmitted : ∀ flips : List PendingSubmitFlip, Outward services (flipSubmitted flips)
  | [] => .pure []
  | flip :: rest => (outward_markMessageSubmitted flip.status).bind fun _ =>
    (outward_flipSubmitted rest).bind fun _ => .pure _

theorem outward_rejectSettled : Outward services (rejectSettled update) := by
  refine (outward_readThreadMessage update).bind fun status => ?_
  cases status with
  | none => exact .pure _
  | some status => exact .pure _

theorem outward_flipRejectedBusy : ∀ (updates : List QueuedMessageStatusUpdate)
    (outcome : RejectFlipOutcome), Outward services (flipRejectedBusy updates outcome)
  | [], outcome => .pure outcome
  | update :: rest, outcome => by
    refine (outward_markMessageRejectedBusy update).bind fun flipped => ?_
    cases flipped with
    | true => exact outward_flipRejectedBusy rest _
    | false =>
      refine (outward_rejectSettled update).bind fun settled => ?_
      cases settled with
      | true => exact outward_flipRejectedBusy rest _
      | false => exact outward_flipRejectedBusy rest _

theorem outward_handleAckEffects : ∀ effects : List PendingAckEffect,
    Outward services (handleAckEffects effects)
  | [] => .pure []
  | pending :: rest => (outward_handleAckEffect pending.effect).bind fun _ =>
    (outward_handleAckEffects rest).bind fun _ => .pure _

end runs

/-! ### The model -/

theorem confirmSubmitFlips_nil (model : RunQueueModel) : model.confirmSubmitFlips [] = model := by
  simp [RunQueueModel.confirmSubmitFlips]

theorem confirmRejectFlips_nil (model : RunQueueModel) : model.confirmRejectFlips [] = model := by
  simp [RunQueueModel.confirmRejectFlips]

theorem confirmAckEffects_nil (model : RunQueueModel) : model.confirmAckEffects [] = model := by
  simp [RunQueueModel.confirmAckEffects]

variable {model : RunQueueModel}

theorem isSettled_of_not_closed (h : model.closed = false) : model.isSettled = false := by
  simp [RunQueueModel.isSettled, h]

theorem pending_nil_of_isSettled (h : model.isSettled = true) :
    model.pendingSubmitFlips = [] ∧ model.pendingRejectFlips = [] := by
  simp only [RunQueueModel.isSettled, Bool.and_eq_true, List.isEmpty_iff] at h
  exact ⟨h.1.1.2, h.2⟩

theorem enqueueDedup_empty (input : LoopInput) (status : QueuedMessageStatusUpdate) :
    ∃ inserted, ({} : RunQueueModel).enqueueDedup input status = .ok (.inserted 1, inserted) :=
  ⟨_, rfl⟩

/-- An enqueue on an open queue issues the next sequence, or it leaves the queue as it is. -/
theorem enqueueDedup_cases {input : LoopInput}
    {status : QueuedMessageStatusUpdate} {disposition : EnqueueDisposition} {result : RunQueueModel}
    (h : model.enqueueDedup input status = .ok (disposition, result)) :
    model.closed = false ∧ ((result = model ∧ ∀ sequence, disposition ≠ .inserted sequence) ∨
      (disposition = .inserted model.nextSequence ∧
        result = { model with
          nextSequence := model.nextSequence + 1
          entries := model.entries ++ [⟨model.nextSequence, input, status, none⟩] })) := by
  unfold RunQueueModel.enqueueDedup at h
  split at h
  · cases h
  rename_i hclosed
  refine ⟨by simpa using hclosed, ?_⟩
  split at h
  · cases h
    exact .inl ⟨rfl, by simp⟩
  split at h
  · cases h
    exact .inl ⟨rfl, by simp⟩
  split at h
  · cases h
    exact .inl ⟨rfl, by simp⟩
  split at h
  · cases h
  · cases h
    exact .inr ⟨rfl, rfl⟩

theorem setAckEffect_append (effect : Option LoopInputAckEffect) (entry : QueueEntry) :
    ∀ entries : List QueueEntry, ∃ entries',
      RunQueueModel.setAckEffect entry.sequence effect (entries ++ [entry]) = some entries'
  | [] => ⟨_, if_pos rfl⟩
  | first :: rest => by
    obtain ⟨rest', hrest⟩ := setAckEffect_append effect entry rest
    rw [List.cons_append]
    unfold RunQueueModel.setAckEffect
    split
    · exact ⟨_, rfl⟩
    · rw [hrest]
      exact ⟨_, rfl⟩

/-- The effect is attached to the entry that was just inserted. -/
theorem attachAckEffect_inserted {model inserted : RunQueueModel} {input : LoopInput}
    {status : QueuedMessageStatusUpdate} {sequence : ℕ} (effect : Option LoopInputAckEffect)
    (h : model.enqueueDedup input status = .ok (.inserted sequence, inserted)) :
    ∃ attached, inserted.attachAckEffect sequence effect = .ok attached ∧ attached.closed = false := by
  obtain ⟨hopen, ⟨-, hnone⟩ | ⟨hdisposition, rfl⟩⟩ := enqueueDedup_cases h
  · exact absurd rfl (hnone sequence)
  · cases hdisposition
    obtain ⟨entries, hset⟩ := setAckEffect_append effect
      (⟨model.nextSequence, input, status, none⟩ : QueueEntry) model.entries
    unfold RunQueueModel.attachAckEffect
    rw [hset]
    exact ⟨_, rfl, hopen⟩

/-- An acknowledgement that accepts its tokens names the flips and effects that are due, and on a closed
queue none; it leaves the queue as it is unless a token was new. -/
theorem validateAndAck_ok {model acked : RunQueueModel} {tokens : List String} {outcome : AckOutcome}
    (h : model.validateAndAck tokens = (.ok outcome, acked)) :
    (outcome.dueFlips = [] ∨ acked.closed = false) ∧
      (outcome.dueAckEffects = [] ∨ outcome.dueAckEffects = acked.pendingAckEffects) ∧
      (outcome.newlyAcked = false → acked = model) := by
  unfold RunQueueModel.validateAndAck at h
  split at h
  · cases h
    exact ⟨.inl rfl, .inl rfl, fun _ => rfl⟩
  rename_i hclosed
  split at h
  · cases h
  rename_i newly consumed hconsume
  cases h
  obtain ⟨taken, hseqs, rfl, -, -⟩ := consumeTokens_eq_ok hconsume
  rw [List.nil_append] at hseqs
  subst hseqs
  obtain ⟨-, -, hstill⟩ := foldl_consume taken model
  obtain ⟨-, -, hstill', -⟩ :=
    foldl_recordAck (taken.map (·.sequence)) (taken.foldl RunQueueModel.consume model)
  refine ⟨.inr ?_, .inr rfl, fun hnone => ?_⟩
  · refine (hstill'.trans hstill).trans ?_
    simpa using hclosed
  · have htaken : taken = [] := by simpa using hnone
    subst htaken
    simp [RunQueueModel.commitAcks]

/-! ### The steps of a call -/

/-- The queue of a durable world, without its version. -/
def view {τ : Type} (world : QueueWorld (Option (RunQueueModel × ℕ)) τ) :
    QueueWorld (Option RunQueueModel) τ :=
  ⟨world.store.map Prod.fst, world.outside⟩

section steps

variable {τ : Type} {services : Services τ} {handler : Bool} {x : Outside τ}
  {document : Option (RunQueueModel × ℕ)} {record : Option RunQueueModel}

theorem run_load : runOn services durableBackend load document x =
    (.ok ((document.map Prod.fst).getD {}, document.map Prod.snd), ⟨document, x⟩) := by
  cases document <;> rfl

theorem run_store (model : RunQueueModel) :
    runOn services durableBackend (store model (document.map Prod.snd)) document x =
      (.done, ⟨some (model, ((document.map Prod.snd).map (· + 1)).getD 1), x⟩) := by
  have hput : durableBackend.put document model (document.map Prod.snd) =
      (.done, some (model, ((document.map Prod.snd).map (· + 1)).getD 1)) := if_pos rfl
  show ((durableBackend.put document model _).1, QueueWorld.mk (durableBackend.put document model _).2 x) = _
  rw [hput]

/-- What is left of a document once its changed value is written, or reclaimed if it is settled. -/
def reclaimed (model : RunQueueModel) : Option RunQueueModel :=
  if model.isSettled then none else some model

theorem reclaimed_of_not_closed {model : RunQueueModel} (h : model.closed = false) :
    reclaimed model = some model := by
  unfold reclaimed
  rw [isSettled_of_not_closed h]
  rfl

theorem run_storeOrReclaim (model model' : RunQueueModel) (version : ℕ) :
    runOn services durableBackend (storeOrReclaim model' version) (some (model, version)) x =
      (.done, ⟨(reclaimed model').map (·, version + 1), x⟩) := by
  unfold storeOrReclaim reclaimed
  split
  · have hdelete : durableBackend.deleteIfVersion (some (model, version)) version = (.done, none) :=
      if_pos rfl
    show ((durableBackend.deleteIfVersion _ _).1,
      QueueWorld.mk (durableBackend.deleteIfVersion _ _).2 x) = _
    rw [hdelete]
    rfl
  · exact @run_store τ services x (some (model, version)) model'

theorem run_confirmFlips (submitted : List ℕ) (rejected : List ThreadMessageId) (ackEffects : List ℕ) :
    view (runOn services durableBackend (confirmFlips submitted rejected ackEffects) document x).2 =
      ⟨if submitted.isEmpty && rejected.isEmpty && ackEffects.isEmpty then document.map Prod.fst
        else (document.map Prod.fst).bind fun model => reclaimed
          (((model.confirmSubmitFlips submitted).confirmRejectFlips rejected).confirmAckEffects ackEffects),
        x⟩ := by
  unfold confirmFlips
  split
  · rfl
  · rw [show maxCasRetries = 7 + 1 from rfl]
    unfold confirmLoop
    rw [runOn_bind, run_load]
    cases document with
    | none => rfl
    | some document =>
      obtain ⟨model, version⟩ := document
      dsimp only [Option.map_some, Option.getD_some]
      rw [runOn_bind, run_storeOrReclaim]
      show QueueWorld.mk (((reclaimed _).map (·, version + 1)).map Prod.fst) x = _
      rw [Option.map_map]
      simp only [Function.comp_def, Option.map_id', Option.bind_some]

theorem run_record : runOn services memoryBackend InMemory.record record x = (record, ⟨record, x⟩) := by
  cases record <;> rfl

theorem run_leave (model : RunQueueModel) :
    runOn services memoryBackend (InMemory.leave model) record x = ((), ⟨some model, x⟩) := rfl

theorem run_amend (change : RunQueueModel → RunQueueModel) :
    runOn services memoryBackend (InMemory.amend true change) record x =
      ((), ⟨record.bind fun model => reclaimed (change model), x⟩) := by
  unfold InMemory.amend
  rw [runOn_bind, run_record]
  cases record with
  | none => rfl
  | some model =>
    dsimp only [Option.bind_some]
    unfold reclaimed
    rw [Bool.true_and]
    split <;> rfl

theorem run_confirmSubmitted (flipped : List ℕ) :
    runOn services memoryBackend (InMemory.confirmSubmitted flipped) record x =
      ((), ⟨if flipped.isEmpty then record else record.map (·.confirmSubmitFlips flipped), x⟩) := by
  unfold InMemory.confirmSubmitted
  split
  · rfl
  · unfold InMemory.amend
    rw [runOn_bind, run_record]
    cases record with
    | none => rfl
    | some model => rfl

/-! ### Effects -/

def pendingEffects (record : Option RunQueueModel) : List PendingAckEffect :=
  (record.map (·.pendingAckEffects)).getD []

/-- The queue and the outside once the waiting effects were tried again. -/
def retried (services : Services τ) (handler : Bool) (record : Option RunQueueModel) (x : Outside τ) :
    QueueWorld (Option RunQueueModel) τ :=
  if handler then
    let handled := outwardly services (handleAckEffects (pendingEffects record)) x
    ⟨if handled.1.isEmpty then record else record.bind fun model =>
      reclaimed (model.confirmAckEffects handled.1), handled.2⟩
  else ⟨record, x⟩

theorem retried_none : retried services handler none x = ⟨none, x⟩ := by
  unfold retried
  split <;> rfl

theorem run_retry_durable : view (runOn services durableBackend (retryPendingAckEffects handler) document x).2 =
    retried services handler (document.map Prod.fst) x := by
  unfold retryPendingAckEffects retried
  split
  · rw [runOn_bind, run_load]
    have hpending : ((document.map Prod.fst).getD {}).pendingAckEffects =
        pendingEffects (document.map Prod.fst) := by
      cases document <;> rfl
    dsimp only
    rw [hpending, runOn_bind, outward_handleAckEffects _ _ durableBackend, run_confirmFlips]
    simp only [List.isEmpty_nil, Bool.true_and, confirmSubmitFlips_nil, confirmRejectFlips_nil]
  · rfl

theorem run_retry_memory {due : List PendingAckEffect} (hdue : due = [] ∨ due = pendingEffects record) :
    runOn services memoryBackend (InMemory.retryPendingAckEffects handler due) record x =
      ((), retried services handler record x) := by
  have hpending : runOn services memoryBackend (InMemory.dueOrPending due) record x =
      (pendingEffects record, ⟨record, x⟩) := by
    unfold InMemory.dueOrPending
    split
    · rw [runOn_bind, run_record]
      cases record <;> rfl
    · rename_i hne
      rcases hdue with rfl | rfl
      · exact absurd rfl hne
      · rfl
  unfold InMemory.retryPendingAckEffects retried
  split
  · rw [runOn_bind, hpending, runOn_bind, outward_handleAckEffects _ _ memoryBackend]
    unfold InMemory.confirmEffects
    dsimp only
    split
    · rfl
    · rw [run_amend]
  · rfl

end steps

/-! ### The operations -/

/-- What a durable call returns and leaves, without the version. -/
def viewed {τ α : Type} (result : α × QueueWorld (Option (RunQueueModel × ℕ)) τ) :
    α × QueueWorld (Option RunQueueModel) τ :=
  (result.1, view result.2)

section operations

variable {τ : Type} (services : Services τ) (handler : Bool) (document : Option (RunQueueModel × ℕ))
  (x : Outside τ)

theorem viewed_retry {α : Type} (a : α) :
    viewed (runOn services durableBackend (retryPendingAckEffects handler >>= fun _ => pure a) document x) =
      (a, retried services handler (document.map Prod.fst) x) := by
  rw [runOn_bind, ← run_retry_durable]
  rfl

theorem run_retry {α : Type} (a : α) (record : Option RunQueueModel) :
    runOn services memoryBackend (InMemory.retryPendingAckEffects handler [] >>= fun _ => pure a) record x =
      (a, retried services handler record x) := by
  rw [runOn_bind, run_retry_memory (.inl rfl)]
  rfl

theorem viewed_then_retry {α β : Type} (task : QueueTask β) (a : α) :
    viewed (runOn services durableBackend (task >>= fun _ => retryPendingAckEffects handler >>= fun _ =>
      pure a) document x) =
    (a, retried services handler (view (runOn services durableBackend task document x).2).store
      (view (runOn services durableBackend task document x).2).outside) := by
  rw [runOn_bind, viewed_retry]
  rfl

theorem view_confirmSubmitted {model : RunQueueModel} {version : ℕ} {flipped : List ℕ}
    (hopen : flipped = [] ∨ model.closed = false) :
    view (runOn services durableBackend (confirmFlips flipped [] []) (some (model, version)) x).2 =
      (runOn services memoryBackend (InMemory.confirmSubmitted flipped) (some model) x).2 := by
  rw [run_confirmFlips, run_confirmSubmitted]
  simp only [List.isEmpty_nil, Bool.and_true, confirmRejectFlips_nil, confirmAckEffects_nil,
    Option.map_some, Option.bind_some]
  rcases hopen with rfl | hopen
  · rfl
  · have hkept : reclaimed (model.confirmSubmitFlips flipped) = some (model.confirmSubmitFlips flipped) :=
      reclaimed_of_not_closed hopen
    rw [hkept]

/-- The rest of a call once the flips `flips` are due, on a queue that is open or with none due. -/
theorem flips_agree {model : RunQueueModel} {version : ℕ} {flips : List PendingSubmitFlip}
    {due : List PendingAckEffect} (hopen : flips = [] ∨ model.closed = false)
    (hdue : due = [] ∨ due = model.pendingAckEffects) {α : Type} (a : α) :
    viewed (runOn services durableBackend (flipSubmitted flips >>= fun flipped =>
      confirmFlips flipped [] [] >>= fun _ => retryPendingAckEffects handler >>= fun _ => pure a)
      (some (model, version)) x) =
    runOn services memoryBackend (flipSubmitted flips >>= fun flipped =>
      InMemory.confirmSubmitted flipped >>= fun _ =>
      InMemory.retryPendingAckEffects handler due >>= fun _ => pure a) (some model) x := by
  have hflipped : (outwardly services (flipSubmitted flips) x).1 = [] ∨ model.closed = false := by
    rcases hopen with rfl | hopen
    · exact .inl rfl
    · exact .inr hopen
  rw [runOn_bind, outward_flipSubmitted flips _ durableBackend, viewed_then_retry,
    view_confirmSubmitted services _ hflipped, runOn_bind, outward_flipSubmitted flips _ memoryBackend,
    runOn_bind, run_confirmSubmitted, runOn_bind, run_retry_memory]
  · rfl
  · refine hdue.imp_right fun hdue => hdue.trans ?_
    split <;> rfl

theorem enqueue_agrees (request : EnqueueQueuedMessageRequest) :
    viewed (runOn services durableBackend (enqueueQueuedMessage handler request) document x) =
      runOn services memoryBackend (InMemory.enqueueQueuedMessage handler request)
        (document.map Prod.fst) x := by
  unfold enqueueQueuedMessage
  rw [show maxCasRetries = 7 + 1 from rfl]
  unfold enqueueLoop InMemory.enqueueQueuedMessage InMemory.insert
  rw [runOn_bind, run_load, runOn_bind, runOn_bind, run_record]
  dsimp only
  generalize hmodel : (document.map Prod.fst).getD {} = model
  -- an empty queue issues a sequence, so in every other case there is a document
  have hfound : (∃ version, document = some (model, version)) ∨
      ∃ sequence inserted, model.enqueueDedup request.input request.status =
        .ok (.inserted sequence, inserted) := by
    cases document with
    | none =>
      obtain ⟨inserted, hempty⟩ := enqueueDedup_empty request.input request.status
      exact .inr ⟨1, inserted, hmodel ▸ hempty⟩
    | some document =>
      cases hmodel
      exact .inl ⟨document.2, rfl⟩
  cases hdedup : model.enqueueDedup request.input request.status with
  | error e =>
    obtain ⟨version, rfl⟩ | ⟨sequence, inserted, hinserted⟩ := hfound
    · rfl
    · cases hdedup.symm.trans hinserted
  | ok result =>
    obtain ⟨disposition, inserted⟩ := result
    obtain ⟨hopen, hcases⟩ := enqueueDedup_cases hdedup
    cases disposition with
    | inserted sequence =>
      obtain ⟨attached, hattach, -⟩ := attachAckEffect_inserted request.ackEffect hdedup
      dsimp only
      rw [hattach]
      dsimp only
      rw [runOn_bind, run_store]
      dsimp only
      rw [viewed_retry]
      exact (run_retry services handler x _ (some attached)).symm
    | duplicate sequence =>
      obtain ⟨version, rfl⟩ | ⟨sequence, inserted, hinserted⟩ := hfound
      swap
      · cases hdedup.symm.trans hinserted
      obtain ⟨rfl, -⟩ | ⟨hinserted, -⟩ := hcases
      · dsimp only
        rw [viewed_retry]
        exact (run_retry services handler x _ (some inserted)).symm
      · cases hinserted
    | alreadyConsumed flip =>
      obtain ⟨version, rfl⟩ | ⟨sequence, inserted, hinserted⟩ := hfound
      swap
      · cases hdedup.symm.trans hinserted
      obtain ⟨rfl, -⟩ | ⟨hinserted, -⟩ := hcases
      · exact flips_agree services handler x (.inr hopen) (.inl rfl) _
      · cases hinserted

theorem poll_agrees (after : String) (limit : ℕ) :
    viewed (runOn services durableBackend (nextAfter after limit) document x) =
      runOn services memoryBackend (InMemory.nextAfter after limit) (document.map Prod.fst) x := by
  unfold nextAfter InMemory.nextAfter
  cases cursorSequence after with
  | error e => rfl
  | ok afterSequence =>
    dsimp only
    rw [runOn_bind, run_load, runOn_bind, run_record]
    cases document <;> rfl

/-- The acknowledgement is not refused after it has changed the queue. -/
theorem ack_agrees (tokens : List String)
    (hclean : ∀ model version e partway, document = some (model, version) →
      model.validateAndAck tokens = (.error e, partway) → partway = model) :
    viewed (runOn services durableBackend (ackConsumed handler tokens) document x) =
      runOn services memoryBackend (InMemory.ackConsumed handler tokens) (document.map Prod.fst) x := by
  unfold ackConsumed InMemory.ackConsumed
  rw [runOn_bind, show maxCasRetries = 7 + 1 from rfl]
  unfold ackLoop
  rw [runOn_bind, run_load, runOn_bind, run_record]
  cases document with
  | none => rfl
  | some document =>
    obtain ⟨model, version⟩ := document
    dsimp only [Option.map_some, Option.getD_some]
    cases hack : model.validateAndAck tokens with
    | mk result acked =>
      cases result with
      | error e =>
        have hsame := hclean model version e acked rfl hack
        subst hsame
        rfl
      | ok outcome =>
        obtain ⟨hflips, heffects, hsame⟩ := validateAndAck_ok hack
        dsimp only
        cases hnewly : outcome.newlyAcked with
        | true =>
          rw [if_pos rfl, runOn_bind,
            show some version = Option.map Prod.snd (some (model, version)) from rfl, run_store]
          exact flips_agree services handler x hflips heffects _
        | false =>
          cases hsame hnewly
          exact flips_agree services handler x hflips heffects _

/-- The rest of a reconciliation that keeps the closed queue until its rows are settled. -/
theorem claimed_agree {closed : RunQueueModel} {version : ℕ} (hsettled : closed.isSettled = false) :
    viewed (runOn services durableBackend (flipSubmitted closed.pendingSubmitFlips >>= fun submitted =>
      flipRejectedBusy closed.pendingRejectFlips ⟨[], []⟩ >>= fun outcome =>
      confirmFlips submitted outcome.confirmable [] >>= fun _ => retryPendingAckEffects handler >>= fun _ =>
      pure (Except.ok outcome.flipped : Except HostInputQueueError _)) (some (closed, version)) x) =
    runOn services memoryBackend (flipSubmitted closed.pendingSubmitFlips >>= fun submitted =>
      flipRejectedBusy closed.pendingRejectFlips ⟨[], []⟩ >>= fun outcome =>
      InMemory.amend true (fun model =>
        (model.confirmSubmitFlips submitted).confirmRejectFlips outcome.confirmable) >>= fun _ =>
      InMemory.retryPendingAckEffects handler [] >>= fun _ => pure (.ok outcome.flipped)) (some closed) x := by
  rw [runOn_bind, outward_flipSubmitted _ _ durableBackend, runOn_bind,
    outward_flipRejectedBusy _ _ _ durableBackend, viewed_then_retry, run_confirmFlips,
    runOn_bind, outward_flipSubmitted _ _ memoryBackend, runOn_bind,
    outward_flipRejectedBusy _ _ _ memoryBackend, runOn_bind, run_amend, run_retry]
  simp only [Option.map_some, Option.bind_some, List.isEmpty_nil, Bool.and_true, confirmAckEffects_nil]
  split
  · rename_i hempty
    rw [Bool.and_eq_true, List.isEmpty_iff, List.isEmpty_iff] at hempty
    rw [hempty.1, hempty.2, confirmSubmitFlips_nil, confirmRejectFlips_nil, reclaimed, hsettled]
    rfl
  · rfl

theorem reject_agrees :
    viewed (runOn services durableBackend (rejectUnconsumed handler) document x) =
      runOn services memoryBackend (InMemory.rejectUnconsumed handler) (document.map Prod.fst) x := by
  unfold rejectUnconsumed InMemory.rejectUnconsumed
  rw [runOn_bind, show maxCasRetries = 7 + 1 from rfl]
  unfold rejectLoop
  rw [runOn_bind, run_load, runOn_bind, run_record]
  cases document with
  | none => rfl
  | some document =>
    obtain ⟨model, version⟩ := document
    dsimp only [Option.map_some, Option.getD_some]
    generalize model.closeAndClaim = closed
    rw [runOn_bind, run_storeOrReclaim, runOn_bind, run_leave]
    dsimp only
    cases hsettled : closed.isSettled with
    | true =>
      have hgone : reclaimed closed = none := if_pos hsettled
      obtain ⟨hsubmit, hreject⟩ := pending_nil_of_isSettled hsettled
      rw [hgone, hsubmit, hreject]
      show _ = runOn services memoryBackend (InMemory.amend true (fun model =>
        (model.confirmSubmitFlips []).confirmRejectFlips []) >>= fun _ =>
        InMemory.retryPendingAckEffects handler [] >>= fun _ => pure (Except.ok [])) (some closed) x
      rw [runOn_bind, run_amend, Option.bind_some, confirmRejectFlips_nil, confirmSubmitFlips_nil,
        hgone, run_retry, retried_none]
      rfl
    | false =>
      have hkept : reclaimed closed = some closed := by
        unfold reclaimed
        rw [hsettled]
        rfl
      rw [hkept]
      exact claimed_agree services handler x hsettled

end operations

/-! ### Refused acknowledgements -/

/-- The token names a live input that is not acknowledged. -/
def NamesLive (model : RunQueueModel) (token : String) : Prop :=
  ∃ sequence, ackSequence token = .ok sequence ∧ model.isAcked sequence = false ∧
    ∃ entry ∈ model.entries, entry.sequence = sequence

/-- The token is malformed, or names an input that is neither live nor acknowledged. -/
def RefusedToken (model : RunQueueModel) (token : String) : Prop :=
  ∀ sequence, ackSequence token = .ok sequence →
    model.isAcked sequence = false ∧ ∀ entry ∈ model.entries, entry.sequence ≠ sequence

/-- On an open queue, no token that names a live input stands before a refused one. -/
def CleanAck (model : RunQueueModel) (tokens : List String) : Prop :=
  model.closed = false → ∀ before token after, tokens = before ++ token :: after →
    RefusedToken model token → ∀ earlier ∈ before, ¬ NamesLive model earlier

theorem exists_refused_of_error : ∀ {tokens : List String} {newly : List ℕ} {model partway : RunQueueModel}
    {e : HostInputQueueError}, RunQueueModel.consumeTokens tokens newly model = (.error e, partway) →
    ∃ before token after, tokens = before ++ token :: after ∧ RefusedToken model token
  | [], _, _, _, _, h => by cases h
  | token :: rest, newly, model, partway, e, h => by
    unfold RunQueueModel.consumeTokens at h
    split at h
    · rename_i hmalformed
      refine ⟨[], token, rest, rfl, fun sequence hsequence => ?_⟩
      cases hmalformed.symm.trans hsequence
    · rename_i sequence hsequence
      split at h
      · obtain ⟨before, refused, after, rfl, hrefused⟩ := exists_refused_of_error h
        exact ⟨token :: before, refused, after, rfl, hrefused⟩
      · rename_i hacked
        split at h
        · rename_i hnone
          refine ⟨[], token, rest, rfl, fun other hother => ?_⟩
          cases hsequence.symm.trans hother
          refine ⟨by simpa using hacked, fun entry hentry => ?_⟩
          simpa using List.find?_eq_none.1 hnone entry hentry
        · obtain ⟨before, refused, after, rfl, hrefused⟩ := exists_refused_of_error h
          exact ⟨token :: before, refused, after, rfl, hrefused⟩

theorem eq_of_clean_error : ∀ {tokens : List String} {newly : List ℕ} {model partway : RunQueueModel}
    {e : HostInputQueueError}, RunQueueModel.consumeTokens tokens newly model = (.error e, partway) →
    (∀ before token after, tokens = before ++ token :: after → RefusedToken model token →
      ∀ earlier ∈ before, ¬ NamesLive model earlier) → partway = model
  | [], _, _, _, _, h, _ => by cases h
  | token :: rest, newly, model, partway, e, h, hclean => by
    unfold RunQueueModel.consumeTokens at h
    split at h
    · cases h
      rfl
    · rename_i sequence hsequence
      split at h
      · refine eq_of_clean_error h fun before refused after heq hrefused earlier hearlier => ?_
        exact hclean (token :: before) refused after (by rw [heq]; rfl) hrefused earlier
          (List.mem_cons_of_mem _ hearlier)
      · rename_i hacked
        split at h
        · cases h
          rfl
        · rename_i entry hentry
          obtain ⟨before, refused, after, rfl, hrefused⟩ := exists_refused_of_error h
          refine absurd ⟨sequence, hsequence, by simpa using hacked, entry,
            List.mem_of_find?_eq_some hentry, by simpa using List.find?_some hentry⟩
            (hclean (token :: before) refused after rfl hrefused token List.mem_cons_self)

theorem CleanAck.eq_of_error {model partway : RunQueueModel} {tokens : List String}
    {e : HostInputQueueError} (hclean : CleanAck model tokens)
    (h : model.validateAndAck tokens = (.error e, partway)) : partway = model := by
  unfold RunQueueModel.validateAndAck at h
  split at h
  · cases h
  · rename_i hclosed
    split at h
    · rename_i hconsume
      cases h
      exact eq_of_clean_error hconsume (hclean (by simpa using hclosed))
    · cases h

/-! ### Calls one after the other -/

section calls

variable {τ : Type} (services : Services τ) (handler : Bool)

/-- The results of the calls, each with its program, and where they lead. -/
def runCalls {δ : Type} (backend : Backend δ) (program : QueueCall → QueueTask QueueResult) :
    List QueueCall → QueueWorld δ τ → List QueueResult × QueueWorld δ τ
  | [], world => ([], world)
  | call :: calls, world =>
    let ran := runOn services backend (program call) world.store world.outside
    let rest := runCalls backend program calls ran.2
    (ran.1 :: rest.1, rest.2)

/-- An acknowledgement is clean on the queue it finds. -/
def QueueCall.Clean (record : Option RunQueueModel) : QueueCall → Prop
  | .ack tokens => ∀ model, record = some model → CleanAck model tokens
  | _ => True

/-- Every acknowledgement is clean on the queue that the durable calls before it leave. -/
def CleanRun : List QueueCall → QueueWorld (Option (RunQueueModel × ℕ)) τ → Prop
  | [], _ => True
  | call :: calls, world => call.Clean (world.store.map Prod.fst) ∧
      CleanRun calls (runOn services durableBackend (call.durable handler) world.store world.outside).2

theorem viewed_map {α β : Type} {task task' : QueueTask α} (f : α → β)
    {world : QueueWorld (Option (RunQueueModel × ℕ)) τ}
    (h : viewed (runOn services durableBackend task world.store world.outside) =
      runOn services memoryBackend task' (world.store.map Prod.fst) world.outside) :
    viewed (runOn services durableBackend (f <$> task) world.store world.outside) =
      runOn services memoryBackend (f <$> task') (world.store.map Prod.fst) world.outside := by
  show viewed (runOn services durableBackend (task >>= fun a => pure (f a)) _ _) =
    runOn services memoryBackend (task' >>= fun a => pure (f a)) _ _
  rw [runOn_bind, runOn_bind, ← h]
  rfl

theorem call_agrees (call : QueueCall) (world : QueueWorld (Option (RunQueueModel × ℕ)) τ)
    (hclean : call.Clean (world.store.map Prod.fst)) :
    viewed (runOn services durableBackend (call.durable handler) world.store world.outside) =
      runOn services memoryBackend (call.inMemory handler) (view world).store (view world).outside := by
  cases call with
  | enqueue request => exact viewed_map services _ (enqueue_agrees services handler _ _ request)
  | poll after limit => exact viewed_map services _ (poll_agrees services _ _ after limit)
  | ack tokens =>
    refine viewed_map services _ (ack_agrees services handler _ _ tokens ?_)
    intro model version e partway hstore herror
    exact (hclean model (by rw [hstore]; rfl)).eq_of_error herror
  | reject => exact viewed_map services _ (reject_agrees services handler _ _)

/-- Made one after the other, the calls return the same results from both queues, make the same transcript
updates and leave the same queue, when every acknowledgement is clean. -/
theorem input_queues_agree (calls : List QueueCall) (world : QueueWorld (Option (RunQueueModel × ℕ)) τ)
    (hclean : CleanRun services handler calls world) :
    (runCalls services durableBackend (·.durable handler) calls world).1 =
        (runCalls services memoryBackend (·.inMemory handler) calls (view world)).1 ∧
      view (runCalls services durableBackend (·.durable handler) calls world).2 =
        (runCalls services memoryBackend (·.inMemory handler) calls (view world)).2 := by
  induction calls generalizing world with
  | nil => exact ⟨rfl, rfl⟩
  | cons call calls ih =>
    obtain ⟨hcall, hrest⟩ := hclean
    have hagrees := call_agrees services handler call world hcall
    rw [Prod.ext_iff] at hagrees
    obtain ⟨hresults, hworlds⟩ := ih _ hrest
    have hview : view (runOn services durableBackend (call.durable handler) world.store world.outside).2 =
        _ := hagrees.2
    rw [hview] at hresults hworlds
    refine ⟨?_, hworlds⟩
    simp only [runCalls]
    rw [hresults, ← hagrees.1]
    rfl

end calls

/-! ### A refused acknowledgement -/

/-- Every update succeeds. -/
def succeeding : Services Unit where
  markMessageSubmitted _ _ := (true, ())
  markMessageRejectedBusy _ _ := (true, ())
  readThreadMessage _ _ := (none, ())
  handleAckEffect _ _ := (true, ())

def freshRun : QueueWorld (Option (RunQueueModel × ℕ)) Unit := ⟨none, ⟨(), []⟩⟩

/-- A message, an acknowledgement of it that also names an unknown input, and one of nothing. -/
def refusedAck : List QueueCall :=
  [.enqueue (steeringRequest 1 "msg:first"), .ack ["input-ack:1", "input-ack:9"], .ack []]

/-- Both queues refuse the acknowledgement. The in-memory queue then flips the row of the message, which
still waits to be consumed; the durable queue does not. -/
theorem refused_ack_flips_in_memory :
    (runCalls succeeding durableBackend (·.durable false) refusedAck freshRun).2.outside.updates = [] ∧
      (runCalls succeeding memoryBackend (·.inMemory false) refusedAck (view freshRun)).2.outside.updates =
        [.submitted (steeringRequest 1 "msg:first").status true] := by
  decide +kernel

theorem cleanAck_singleton (model : RunQueueModel) (token : String) : CleanAck model [token] := by
  intro _ before refused after heq _ earlier hearlier
  cases before with
  | nil => cases hearlier
  | cons first before => simp at heq

/-- A message that is polled and acknowledged, and the reconciliation. -/
def consumedMessage : List QueueCall :=
  [.enqueue (steeringRequest 1 "msg:first"), .poll cursorOrigin 8, .ack ["input-ack:1"], .reject]

theorem consumed_message_agrees :
    (runCalls succeeding durableBackend (·.durable false) consumedMessage freshRun).1 =
      (runCalls succeeding memoryBackend (·.inMemory false) consumedMessage (view freshRun)).1 ∧
    (runCalls succeeding memoryBackend (·.inMemory false) consumedMessage (view freshRun)).2.outside.updates =
      [.submitted (steeringRequest 1 "msg:first").status true] := by
  have hclean : CleanRun succeeding false consumedMessage freshRun :=
    ⟨trivial, trivial, fun model _ => cleanAck_singleton model _, trivial, trivial⟩
  exact ⟨(input_queues_agree succeeding false consumedMessage freshRun hclean).1, by decide +kernel⟩

end Ironclaw.LoopHost
