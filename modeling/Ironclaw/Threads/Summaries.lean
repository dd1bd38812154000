import Ironclaw.Lib.Paging
import Ironclaw.Lib.Task
import Ironclaw.Threads.Contract

/-! # Creating a summary in the filesystem service

`create_summary_artifact` of `filesystem_service.rs` and the overlap test of
`summary_artifacts.rs`. A call checks that the ends of its range are messages, lists the stored
summaries page by page, tests the request against what it has listed, and puts the new artifact
under a path made from a fresh id. The put asks for nothing but the absence of that path, so that
what it relies on is the listing.

`SummaryStore` is the summaries of one thread. `SummaryStore.Served` answers the requests of the
calls: reads see the rows that are stored at that moment, a request may fail, and a put that fails
may have taken effect. `began` is a ghost: how many rows were stored when the call began its
listing. -/

namespace Ironclaw.Threads

open LoopHost (ThreadScope)

/-! ### The overlap test -/

def isExactCompactionSummaryReplay (summary : SummaryArtifact)
    (request : CreateSummaryArtifactRequest) (content : String) : Bool :=
  summary.threadId = request.threadId ∧ summary.startSequence = request.startSequence ∧
    summary.endSequence = request.endSequence ∧ summary.content = content ∧
    summary.modelContextPolicy = request.modelContextPolicy ∧
    summary.contextMode = request.contextMode

def rangesOverlap (leftStart leftEnd rightStart rightEnd : ℕ) : Bool :=
  leftStart ≤ rightEnd ∧ rightStart ≤ leftEnd

variable (summaries : List SummaryArtifact)

/-- The barriers a request for a barrier is compared with. -/
def requestBarriers (request : CreateSummaryArtifactRequest) : List SummaryArtifact :=
  summaries.filter fun summary =>
    summary.contextMode = some .cumulativeBarrier ∧ request.summaryKind = .compaction ∧
      summary.summaryKind = request.summaryKind

/-- The replacement summaries that meet the range of a request. -/
def requestOverlaps (request : CreateSummaryArtifactRequest) : List SummaryArtifact :=
  summaries.filter fun summary =>
    summary.modelContextPolicy = some .replaceRangeWhenSelected ∧
      rangesOverlap request.startSequence request.endSequence summary.startSequence
        summary.endSequence = true

def findOverlappingSummary (request : CreateSummaryArtifactRequest) (content : String) :
    Except SessionThreadError (Option SummaryArtifact) :=
  let overlapping := SessionThreadError.overlappingSummaryRange request.startSequence
    request.endSequence
  match request.modelContextPolicy with
  | none => .ok none
  | some policy =>
    if request.contextMode = some .cumulativeBarrier then
      if policy ≠ .replaceRangeWhenSelected ∨ request.startSequence ≠ 1 then
        .error (.invalidSummaryRange request.startSequence request.endSequence)
      else
        let barriers := requestBarriers summaries request
        match barriers.find? (isExactCompactionSummaryReplay · request content) with
        | some replayed => .ok (some replayed)
        | none =>
          if barriers.any (request.endSequence ≤ ·.endSequence) then .error overlapping
          else .ok none
    else
      match requestOverlaps summaries request with
      | [] => .ok none
      | [summary] =>
        if request.summaryKind = .compaction ∧ summary.summaryKind = request.summaryKind ∧
            isExactCompactionSummaryReplay summary request content = true then
          .ok (some summary)
        else .error overlapping
      | _ => .error overlapping

/-! ### The call -/

/-- `Page::MAX_LIMIT`. -/
def pageMaxLimit : ℕ := 1024

/-- Place of a summary in the index `thread_summary_sequence_v2`: its start, then its id. -/
def SummaryArtifact.position (summary : SummaryArtifact) : ℕ ×ₗ ℕ :=
  toLex (summary.startSequence, summary.summaryId.asUuid.toNat)

/-- Why a put stores nothing. -/
inductive PutError where
  | versionMismatch
  | other (error : SessionThreadError)

/-- What a call asks its surroundings for. -/
inductive SummaryRequest where
  | materializeMessageRange (afterSequence throughSequence : ℕ)
  | ensureTranscriptIndexesMigrated
  | queryOrdered (after : Option (ℕ ×ₗ ℕ))
  | newSummaryId
  | putAbsent (artifact : SummaryArtifact)

def SummaryRequest.Answer : SummaryRequest → Type
  | .materializeMessageRange _ _ => Except SessionThreadError (List ThreadMessageRecord)
  | .ensureTranscriptIndexesMigrated => Except SessionThreadError Unit
  | .queryOrdered _ => Except SessionThreadError (List SummaryArtifact)
  | .newSummaryId => SummaryArtifactId
  | .putAbsent _ => Except PutError Unit

abbrev SummaryTask (α : Type) := Task SummaryRequest.Answer α

/-- The result of a call; there is none while it goes on listing. -/
abbrev SummaryOutcome (α : Type) := Option (Except SessionThreadError α)

def materializeMessageRange (afterSequence throughSequence : ℕ) :
    SummaryTask (Except SessionThreadError (List ThreadMessageRecord)) :=
  Task.request (SummaryRequest.materializeMessageRange afterSequence throughSequence)

def ensureTranscriptIndexesMigrated : SummaryTask (Except SessionThreadError Unit) :=
  Task.request SummaryRequest.ensureTranscriptIndexesMigrated

def queryOrdered (after : Option (ℕ ×ₗ ℕ)) :
    SummaryTask (Except SessionThreadError (List SummaryArtifact)) :=
  Task.request (SummaryRequest.queryOrdered after)

def newSummaryId : SummaryTask SummaryArtifactId := Task.request SummaryRequest.newSummaryId

def putAbsent (artifact : SummaryArtifact) : SummaryTask (Except PutError Unit) :=
  Task.request (SummaryRequest.putAbsent artifact)

/-- Order of a listing: by start, end and id. -/
def SummaryArtifact.listedBefore (a b : SummaryArtifact) : Bool :=
  toLex (a.startSequence, toLex (a.endSequence, a.summaryId.asUuid.toNat)) ≤
    toLex (b.startSequence, toLex (b.endSequence, b.summaryId.asUuid.toNat))

/-- The pages of a listing from a cursor on; `fuel` bounds the number of pages looked at. -/
def listPages (threadId : ThreadId) :
    ℕ → Option (ℕ ×ₗ ℕ) → List SummaryArtifact → SummaryTask (SummaryOutcome (List SummaryArtifact))
  | 0, _, _ => pure none
  | fuel + 1, cursor, summaries =>
    queryOrdered cursor >>= fun
      | .error e => pure (some (.error e))
      | .ok entries =>
        let summaries := summaries ++ entries.filter (·.threadId = threadId)
        if entries.length < pageMaxLimit then
          pure (some (.ok (summaries.mergeSort SummaryArtifact.listedBefore)))
        else listPages threadId fuel (entries.getLast?.map (·.position)) summaries

def listThreadSummaries (fuel : ℕ) (threadId : ThreadId) :
    SummaryTask (SummaryOutcome (List SummaryArtifact)) :=
  ensureTranscriptIndexesMigrated >>= fun
    | .error e => pure (some (.error e))
    | .ok () => listPages threadId fuel none []

/-- The artifact a request asks for, under an id. -/
def CreateSummaryArtifactRequest.artifact (request : CreateSummaryArtifactRequest)
    (summaryId : SummaryArtifactId) : SummaryArtifact where
  summaryId := summaryId
  threadId := request.threadId
  startSequence := request.startSequence
  endSequence := request.endSequence
  summaryKind := request.summaryKind
  content := request.content.text
  modelContextPolicy := request.modelContextPolicy
  contextMode := request.contextMode

/-- Largest sequence that the index can hold. -/
def i64Max : ℕ := 9223372036854775807

variable (recordPath : SummaryArtifactId → String)

/-- `create_summary_artifact` once the request has passed the overlap test. -/
def putSummary (request : CreateSummaryArtifactRequest) :
    SummaryTask (SummaryOutcome SummaryArtifact) :=
  newSummaryId >>= fun summaryId =>
    if i64Max < request.startSequence then
      pure (some (.error (.backend "summary start sequence exceeds indexed integer range")))
    else
      putAbsent (request.artifact summaryId) >>= fun
        | .ok () => pure (some (.ok (request.artifact summaryId)))
        | .error .versionMismatch => pure (some (.error (.backend
            ("filesystem CAS Absent rejected new summary artifact at " ++ recordPath summaryId))))
        | .error (.other e) => pure (some (.error e))

/-- `create_summary_artifact` once the stored summaries have been listed. -/
def putUnlessOverlapping (request : CreateSummaryArtifactRequest)
    (existing : List SummaryArtifact) :
    SummaryTask (SummaryOutcome SummaryArtifact) :=
  match findOverlappingSummary existing request request.content.text with
  | .error e => pure (some (.error e))
  | .ok (some overlapping) => pure (some (.ok overlapping))
  | .ok none => putSummary recordPath request

/-- `create_summary_artifact` once the ends of the range have been found. -/
def testAndPutSummary (fuel : ℕ)
    (request : CreateSummaryArtifactRequest) :
    SummaryTask (SummaryOutcome SummaryArtifact) :=
  listThreadSummaries fuel request.threadId >>= fun
    | none => pure none
    | some (.error e) => pure (some (.error e))
    | some (.ok existing) => putUnlessOverlapping recordPath request existing

def createSummaryArtifact (fuel : ℕ)
    (request : CreateSummaryArtifactRequest) :
    SummaryTask (SummaryOutcome SummaryArtifact) :=
  let invalid := SessionThreadError.invalidSummaryRange request.startSequence request.endSequence
  if request.startSequence = 0 ∨ request.endSequence < request.startSequence then
    pure (some (.error invalid))
  else
    materializeMessageRange (request.startSequence - 1) request.endSequence >>= fun
      | .error e => pure (some (.error e))
      | .ok messages =>
        if messages.all (·.sequence ≠ request.startSequence) ∨
            messages.all (·.sequence ≠ request.endSequence) then
          pure (some (.error invalid))
        else testAndPutSummary recordPath fuel request

/-! ### The store -/

/-- The summaries of a thread, in the order they were stored. -/
structure SummaryStore (ι : Type) where
  summaries : List SummaryArtifact
  began : ι → ℕ

namespace SummaryStore

variable {ι : Type} [DecidableEq ι]

variable (s : SummaryStore ι)

/-- The rows in the order of the index. -/
def indexed : List SummaryArtifact :=
  s.summaries.mergeSort fun a b => a.position ≤ b.position

/-- A listing starts: the rows stored at this moment are those it will have to show. -/
def beginListing (i : ι) : SummaryStore ι :=
  { s with began := Function.update s.began i s.summaries.length }

/-- The store after a page of the listing of a call was read. -/
def queried (i : ι) (cursor : Option (ℕ ×ₗ ℕ)) : SummaryStore ι :=
  if cursor = none then s.beginListing i else s

omit [DecidableEq ι] in
/-- The page of the index that comes after a cursor. -/
def nextPage (cursor : Option (ℕ ×ₗ ℕ)) : List SummaryArtifact :=
  pageAfter SummaryArtifact.position pageMaxLimit s.indexed cursor

def store (artifact : SummaryArtifact) : SummaryStore ι :=
  { s with summaries := s.summaries ++ [artifact] }

/-- Nothing has been stored since the listing of a call began. -/
def Unchanged (i : ι) : Prop := s.summaries.length = s.began i

/-- The answers to a request of the call `i`, with the store after it. -/
inductive Served : SummaryStore ι → (r : ι × SummaryRequest) → r.2.Answer → SummaryStore ι → Prop
  | materialize {s : SummaryStore ι} {i : ι} {after through : ℕ}
      (answer : Except SessionThreadError (List ThreadMessageRecord)) :
      Served s (i, .materializeMessageRange after through) answer s
  | ensureIndexes {s : SummaryStore ι} {i : ι} (answer : Except SessionThreadError Unit) :
      Served s (i, .ensureTranscriptIndexesMigrated) answer s
  | query {s : SummaryStore ι} {i : ι} {after : Option (ℕ ×ₗ ℕ)} :
      Served s (i, .queryOrdered after)
        (Except.ok (s.nextPage after) : Except SessionThreadError (List SummaryArtifact))
        (s.queried i after)
  | queryFails {s : SummaryStore ι} {i : ι} {after : Option (ℕ ×ₗ ℕ)} (e : SessionThreadError) :
      Served s (i, .queryOrdered after)
        (Except.error e : Except SessionThreadError (List SummaryArtifact)) s
  | newId {s : SummaryStore ι} {i : ι} (summaryId : SummaryArtifactId) :
      Served s (i, .newSummaryId) summaryId s
  | put {s : SummaryStore ι} {i : ι} {artifact : SummaryArtifact} {answer : Except PutError Unit}
      (absent : ∀ row ∈ s.summaries, row.summaryId ≠ artifact.summaryId)
      (hanswer : answer = .ok () ∨ ∃ e, answer = .error (.other e)) :
      Served s (i, .putAbsent artifact) answer (s.store artifact)
  | putFails {s : SummaryStore ι} {i : ι} {artifact : SummaryArtifact} (e : PutError) :
      Served s (i, .putAbsent artifact) (Except.error e : Except PutError Unit) s

/-- The same, where a call that stores a summary finds the store as it was when its listing
began. -/
def ServedQuietly (r : ι × SummaryRequest) (a : r.2.Answer)
    (s' : SummaryStore ι) : Prop :=
  Served s r a s' ∧ (s'.summaries ≠ s.summaries → s.Unchanged r.1)

/-- The storage does not fail, and the ends of the range are messages of the thread. -/
def Answered : (r : SummaryRequest) → r.Answer → Prop
  | .materializeMessageRange afterSequence throughSequence, answer =>
    ∃ messages : List ThreadMessageRecord, answer = Except.ok messages ∧
      (∃ message ∈ messages, message.sequence = afterSequence + 1) ∧
      ∃ message ∈ messages, message.sequence = throughSequence
  | .ensureTranscriptIndexesMigrated, answer => answer = Except.ok ()
  | .queryOrdered _, answer => ∃ entries : List SummaryArtifact, answer = Except.ok entries
  | .newSummaryId, _ => True
  | .putAbsent _, _ => True

/-- The same, where moreover the requests of the calls in `steady` are answered. -/
def ServedSteadily (steady : ι → Prop) (s : SummaryStore ι) (r : ι × SummaryRequest)
    (a : r.2.Answer) (s' : SummaryStore ι) : Prop :=
  ServedQuietly s r a s' ∧ (steady r.1 → Answered r.2 a)

/-- Any number of calls on one store. -/
abbrev System (ι : Type) :=
  Shared (fun r : ι × SummaryRequest => r.2.Answer) (SummaryStore ι)
    fun _ : ι => SummaryOutcome SummaryArtifact

/-- Every call is about to start. -/
def System.start (recordPath : SummaryArtifactId → String) (fuel : ℕ)
    (calls : ι → CreateSummaryArtifactRequest) (summaries : List SummaryArtifact) : System ι where
  state := ⟨summaries, fun _ => 0⟩
  task i := (createSummaryArtifact recordPath fuel (calls i)).tag i

end SummaryStore

end Ironclaw.Threads
