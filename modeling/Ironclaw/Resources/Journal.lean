import Ironclaw.Resources.Coherence

/-! # The delta journal and the life cycle of the authority

The parts of `filesystem_governor.rs` and `filesystem_governor/journal.rs` that run concurrently:
the threads that execute calls, the slot that holds the current authority, the journal's generation
and channel, and the flusher threads that write batches to the log.

* `System.next` executes one action of one thread or of one flusher. An action ends where the
  source takes or releases a lock or reads or writes something that others write, so that every
  interleaving of the source is a sequence of actions.
* A call is one thread. `Thread` is how far it has got; `locked` is the thread inside the mutex of
  the slot, which `authority` holds while it loads and `enqueue_delta` while it sends.
* A request to a flusher also is its acknowledgement channel: `acks` is what has been sent on it.
* A failed append leaves the log unchanged; retries inside one append are not visible. -/

namespace Ironclaw.Resources

variable {Tz : Type}

def deltaJournalMaxBatch : ℕ := 256

/-- A delta on its way to the log, with the generation it is stamped with and the authority it was
computed from. -/
structure DeltaJournalRequest (Tz : Type) where
  id : ℕ
  delta : ResourceGovernorDelta Tz
  generation : ℕ
  authority : ℕ
deriving DecidableEq

/-- A record of the log, with the generation of the journal when it was appended. -/
structure LogRecord (Tz : Type) where
  request : DeltaJournalRequest Tz
  appendedAt : ℕ

/-- What a caller is told: the sequence number, or a failure that is transient or fatal. -/
inductive Ack where
  | ok | transient | fatal
deriving DecidableEq

/-- How far a flusher has got. `persisted` and `rejected` have written, or failed to, and have not
told the callers; `exiting` has left the loop and still has its receiver; `broken` has no runtime
and fails every request. -/
inductive Phase (Tz : Type) where
  | idle
  | collecting (requests : List (DeltaJournalRequest Tz))
  | persisting (requests : List (DeltaJournalRequest Tz))
  | persisted (requests : List (DeltaJournalRequest Tz))
  | rejected (requests : List (DeltaJournalRequest Tz)) (ack : Ack)
  | exiting
  | stopped
  | broken
deriving DecidableEq

structure Flusher (Tz : Type) where
  queue : List (DeltaJournalRequest Tz)
  phase : Phase Tz

inductive AuthorityLifecycle where
  | vacant
  | ready (authority : ℕ) (generation : ℕ)
  | recovering

/-- How far a call has got. `poisoning` has entered `invalidate_authority`; `retired` is inside
`restart`, after the generation was raised; `restarted` has the result of `restart`. -/
inductive Thread (Tz : Type) where
  | idle
  | loading (generation : ℕ)
  | loaded (generation : ℕ) (state : ResourceState Tz)
  | fetched (authority : ℕ)
  | available (authority : ℕ)
  | applied (authority : ℕ) (delta : ResourceGovernorDelta Tz)
  | sending (authority : ℕ) (delta : ResourceGovernorDelta Tz) (generation : ℕ)
  | waiting (request : DeltaJournalRequest Tz)
  | discarding (authority : ℕ)
  | poisoning (authority : ℕ)
  | invalidating (authority : ℕ)
  | restarting (authority : ℕ)
  | retired (authority : ℕ)
  | restarted (authority : ℕ) (replaced : Bool)
  | succeeded (request : Option (DeltaJournalRequest Tz))
  | failed

/-- `loadedAt` is the generation an authority was loaded at, and is not read by the code. -/
structure System (Tz : Type) where
  log : List (LogRecord Tz)
  generation : ℕ
  slot : AuthorityLifecycle
  locked : Option ℕ
  authorities : ℕ → AuthorityObject Tz
  poisoned : ℕ → Bool
  loadedAt : ℕ → ℕ
  nextAuthority : ℕ
  flushers : ℕ → Flusher Tz
  sender : ℕ
  acks : DeltaJournalRequest Tz → Option Ack
  nextRequest : ℕ
  threads : ℕ → Thread Tz

/-- What a thread does next; the arguments are what the environment decides. -/
inductive ThreadAction (Tz : Type) where
  | load
  | replay (readable : Bool)
  | install
  | fetch
  | check
  | operate (call : Call Tz) (now : ℤ)
  | enqueue
  | send
  | receive
  | discard
  | poison
  | invalidate
  | retire
  | spawn (started hasRuntime : Bool)
  | finish

/-- What a flusher does next. -/
inductive FlusherAction where
  | receiveFirst
  | receiveMore
  | retain
  | append (outcome : Ack)
  | acknowledge
  | stop
  | refuse
  | disconnect

inductive Action (Tz : Type) where
  | thread (t : ℕ) (action : ThreadAction Tz)
  | flusher (k : ℕ) (action : FlusherAction)

/-- The call that an action executes. -/
def Action.call : Action Tz → Option (Call Tz)
  | .thread _ (.operate call _) => some call
  | _ => none

namespace System

/-! ### Updates -/

def setThread (s : System Tz) (t : ℕ) (x : Thread Tz) : System Tz :=
  { s with threads := fun u => if u = t then x else s.threads u }

def setFlusher (s : System Tz) (k : ℕ) (f : Flusher Tz) : System Tz :=
  { s with flushers := fun j => if j = k then f else s.flushers j }

def setAuthority (s : System Tz) (a : ℕ) (object : AuthorityObject Tz) : System Tz :=
  { s with authorities := fun b => if b = a then object else s.authorities b }

/-- Release the locks a thread has on an authority. -/
def release (s : System Tz) (a t : ℕ) : System Tz :=
  s.setAuthority a
    { s.authorities a with
      applied := (s.authorities a).applied.filter fun p => decide (p.thread ≠ t) }

variable [DecidableEq Tz]

/-- Send an acknowledgement to some callers. -/
def tell (s : System Tz) (requests : List (DeltaJournalRequest Tz)) (ack : Ack) : System Tz :=
  { s with acks := fun r => if r ∈ requests then some ack else s.acks r }

/-- The records of the log, as they were encoded when they were appended. -/
def payloads [DeltaCodec Tz] (s : System Tz) : List (DeltaCodec.Payload Tz) :=
  s.log.map fun e => DeltaCodec.encode e.request.delta

/-! ### Flushers -/

/-- `run_delta_journal_flusher`, from one visible action to the next. -/
def flush (s : System Tz) (k : ℕ) : FlusherAction → Option (System Tz)
  | .receiveFirst =>
    match (s.flushers k).phase, (s.flushers k).queue with
    | .idle, r :: queue => some (s.setFlusher k ⟨queue, .collecting [r]⟩)
    | _, _ => none
  | .receiveMore =>
    match (s.flushers k).phase, (s.flushers k).queue with
    | .collecting requests, r :: queue =>
      if requests.length < deltaJournalMaxBatch then
        some (s.setFlusher k ⟨queue, .collecting (requests ++ [r])⟩)
      else none
    | _, _ => none
  | .retain =>
    match (s.flushers k).phase with
    | .collecting requests =>
      let kept := requests.filter fun r => decide (r.generation = s.generation)
      let dropped := requests.filter fun r => decide (r.generation ≠ s.generation)
      some ((s.tell dropped .transient).setFlusher k
        ⟨(s.flushers k).queue, if kept = [] then .idle else .persisting kept⟩)
    | _ => none
  | .append outcome =>
    match (s.flushers k).phase with
    | .persisting requests =>
      match outcome with
      | .ok =>
        some { s.setFlusher k ⟨(s.flushers k).queue, .persisted requests⟩ with
          log := s.log ++ requests.map (⟨·, s.generation⟩) }
      -- the generation is retired before any caller learns of the failure
      | failure =>
        some { s.setFlusher k ⟨(s.flushers k).queue, .rejected requests failure⟩ with
          generation := s.generation + 1 }
    | _ => none
  | .acknowledge =>
    match (s.flushers k).phase with
    | .persisted requests =>
      some ((s.tell requests .ok).setFlusher k ⟨(s.flushers k).queue, .idle⟩)
    | .rejected requests ack =>
      some ((s.tell requests ack).setFlusher k
        ⟨(s.flushers k).queue, if ack = .transient then .idle else .exiting⟩)
    | _ => none
  -- the receiver is dropped with what is still queued
  | .stop =>
    match (s.flushers k).phase with
    | .exiting => some ((s.tell (s.flushers k).queue .fatal).setFlusher k ⟨[], .stopped⟩)
    | _ => none
  | .refuse =>
    match (s.flushers k).phase, (s.flushers k).queue with
    | .broken, r :: queue => some ((s.tell [r] .fatal).setFlusher k ⟨queue, .broken⟩)
    | _, _ => none
  -- the sender was dropped: the loop ends when the queue is empty
  | .disconnect =>
    if k = s.sender then none
    else
      match (s.flushers k).phase, (s.flushers k).queue with
      | .idle, [] => some (s.setFlusher k ⟨[], .stopped⟩)
      | .broken, [] => some (s.setFlusher k ⟨[], .stopped⟩)
      | _, _ => none

/-! ### Threads -/

/-- Give up in `enqueue_delta`; the caller goes on to `invalidate_authority`. The source keeps the
locks until that returns; to give them back here only adds interleavings. -/
def refuseDelta (s : System Tz) (t a : ℕ) : System Tz :=
  (s.release a t).setThread t (.poisoning a)

/-- `enqueue_delta` up to the generation check of the journal's `enqueue`. -/
def enqueueDelta (s : System Tz) (t a : ℕ) (delta : ResourceGovernorDelta Tz) : System Tz :=
  match s.slot with
  | .ready current generation =>
    if current ≠ a then s.refuseDelta t a
    else if s.poisoned a then s.refuseDelta t a
    else if generation ≠ s.generation then { s.refuseDelta t a with slot := .vacant }
    else { s.setThread t (.sending a delta generation) with locked := some t }
  | _ => s.refuseDelta t a

/-- The rest of the journal's `enqueue`: a send fails only when the receiver is gone. -/
def sendDelta (s : System Tz) (t a : ℕ) (delta : ResourceGovernorDelta Tz) (generation : ℕ) :
    System Tz :=
  let flusher := s.flushers s.sender
  if flusher.phase = .stopped then { s.refuseDelta t a with locked := none }
  else
    let request : DeltaJournalRequest Tz := ⟨s.nextRequest, delta, generation, a⟩
    { ((s.release a t).setThread t (.waiting request)).setFlusher s.sender
        { flusher with queue := flusher.queue ++ [request] } with
      locked := none
      nextRequest := s.nextRequest + 1 }

def isCurrent (s : System Tz) (a : ℕ) : Bool :=
  match s.slot with
  | .ready current _ => decide (current = a)
  | _ => false

variable [Platform Tz] [DeltaCodec Tz] (index : ShardIndex) (snapshot : ResourceState Tz)
  (earlier : List (DeltaCodec.Payload Tz))

/-- A call, once it has its locks; an operation without a delta returns at once. -/
def operateAuthority (s : System Tz) (t a : ℕ) (call : Call Tz) (now : ℤ) : System Tz :=
  let object := s.authorities a
  let o := object.memory.operate index call now
  match o.delta with
  | some delta =>
    (s.setAuthority a
      { object with
        memory := o.authority
        applied := ⟨t, call.footprint object.memory.reservations, delta⟩ :: object.applied
      }).setThread t (.applied a delta)
  | none =>
    (s.setAuthority a { object with memory := o.authority }).setThread t
      (match o.reply with
      | .ok _ => .succeeded none
      | .error _ => .failed)

/-- What a thread does next. -/
def act (s : System Tz) (t : ℕ) : ThreadAction Tz → Option (System Tz)
  -- `authority`, when the slot is vacant: the generation is read before the load
  | .load =>
    match s.threads t, s.slot, s.locked with
    | .idle, .vacant, none =>
      some { s.setThread t (.loading s.generation) with locked := some t }
    | _, _, _ => none
  | .replay readable =>
    match s.threads t with
    | .loading generation =>
      match readable, replayJournal snapshot (earlier ++ s.payloads) with
      | true, .ok state => some (s.setThread t (.loaded generation state))
      | _, _ => some { s.setThread t .failed with locked := none }
    | _ => none
  | .install =>
    match s.threads t with
    | .loaded generation state =>
      some { (s.setAuthority s.nextAuthority ⟨.fromState index state, []⟩).setThread t
          (.fetched s.nextAuthority) with
        poisoned := fun b => if b = s.nextAuthority then false else s.poisoned b
        loadedAt := fun b => if b = s.nextAuthority then generation else s.loadedAt b
        slot := .ready s.nextAuthority generation
        nextAuthority := s.nextAuthority + 1
        locked := none }
    | _ => none
  | .fetch =>
    match s.threads t, s.slot, s.locked with
    | .idle, .ready a _, none => some (s.setThread t (.fetched a))
    | .idle, .recovering, none => some (s.setThread t .failed)
    | _, _, _ => none
  | .check =>
    match s.threads t with
    | .fetched a =>
      some (s.setThread t (if s.poisoned a then .failed else .available a))
    | _ => none
  | .operate call now =>
    match s.threads t with
    | .available a =>
      let footprint := call.footprint (s.authorities a).memory.reservations
      if (s.authorities a).applied.any (·.footprint.conflicts index footprint) then none
      else some (s.operateAuthority index t a call now)
    | _ => none
  | .enqueue =>
    match s.threads t, s.locked with
    | .applied a delta, none => some (s.enqueueDelta t a delta)
    | _, _ => none
  | .send =>
    match s.threads t with
    | .sending a delta generation => some (s.sendDelta t a delta generation)
    | _ => none
  -- `finish_delta`, and the choice made by `fail_delta`
  | .receive =>
    match s.threads t with
    | .waiting request =>
      match s.acks request with
      | some .ok => some (s.setThread t (.succeeded (some request)))
      | some .transient => some (s.setThread t (.discarding request.authority))
      | some .fatal => some (s.setThread t (.poisoning request.authority))
      | none => none
    | _ => none
  -- `discard_authority_for_retry`
  | .discard =>
    match s.threads t, s.locked with
    | .discarding a, none =>
      some { s.setThread t .failed with
        slot := if s.isCurrent a then .vacant else s.slot }
    | _, _ => none
  -- `invalidate_authority`
  | .poison =>
    match s.threads t with
    | .poisoning a =>
      some { s.setThread t (.invalidating a) with
        poisoned := fun b => if b = a then true else s.poisoned b }
    | _ => none
  | .invalidate =>
    match s.threads t, s.locked with
    | .invalidating a, none =>
      if s.isCurrent a then some { s.setThread t (.restarting a) with slot := .recovering }
      else some (s.setThread t .failed)
    | _, _ => none
  -- `restart`
  | .retire =>
    match s.threads t with
    | .restarting a =>
      some { s.setThread t (.retired a) with generation := s.generation + 1 }
    | _ => none
  | .spawn started hasRuntime =>
    match s.threads t with
    | .retired a =>
      if started then
        some { (s.setFlusher (s.sender + 1)
            ⟨[], if hasRuntime then .idle else .broken⟩).setThread t (.restarted a true) with
          sender := s.sender + 1 }
      else some (s.setThread t (.restarted a false))
    | _ => none
  | .finish =>
    match s.threads t, s.locked with
    | .restarted a replaced, none =>
      some { s.setThread t .failed with
        slot := if replaced then .vacant else .ready a s.generation }
    | _, _ => none

/-- One action of one thread or of one flusher. -/
def next (s : System Tz) : Action Tz → Option (System Tz)
  | .thread t action => s.act index snapshot earlier t action
  | .flusher k action => s.flush k action

/-- The actions of a list, one after the other; each must be possible where it stands. -/
def run (s : System Tz) (actions : List (Action Tz)) : Option (System Tz) :=
  actions.foldlM (next index snapshot earlier) s

/-- Where a flusher begins: it may fail to start, or to make its runtime. -/
def spawnedPhase (started hasRuntime : Bool) : Phase Tz :=
  if started then if hasRuntime then .idle else .broken else .stopped

/-- A new governor. -/
def initial (started hasRuntime : Bool) : System Tz where
  log := []
  generation := 0
  slot := .vacant
  locked := none
  authorities := fun _ => ⟨⟨fun _ _ => .empty, .empty⟩, []⟩
  poisoned := fun _ => false
  loadedAt := fun _ => 0
  nextAuthority := 0
  flushers := fun k => ⟨[], if k = 0 then spawnedPhase started hasRuntime else .stopped⟩
  sender := 0
  acks := fun _ => none
  nextRequest := 0
  threads := fun _ => .idle

/-! ### What an action can do -/

/-- A thread goes on and changes nothing that others see. -/
inductive Continues (s : System Tz) : Thread Tz → Thread Tz → Prop
  | fetched {a g : ℕ} (hslot : s.slot = .ready a g) : Continues s .idle (.fetched a)
  | unavailable : Continues s .idle .failed
  | available {a : ℕ} : Continues s (.fetched a) (.available a)
  | poisoned {a : ℕ} : Continues s (.fetched a) .failed
  | succeeded {r : DeltaJournalRequest Tz} (hack : s.acks r = some .ok) :
      Continues s (.waiting r) (.succeeded (some r))
  | discarding {r : DeltaJournalRequest Tz} (hack : s.acks r = some .transient) :
      Continues s (.waiting r) (.discarding r.authority)
  | poisoning {r : DeltaJournalRequest Tz} (hack : s.acks r = some .fatal) :
      Continues s (.waiting r) (.poisoning r.authority)
  | discarded {a : ℕ} : Continues s (.discarding a) .failed
  | invalidated {a : ℕ} : Continues s (.invalidating a) .failed
  | notStarted {a : ℕ} : Continues s (.retired a) (.restarted a false)

variable (allowed : Call Tz → Prop)

/-- What an action can do, when threads make allowed calls only. -/
inductive Step (s : System Tz) : System Tz → Prop
  | continues (t : ℕ) {x : Thread Tz} (h : Continues s (s.threads t) x) : Step s (s.setThread t x)
  | load (t : ℕ) (hthread : s.threads t = .idle) (hslot : s.slot = .vacant)
      (hlock : s.locked = none) :
      Step s { s.setThread t (.loading s.generation) with locked := some t }
  | replayed (t : ℕ) {g : ℕ} {state : ResourceState Tz} (hthread : s.threads t = .loading g)
      (hreplay : replayJournal snapshot (earlier ++ s.payloads) = .ok state) :
      Step s (s.setThread t (.loaded g state))
  | unreadable (t : ℕ) {g : ℕ} (hthread : s.threads t = .loading g) :
      Step s { s.setThread t .failed with locked := none }
  | install (t : ℕ) {g : ℕ} {state : ResourceState Tz} (hthread : s.threads t = .loaded g state) :
      Step s
        { (s.setAuthority s.nextAuthority ⟨.fromState index state, []⟩).setThread t
            (.fetched s.nextAuthority) with
          poisoned := fun b => if b = s.nextAuthority then false else s.poisoned b
          loadedAt := fun b => if b = s.nextAuthority then g else s.loadedAt b
          slot := .ready s.nextAuthority g
          nextAuthority := s.nextAuthority + 1
          locked := none }
  | operated (t : ℕ) {a : ℕ} {call : Call Tz} {now : ℤ} (hthread : s.threads t = .available a)
      (hallowed : allowed call)
      (hfree : ∀ p ∈ (s.authorities a).applied, p.footprint.conflicts index
        (call.footprint (s.authorities a).memory.reservations) = false) :
      Step s (s.operateAuthority index t a call now)
  | refused (t : ℕ) {a : ℕ} {delta : ResourceGovernorDelta Tz}
      (hthread : s.threads t = .applied a delta)
      (hwhy : (∀ g, s.slot ≠ .ready a g) ∨ s.poisoned a = true) :
      Step s (s.refuseDelta t a)
  | diverged (t : ℕ) {a g : ℕ} {delta : ResourceGovernorDelta Tz}
      (hthread : s.threads t = .applied a delta) (hlock : s.locked = none)
      (hslot : s.slot = .ready a g) (hgen : g ≠ s.generation) :
      Step s { s.refuseDelta t a with slot := .vacant }
  | sending (t : ℕ) {a : ℕ} {delta : ResourceGovernorDelta Tz}
      (hthread : s.threads t = .applied a delta) (hlock : s.locked = none)
      (hslot : s.slot = .ready a s.generation) (hpoison : s.poisoned a = false) :
      Step s { s.setThread t (.sending a delta s.generation) with locked := some t }
  | unsent (t : ℕ) {a g : ℕ} {delta : ResourceGovernorDelta Tz}
      (hthread : s.threads t = .sending a delta g)
      (hstopped : (s.flushers s.sender).phase = .stopped) :
      Step s { s.refuseDelta t a with locked := none }
  | sent (t : ℕ) {a g : ℕ} {delta : ResourceGovernorDelta Tz}
      (hthread : s.threads t = .sending a delta g) :
      Step s
        { ((s.release a t).setThread t (.waiting ⟨s.nextRequest, delta, g, a⟩)).setFlusher s.sender
            { s.flushers s.sender with
              queue := (s.flushers s.sender).queue ++ [⟨s.nextRequest, delta, g, a⟩] } with
          locked := none
          nextRequest := s.nextRequest + 1 }
  | discard (t : ℕ) {a g : ℕ} (hthread : s.threads t = .discarding a) (hlock : s.locked = none)
      (hslot : s.slot = .ready a g) :
      Step s { s.setThread t .failed with slot := .vacant }
  | poison (t : ℕ) {a : ℕ} (hthread : s.threads t = .poisoning a) :
      Step s { s.setThread t (.invalidating a) with
        poisoned := fun b => if b = a then true else s.poisoned b }
  | invalidate (t : ℕ) {a g : ℕ} (hthread : s.threads t = .invalidating a)
      (hlock : s.locked = none) (hslot : s.slot = .ready a g) :
      Step s { s.setThread t (.restarting a) with slot := .recovering }
  | retire (t : ℕ) {a : ℕ} (hthread : s.threads t = .restarting a) :
      Step s { s.setThread t (.retired a) with generation := s.generation + 1 }
  | spawn (t : ℕ) {a : ℕ} (hasRuntime : Bool) (hthread : s.threads t = .retired a) :
      Step s
        { (s.setFlusher (s.sender + 1) ⟨[], if hasRuntime then .idle else .broken⟩).setThread t
            (.restarted a true) with
          sender := s.sender + 1 }
  | finish (t : ℕ) {a : ℕ} {replaced : Bool} (hthread : s.threads t = .restarted a replaced)
      (hlock : s.locked = none) :
      Step s { s.setThread t .failed with
        slot := if replaced then .vacant else .ready a s.generation }
  | receiveFirst (k : ℕ) {r : DeltaJournalRequest Tz} {queue : List (DeltaJournalRequest Tz)}
      (hphase : (s.flushers k).phase = .idle) (hqueue : (s.flushers k).queue = r :: queue) :
      Step s (s.setFlusher k ⟨queue, .collecting [r]⟩)
  | receiveMore (k : ℕ) {r : DeltaJournalRequest Tz}
      {requests queue : List (DeltaJournalRequest Tz)}
      (hphase : (s.flushers k).phase = .collecting requests)
      (hqueue : (s.flushers k).queue = r :: queue) :
      Step s (s.setFlusher k ⟨queue, .collecting (requests ++ [r])⟩)
  | retain (k : ℕ) {requests kept : List (DeltaJournalRequest Tz)}
      (hphase : (s.flushers k).phase = .collecting requests)
      (hkept : kept = requests.filter fun r => decide (r.generation = s.generation)) :
      Step s ((s.tell (requests.filter fun r => decide (r.generation ≠ s.generation))
        .transient).setFlusher k
          ⟨(s.flushers k).queue, if kept = [] then .idle else .persisting kept⟩)
  | persist (k : ℕ) {requests : List (DeltaJournalRequest Tz)}
      (hphase : (s.flushers k).phase = .persisting requests) :
      Step s { s.setFlusher k ⟨(s.flushers k).queue, .persisted requests⟩ with
        log := s.log ++ requests.map (⟨·, s.generation⟩) }
  | reject (k : ℕ) {requests : List (DeltaJournalRequest Tz)} {ack : Ack} (hack : ack ≠ .ok)
      (hphase : (s.flushers k).phase = .persisting requests) :
      Step s { s.setFlusher k ⟨(s.flushers k).queue, .rejected requests ack⟩ with
        generation := s.generation + 1 }
  | tellPersisted (k : ℕ) {requests : List (DeltaJournalRequest Tz)}
      (hphase : (s.flushers k).phase = .persisted requests) :
      Step s ((s.tell requests .ok).setFlusher k ⟨(s.flushers k).queue, .idle⟩)
  | tellRejected (k : ℕ) {requests : List (DeltaJournalRequest Tz)} {ack : Ack}
      (hphase : (s.flushers k).phase = .rejected requests ack) :
      Step s ((s.tell requests ack).setFlusher k
        ⟨(s.flushers k).queue, if ack = .transient then .idle else .exiting⟩)
  | stop (k : ℕ) (hphase : (s.flushers k).phase = .exiting) :
      Step s ((s.tell (s.flushers k).queue .fatal).setFlusher k ⟨[], .stopped⟩)
  | refuse (k : ℕ) {r : DeltaJournalRequest Tz} {queue : List (DeltaJournalRequest Tz)}
      (hphase : (s.flushers k).phase = .broken) (hqueue : (s.flushers k).queue = r :: queue) :
      Step s ((s.tell [r] .fatal).setFlusher k ⟨queue, .broken⟩)
  | disconnect (k : ℕ) (hsender : k ≠ s.sender) :
      Step s (s.setFlusher k ⟨[], .stopped⟩)

variable {index snapshot earlier allowed} {s s' : System Tz}

omit [Platform Tz] [DecidableEq Tz] [DeltaCodec Tz] in
theorem isCurrent_iff {a : ℕ} : s.isCurrent a = true ↔ ∃ g, s.slot = .ready a g := by
  unfold isCurrent
  cases s.slot with
  | vacant => simp
  | ready current g => simp
  | recovering => simp

theorem flush_step {k : ℕ} {action : FlusherAction} (h : s.flush k action = some s') :
    Step index snapshot earlier allowed s s' := by
  cases action with
  | receiveFirst =>
    simp only [flush] at h
    split at h
    · rename_i hphase hqueue
      cases h
      exact .receiveFirst k hphase hqueue
    · cases h
  | receiveMore =>
    simp only [flush] at h
    split at h
    · rename_i hphase hqueue
      split_ifs at h
      cases h
      exact .receiveMore k hphase hqueue
    · cases h
  | retain =>
    simp only [flush] at h
    split at h
    · rename_i hphase
      cases h
      exact .retain k hphase rfl
    · cases h
  | append outcome =>
    simp only [flush] at h
    split at h
    · rename_i hphase
      cases outcome with
      | ok =>
        cases h
        exact .persist k hphase
      | transient =>
        cases h
        exact .reject k (by decide) hphase
      | fatal =>
        cases h
        exact .reject k (by decide) hphase
    · cases h
  | acknowledge =>
    simp only [flush] at h
    split at h
    · rename_i hphase
      cases h
      exact .tellPersisted k hphase
    · rename_i hphase
      cases h
      exact .tellRejected k hphase
    · cases h
  | stop =>
    simp only [flush] at h
    split at h
    · rename_i hphase
      cases h
      exact .stop k hphase
    · cases h
  | refuse =>
    simp only [flush] at h
    split at h
    · rename_i hphase hqueue
      cases h
      exact .refuse k hphase hqueue
    · cases h
  | disconnect =>
    simp only [flush] at h
    split_ifs at h with hsender
    split at h
    · cases h
      exact .disconnect k hsender
    · cases h
      exact .disconnect k hsender
    · cases h

theorem enqueueDelta_step {t a : ℕ} {delta : ResourceGovernorDelta Tz}
    (hthread : s.threads t = .applied a delta) (hlock : s.locked = none) :
    Step index snapshot earlier allowed s (s.enqueueDelta t a delta) := by
  unfold enqueueDelta
  cases hslot : s.slot with
  | ready current g =>
    dsimp only
    split_ifs with hcurrent hpoison hgen
    · refine .refused t hthread (.inl fun g' hready => hcurrent ?_)
      rw [hslot] at hready
      injection hready
    · exact .refused t hthread (.inr hpoison)
    · rw [not_not] at hcurrent
      subst hcurrent
      exact .diverged t hthread hlock hslot hgen
    · rw [not_not] at hcurrent hgen
      subst hcurrent hgen
      exact .sending t hthread hlock hslot (Bool.eq_false_iff.mpr hpoison)
  | vacant => exact .refused t hthread (.inl fun g hready => by simp [hslot] at hready)
  | recovering => exact .refused t hthread (.inl fun g hready => by simp [hslot] at hready)

theorem act_step {t : ℕ} {action : ThreadAction Tz}
    (h : s.act index snapshot earlier t action = some s')
    (hallowed : ∀ call now, action = .operate call now → allowed call) :
    Step index snapshot earlier allowed s s' := by
  cases action with
  | load =>
    simp only [act] at h
    split at h
    · rename_i hthread hslot hlock
      cases h
      exact .load t hthread hslot hlock
    · cases h
  | replay readable =>
    simp only [act] at h
    split at h
    · rename_i hthread
      split at h
      · rename_i hreplay
        cases h
        exact .replayed t hthread hreplay
      · cases h
        exact .unreadable t hthread
    · cases h
  | install =>
    simp only [act] at h
    split at h
    · rename_i hthread
      cases h
      exact .install t hthread
    · cases h
  | fetch =>
    simp only [act] at h
    split at h
    · rename_i hthread hslot hlock
      cases h
      exact .continues t (hthread ▸ .fetched hslot)
    · rename_i hthread hslot hlock
      cases h
      exact .continues t (hthread ▸ .unavailable)
    · cases h
  | check =>
    simp only [act] at h
    split at h
    · rename_i a hthread
      cases h
      split_ifs
      · exact .continues t (hthread ▸ .poisoned)
      · exact .continues t (hthread ▸ .available)
    · cases h
  | operate call now =>
    simp only [act] at h
    split at h
    · rename_i a hthread
      split_ifs at h with hfree
      cases h
      refine .operated t hthread (hallowed call now rfl) fun p hp => ?_
      rw [Bool.eq_false_iff]
      exact fun hc => hfree (List.any_eq_true.mpr ⟨p, hp, hc⟩)
    · cases h
  | enqueue =>
    simp only [act] at h
    split at h
    · rename_i hthread hlock
      cases h
      exact enqueueDelta_step hthread hlock
    · cases h
  | send =>
    simp only [act] at h
    split at h
    · rename_i hthread
      cases h
      unfold sendDelta
      dsimp only
      split_ifs with hstopped
      · exact .unsent t hthread hstopped
      · exact .sent t hthread
    · cases h
  | receive =>
    simp only [act] at h
    split at h
    · rename_i r hthread
      split at h
      · rename_i hack
        cases h
        exact .continues t (hthread ▸ .succeeded hack)
      · rename_i hack
        cases h
        exact .continues t (hthread ▸ .discarding hack)
      · rename_i hack
        cases h
        exact .continues t (hthread ▸ .poisoning hack)
      · cases h
    · cases h
  | discard =>
    simp only [act] at h
    split at h
    · rename_i a hthread hlock
      cases h
      by_cases hcurrent : s.isCurrent a = true
      · obtain ⟨g, hslot⟩ := isCurrent_iff.mp hcurrent
        rw [if_pos hcurrent]
        exact .discard t hthread hlock hslot
      · rw [if_neg hcurrent]
        exact .continues t (hthread ▸ .discarded)
    · cases h
  | poison =>
    simp only [act] at h
    split at h
    · rename_i hthread
      cases h
      exact .poison t hthread
    · cases h
  | invalidate =>
    simp only [act] at h
    split at h
    · rename_i a hthread hlock
      split_ifs at h with hcurrent
      · obtain ⟨g, hslot⟩ := isCurrent_iff.mp hcurrent
        cases h
        exact .invalidate t hthread hlock hslot
      · cases h
        exact .continues t (hthread ▸ .invalidated)
    · cases h
  | retire =>
    simp only [act] at h
    split at h
    · rename_i hthread
      cases h
      exact .retire t hthread
    · cases h
  | spawn started hasRuntime =>
    simp only [act] at h
    split at h
    · rename_i hthread
      cases started with
      | true =>
        rw [if_pos rfl] at h
        cases h
        exact .spawn t hasRuntime hthread
      | false =>
        rw [if_neg Bool.false_ne_true] at h
        cases h
        exact .continues t (hthread ▸ .notStarted)
    · cases h
  | finish =>
    simp only [act] at h
    split at h
    · rename_i hthread hlock
      cases h
      exact .finish t hthread hlock
    · cases h

theorem next_step {action : Action Tz} (h : s.next index snapshot earlier action = some s')
    (hallowed : ∀ call ∈ action.call, allowed call) : Step index snapshot earlier allowed s s' := by
  cases action with
  | thread t action =>
    refine act_step h fun call now hoperate => hallowed call ?_
    rw [hoperate]
    rfl
  | flusher k action => exact flush_step h

end System

end Ironclaw.Resources
