import Ironclaw.LoopHost.DurableInputQueue
import Ironclaw.LoopHost.Document

/-! # A queued input is delivered once

Any number of calls run on the document of one run: enqueues, polls, acknowledgements and terminal
reconciliations, with conditional writes that come too late, calls that stop anywhere and transcript
updates that fail.

Until the document is reclaimed, a message is issued a second sequence only after its first one was
consumed and as many others as the list of recent messages holds were consumed with it or since, and a
closed document stays closed. Reclaiming the document takes the tombstone and the recent messages with
it. -/

namespace Ironclaw.LoopHost

structure DurableState where
  document : Option (RunQueueModel × ℕ)
  /-- Newest first. -/
  log : List QueueEvent

/-- The value of the document, with an empty queue for none. -/
def DurableState.model (state : DurableState) : RunQueueModel :=
  (state.document.map Prod.fst).getD {}

/-- The version of the document that replaces one. -/
def nextVersion (expected : Option ℕ) : ℕ := (expected.map (· + 1)).getD 1

/-- The filesystem answers at once; the thread service and the handler may give any answer. -/
inductive Served : DurableState → (request : QueueRequest) → request.Answer → DurableState → Prop
  | get (state : DurableState) : Served state .get (.ok state.document) state
  | put (state : DurableState) (model : RunQueueModel) (expected : Option ℕ) :
      state.document.map Prod.snd = expected →
      Served state (.put model expected) .done
        ⟨some (model, nextVersion expected), observed state.model model ++ state.log⟩
  | conflict (state : DurableState) (model : RunQueueModel) (expected : Option ℕ) :
      state.document.map Prod.snd ≠ expected → Served state (.put model expected) .conflict state
  | delete (state : DurableState) (version : ℕ) : state.document.map Prod.snd = some version →
      Served state (.deleteIfVersion version) .done ⟨none, .reclaimed :: state.log⟩
  | deleteConflict (state : DurableState) (version : ℕ) (found : ℕ) :
      state.document.map Prod.snd = some found → found ≠ version →
      Served state (.deleteIfVersion version) .conflict state
  | notFound (state : DurableState) (version : ℕ) : state.document = none →
      Served state (.deleteIfVersion version) (.fatal "not found") state
  | markMessageSubmitted (state : DurableState) (update : QueuedMessageStatusUpdate) (answer : Bool) :
      Served state (.markMessageSubmitted update) answer state
  | markMessageRejectedBusy (state : DurableState) (update : QueuedMessageStatusUpdate) (answer : Bool) :
      Served state (.markMessageRejectedBusy update) answer state
  | readThreadMessage (state : DurableState) (update : QueuedMessageStatusUpdate)
      (answer : Option MessageStatus) : Served state (.readThreadMessage update) answer state
  | handleAckEffect (state : DurableState) (effect : LoopInputAckEffect) (answer : Bool) :
      Served state (.handleAckEffect effect) answer state

/-! ### What the calls keep -/

/-- The document has not been reclaimed. -/
def Kept (state : DurableState) : Prop := .reclaimed ∉ state.log

/-- `model` is the value of the document at `version`, now or earlier; there was none for `none`. -/
def Read (state : DurableState) (model : RunQueueModel) : Option ℕ → Prop
  | none => model = {}
  | some version => Kept state → ∃ model' version', state.document = some (model', version') ∧
      version ≤ version' ∧ (version' = version → model' = model) ∧
      (model.closed = true → model'.closed = true)

/-- The log grows; a document that has not been reclaimed is still there, with the same value or a later
version, and closed if it was. -/
structure Follows (s t : DurableState) : Prop where
  log : s.log <:+ t.log
  document : ∀ model version, s.document = some (model, version) → Read t model (some version)

theorem Follows.kept {s t : DurableState} (h : Follows s t) (hkept : Kept t) : Kept s :=
  fun hmem => hkept (h.log.subset hmem)

variable {model : RunQueueModel} {version : Option ℕ}

theorem Read.follows {s t : DurableState}
    (h : Read s model version) (hfollows : Follows s t) : Read t model version := by
  cases version with
  | none => exact h
  | some version =>
    intro hkept
    obtain ⟨model₁, version₁, hdocument, hle, hsame, hclosed⟩ := h (hfollows.kept hkept)
    obtain ⟨model₂, version₂, hdocument', hle', hsame', hclosed'⟩ :=
      hfollows.document model₁ version₁ hdocument hkept
    refine ⟨model₂, version₂, hdocument', hle.trans hle', fun heq => ?_,
      fun h => hclosed' (hclosed h)⟩
    have hversion : version₁ = version := by omega
    rw [hsame' (heq.trans hversion.symm), hsame hversion]

/-- What every state satisfies, and what comes later. -/
def queueProtocol : Protocol DurableState where
  Inv s := Kept s → Tracks s.log s.model
  Later := Follows
  refl _ := ⟨List.suffix_refl _, fun model version h _ => ⟨model, version, h, le_refl _, fun _ => rfl, id⟩⟩
  trans h h' := ⟨h.log.trans h'.log, fun model version hdocument =>
    Read.follows (h.document model version hdocument) h'⟩

theorem Follows.closed {s t : DurableState} (h : Follows s t) (hkept : Kept t)
    (hclosed : s.model.closed = true) : t.model.closed = true := by
  cases hdocument : s.document with
  | none =>
    unfold DurableState.model at hclosed
    rw [hdocument] at hclosed
    cases hclosed
  | some document =>
    obtain ⟨model', version', hdocument', -, -, hclosed'⟩ :=
      h.document document.1 document.2 hdocument hkept
    unfold DurableState.model at hclosed ⊢
    rw [hdocument] at hclosed
    rw [hdocument']
    exact hclosed' hclosed

abbrev Keeps {α : Type} (task : QueueTask α) (s : DurableState) (Q : α → DurableState → Prop) : Prop :=
  Meets Served queueProtocol.role task s Q

/-! ### The requests -/

variable {s t : DurableState}

/-- What is known of a document that was loaded. -/
structure Loaded (s t : DurableState) (model : RunQueueModel) (version : Option ℕ) : Prop where
  read : Read t model version
  inserted : Kept t → ∀ x ∈ model.live, .inserted x ∈ t.log
  found : s.document ≠ none → Kept t → version ≠ none
  closed : s.model.closed = true → Kept t → model.closed = true

theorem Loaded.follows {u : DurableState}
    (h : Loaded s t model version) (hfollows : Follows t u) : Loaded s u model version where
  read := h.read.follows hfollows
  inserted hkept x hx := hfollows.log.subset (h.inserted (hfollows.kept hkept) x hx)
  found hsome hkept := h.found hsome (hfollows.kept hkept)
  closed hclosed hkept := h.closed hclosed (hfollows.kept hkept)

theorem loaded_of_document (hfollows : Follows s t) (hinv : queueProtocol.Inv t) :
    Loaded s t t.model (t.document.map Prod.snd) where
  read := by
    unfold DurableState.model
    cases hdocument : t.document with
    | none => rfl
    | some document =>
      exact fun _ => ⟨document.1, document.2, hdocument, le_refl _, fun _ => rfl, id⟩
  inserted hkept := (hinv hkept).inserted
  found hsome hkept := by
    obtain ⟨document, hdocument⟩ := Option.ne_none_iff_exists'.1 hsome
    obtain ⟨model', version', hdocument', -⟩ :=
      hfollows.document document.1 document.2 hdocument hkept
    simp [hdocument']
  closed hclosed hkept := hfollows.closed hkept hclosed

theorem load_keeps : Keeps load s fun result t =>
    ∃ model version, result = .ok (model, version) ∧ Loaded s t model version := by
  refine Meets.bind (Meets.request fun t hfollows hinv answer t' hserved => ?_)
  cases hserved with
  | get =>
    refine ⟨hinv, queueProtocol.refl t, fun u hu _ => ?_⟩
    have hloaded := (loaded_of_document hfollows hinv).follows hu
    unfold DurableState.model at hloaded
    cases hdocument : t.document with
    | none =>
      rw [hdocument] at hloaded
      exact Meets.pure fun v hv _ => ⟨{}, none, rfl, hloaded.follows hv⟩
    | some document =>
      rw [hdocument] at hloaded
      exact Meets.pure fun v hv _ => ⟨document.1, some document.2, rfl, hloaded.follows hv⟩

theorem store_keeps {model model' : RunQueueModel} (hread : Read s model version)
    (hmoves : Moves model model') : Keeps (store model' version) s fun answer t =>
      (answer = .done ∧ Read t model' (some (nextVersion version))) ∨ answer = .conflict := by
  refine Meets.request fun t hfollows hinv answer t' hserved => ?_
  cases hserved with
  | conflict => exact ⟨hinv, queueProtocol.refl t, fun u _ _ => .inr rfl⟩
  | put _ _ hversion =>
    have hread' := hread.follows hfollows
    -- the value that was read is still the value of the document
    have hmodel : Kept t → t.model = model := by
      intro hkept
      unfold DurableState.model
      cases hdocument : t.document with
      | none =>
        rw [hdocument] at hversion
        subst hversion
        exact hread'.symm
      | some document =>
        rw [hdocument] at hversion
        subst hversion
        obtain ⟨model₁, version₁, hdocument', -, hsame, -⟩ := hread' hkept
        rw [hdocument] at hdocument'
        cases hdocument'
        exact hsame rfl
    have hkept' : ∀ log, Kept ⟨some (model', nextVersion version), log ++ t.log⟩ → Kept t :=
      fun log hkept hmem => hkept (List.mem_append_right _ hmem)
    refine ⟨fun hkept => ?_, ⟨List.suffix_append _ _, fun model₀ version₀ hdocument hkept => ?_⟩,
      fun u hu _ => .inl ⟨rfl, ?_⟩⟩
    · have hkept := hkept' _ hkept
      have htracks := hinv hkept
      rw [hmodel hkept] at htracks ⊢
      exact hmoves.2 t.log htracks
    · have heq := hmodel (hkept' _ hkept)
      unfold DurableState.model at heq
      rw [hdocument] at hversion heq
      cases hversion
      cases heq
      exact ⟨model', version₀ + 1, rfl, by omega, fun h => absurd h (by omega), hmoves.1⟩
    · exact Read.follows (s := ⟨some (model', nextVersion version), _⟩)
        (fun _ => ⟨model', _, rfl, le_refl _, fun _ => rfl, id⟩) hu

theorem reclaim_keeps (version : ℕ) :
    Keeps (QueueRequest.deleteIfVersion version).make s fun answer t => answer = .done → ¬ Kept t := by
  refine Meets.request fun t hfollows hinv answer t' hserved => ?_
  cases hserved with
  | delete =>
    have hgone : ¬ Kept ⟨none, .reclaimed :: t.log⟩ := fun hkept => hkept List.mem_cons_self
    refine ⟨fun hkept => absurd hkept hgone, ⟨List.suffix_cons _ _, ?_⟩, fun u hu _ _ hkept => ?_⟩
    · exact fun _ _ _ hkept => absurd hkept hgone
    · exact hgone (Follows.kept hu hkept)
  | deleteConflict => exact ⟨hinv, queueProtocol.refl t, fun u _ _ h => by cases h⟩
  | notFound => exact ⟨hinv, queueProtocol.refl t, fun u _ _ h => by cases h⟩

variable (update : QueuedMessageStatusUpdate)

theorem markMessageSubmitted_keeps :
    Keeps (QueueRequest.markMessageSubmitted update).make s fun _ _ => True := by
  refine Meets.request fun t _ hinv answer t' hserved => ?_
  cases hserved
  exact ⟨hinv, queueProtocol.refl t, fun _ _ _ => trivial⟩

theorem markMessageRejectedBusy_keeps :
    Keeps (QueueRequest.markMessageRejectedBusy update).make s fun _ _ => True := by
  refine Meets.request fun t _ hinv answer t' hserved => ?_
  cases hserved
  exact ⟨hinv, queueProtocol.refl t, fun _ _ _ => trivial⟩

theorem readThreadMessage_keeps :
    Keeps (QueueRequest.readThreadMessage update).make s fun _ _ => True := by
  refine Meets.request fun t _ hinv answer t' hserved => ?_
  cases hserved
  exact ⟨hinv, queueProtocol.refl t, fun _ _ _ => trivial⟩

theorem handleAckEffect_keeps (effect : LoopInputAckEffect) :
    Keeps (QueueRequest.handleAckEffect effect).make s fun _ _ => True := by
  refine Meets.request fun t _ hinv answer t' hserved => ?_
  cases hserved
  exact ⟨hinv, queueProtocol.refl t, fun _ _ _ => trivial⟩

/-! ### The operations -/

theorem flipSubmitted_keeps : ∀ (flips : List PendingSubmitFlip) (s : DurableState),
    Keeps (flipSubmitted flips) s fun _ _ => True
  | [], _ => Meets.pure fun _ _ _ => trivial
  | flip :: rest, _ => by
    refine (markMessageSubmitted_keeps flip.status).seq fun succeeded t _ _ _ => ?_
    refine (flipSubmitted_keeps rest t).seq fun flipped u _ _ _ => ?_
    exact Meets.pure fun _ _ _ => trivial

theorem rejectSettled_keeps (s : DurableState) :
    Keeps (rejectSettled update) s fun _ _ => True := by
  refine (readThreadMessage_keeps update).seq fun status t _ _ _ => ?_
  cases status with
  | none => exact Meets.pure fun _ _ _ => trivial
  | some status => exact Meets.pure fun _ _ _ => trivial

theorem flipRejectedBusy_keeps : ∀ (updates : List QueuedMessageStatusUpdate)
    (outcome : RejectFlipOutcome) (s : DurableState),
    Keeps (flipRejectedBusy updates outcome) s fun _ _ => True
  | [], _, _ => Meets.pure fun _ _ _ => trivial
  | update :: rest, outcome, _ => by
    refine (markMessageRejectedBusy_keeps update).seq fun flipped t _ _ _ => ?_
    cases flipped with
    | true => exact flipRejectedBusy_keeps rest _ t
    | false =>
      refine (rejectSettled_keeps update t).seq fun settled u _ _ _ => ?_
      cases settled with
      | true => exact flipRejectedBusy_keeps rest _ u
      | false => exact flipRejectedBusy_keeps rest _ u

theorem storeOrReclaim_keeps {model model' : RunQueueModel} {version : ℕ}
    (hread : Read s model (some version)) (hmoves : Moves model model') :
    Keeps (storeOrReclaim model' version) s fun answer t => answer = .done → Kept t →
      model'.isSettled = false ∧ Read t model' (some (version + 1)) := by
  unfold storeOrReclaim
  split
  · exact (reclaim_keeps version).mono fun answer t _ hgone hdone hkept => absurd hkept (hgone hdone)
  · rename_i hunsettled
    refine (store_keeps hread hmoves).mono fun answer t _ hanswer hdone _ => ?_
    rcases hanswer with ⟨-, hread'⟩ | hconflict
    · exact ⟨by simpa using hunsettled, hread'⟩
    · cases hdone.symm.trans hconflict

theorem confirmLoop_keeps (submitted : List ℕ) (rejected : List ThreadMessageId) (ackEffects : List ℕ) :
    ∀ (attempts : ℕ) (s : DurableState),
      Keeps (confirmLoop submitted rejected ackEffects attempts) s fun _ _ => True
  | 0, _ => Meets.pure fun _ _ _ => trivial
  | attempts + 1, s => by
    refine load_keeps.seq fun loaded t _ _ hloaded => ?_
    obtain ⟨model, version, rfl, hloaded⟩ := hloaded
    cases version with
    | none => exact Meets.pure fun _ _ _ => trivial
    | some version =>
      refine (storeOrReclaim_keeps hloaded.read
        (moves_confirm model submitted ackEffects rejected)).seq fun answer u _ _ _ => ?_
      cases answer with
      | done => exact Meets.pure fun _ _ _ => trivial
      | conflict => exact confirmLoop_keeps submitted rejected ackEffects attempts u
      | fatal reason => exact Meets.pure fun _ _ _ => trivial

theorem confirmFlips_keeps (submitted : List ℕ) (rejected : List ThreadMessageId)
    (ackEffects : List ℕ) (s : DurableState) :
    Keeps (confirmFlips submitted rejected ackEffects) s fun _ _ => True := by
  unfold confirmFlips
  split
  · exact Meets.pure fun _ _ _ => trivial
  · exact confirmLoop_keeps submitted rejected ackEffects maxCasRetries s

theorem handleAckEffects_keeps : ∀ (effects : List PendingAckEffect) (s : DurableState),
    Keeps (handleAckEffects effects) s fun _ _ => True
  | [], _ => Meets.pure fun _ _ _ => trivial
  | pending :: rest, _ => by
    refine (handleAckEffect_keeps pending.effect).seq fun handled t _ _ _ => ?_
    refine (handleAckEffects_keeps rest t).seq fun confirmed u _ _ _ => ?_
    exact Meets.pure fun _ _ _ => trivial

theorem retryPendingAckEffects_keeps (handler : Bool) (s : DurableState) :
    Keeps (retryPendingAckEffects handler) s fun _ _ => True := by
  unfold retryPendingAckEffects
  split
  · refine load_keeps.seq fun loaded t _ _ hloaded => ?_
    obtain ⟨model, version, rfl, -⟩ := hloaded
    refine (handleAckEffects_keeps model.pendingAckEffects t).seq fun confirmed u _ _ _ => ?_
    exact confirmFlips_keeps [] [] confirmed u
  · exact Meets.pure fun _ _ _ => trivial

theorem notClosed_of_enqueueDedup {input : LoopInput}
    {status : QueuedMessageStatusUpdate} {result : EnqueueDisposition × RunQueueModel}
    (h : model.enqueueDedup input status = .ok result) : model.closed = false := by
  unfold RunQueueModel.enqueueDedup at h
  split at h
  · cases h
  · rename_i hclosed
    simpa using hclosed

/-- On a closed document an enqueue is refused as closed. -/
theorem enqueueLoop_keeps (handler : Bool) (request : EnqueueQueuedMessageRequest) :
    ∀ (attempts : ℕ) (s : DurableState), Keeps (enqueueLoop handler request attempts) s fun result t =>
      attempts ≠ 0 → s.model.closed = true → Kept t → result = .error .runClosed
  | 0, _ => Meets.pure fun _ _ _ h => absurd rfl h
  | attempts + 1, s => by
    refine load_keeps.seq fun loaded t _ _ hloaded => ?_
    obtain ⟨model, version, rfl, hloaded⟩ := hloaded
    -- an enqueue that does anything else has seen an open document
    have hlate : ∀ {m : QueueTask (Except HostInputQueueError HostInputEnvelope)},
        model.closed = false → Keeps m t (fun _ _ => True) → Keeps m t fun result u =>
          attempts + 1 ≠ 0 → s.model.closed = true → Kept u → result = .error .runClosed := by
      intro m hopen hm
      refine hm.since.mono fun result u _ hu _ hclosed hkept => ?_
      have hclosed' := hloaded.closed hclosed (Follows.kept hu.1 hkept)
      rw [hopen] at hclosed'
      cases hclosed'
    dsimp only
    split
    · rename_i e he
      refine Meets.pure fun u hu _ _ hclosed hkept => ?_
      have hclosed' := hloaded.closed hclosed (Follows.kept hu hkept)
      unfold RunQueueModel.enqueueDedup at he
      rw [if_pos hclosed'] at he
      exact congrArg Except.error (Except.error.inj he).symm
    · rename_i sequence inserted hinserted
      refine hlate (notClosed_of_enqueueDedup hinserted) ?_
      split
      · exact Meets.pure fun _ _ _ => trivial
      · rename_i attached hattach
        have hissues := issues_of_inserted hinserted hattach
        refine (store_keeps hloaded.read hissues.moves).seq fun answer u _ _ hanswer => ?_
        rcases hanswer with ⟨rfl, -⟩ | rfl
        · refine (retryPendingAckEffects_keeps handler u).seq fun _ _ _ _ _ => ?_
          exact Meets.pure fun _ _ _ => trivial
        · exact (enqueueLoop_keeps handler request attempts u).mono fun _ _ _ _ => trivial
    · rename_i hduplicate
      refine hlate (notClosed_of_enqueueDedup hduplicate) ?_
      refine (retryPendingAckEffects_keeps handler t).seq fun _ _ _ _ _ => ?_
      exact Meets.pure fun _ _ _ => trivial
    · rename_i flip _ hconsumed
      refine hlate (notClosed_of_enqueueDedup hconsumed) ?_
      refine (flipSubmitted_keeps [flip] t).seq fun flipped u _ _ _ => ?_
      refine (confirmFlips_keeps flipped [] [] u).seq fun _ v _ _ _ => ?_
      refine (retryPendingAckEffects_keeps handler v).seq fun _ _ _ _ _ => ?_
      exact Meets.pure fun _ _ _ => trivial

theorem scanEntries_envelopes {limit : ℕ} :
    ∀ {entries : List QueueEntry} {inputs : List HostInputEnvelope} {cursor : ℕ}
      {envelope : HostInputEnvelope},
      envelope ∈ (model.scanEntries limit entries inputs cursor).1 →
      envelope ∈ inputs ∨ ∃ entry ∈ entries, envelope = envelopeFor entry.sequence entry.input
  | [], _, _, _, h => .inl h
  | entry :: rest, inputs, cursor, envelope, h => by
    unfold RunQueueModel.scanEntries at h
    split at h
    · rcases scanEntries_envelopes h with hold | ⟨other, hother, heq⟩
      · exact .inl hold
      · exact .inr ⟨other, List.mem_cons_of_mem _ hother, heq⟩
    · split at h
      · exact .inl h
      · rcases scanEntries_envelopes h with hold | ⟨other, hother, heq⟩
        · rw [List.mem_append, List.mem_singleton] at hold
          exact hold.imp_right fun heq => ⟨entry, List.mem_cons_self, heq⟩
        · exact .inr ⟨other, List.mem_cons_of_mem _ hother, heq⟩

/-- The envelope is that of an input the log knows. -/
def Issued (log : List QueueEvent) (envelope : HostInputEnvelope) : Prop :=
  ∃ x, .inserted x ∈ log ∧ envelope = envelopeFor x.sequence x.input

theorem scanAfter_envelopes {afterSequence limit : ℕ} {batch : HostInputBatch}
    (h : model.scanAfter afterSequence limit = .ok batch) {envelope : HostInputEnvelope}
    (henvelope : envelope ∈ batch.inputs) :
    ∃ x ∈ model.live, envelope = envelopeFor x.sequence x.input := by
  unfold RunQueueModel.scanAfter at h
  split at h
  · cases h
  · cases h
    rcases scanEntries_envelopes henvelope with hnone | ⟨entry, hentry, heq⟩
    · cases hnone
    · exact ⟨entry.liveInput, List.mem_map_of_mem (List.mem_of_mem_filter hentry), heq⟩

theorem nextAfter_keeps (after : String) (limit : ℕ) (s : DurableState) :
    Keeps (nextAfter after limit) s fun result t => ∀ batch, result = .ok batch → Kept t →
      ∀ envelope ∈ batch.inputs, Issued t.log envelope := by
  unfold nextAfter
  split
  · exact Meets.pure fun _ _ _ batch h => by cases h
  · refine load_keeps.seq fun loaded t _ _ hloaded => ?_
    obtain ⟨model, version, rfl, hloaded⟩ := hloaded
    cases version with
    | none =>
      refine Meets.pure fun u _ _ batch h _ envelope henvelope => ?_
      cases h
      cases henvelope
    | some version =>
      refine Meets.pure fun u hu _ batch h hkept envelope henvelope => ?_
      obtain ⟨x, hx, heq⟩ := scanAfter_envelopes h henvelope
      exact ⟨x, (hloaded.follows hu).inserted hkept x hx, heq⟩

theorem ackLoop_keeps {tokens : List String} (hdistinct : (tokenSequences tokens).Nodup) :
    ∀ (attempts : ℕ) (s : DurableState), Keeps (ackLoop tokens attempts) s fun _ _ => True
  | 0, _ => Meets.pure fun _ _ _ => trivial
  | attempts + 1, s => by
    refine load_keeps.seq fun loaded t _ _ hloaded => ?_
    obtain ⟨model, version, rfl, hloaded⟩ := hloaded
    cases version with
    | none => exact Meets.pure fun _ _ _ => trivial
    | some version =>
      dsimp only
      split
      · exact Meets.pure fun _ _ _ => trivial
      · rename_i outcome acked hack
        split
        · rename_i hnewly
          obtain ⟨taken, hconsumes⟩ := consumes_of_newlyAcked hack hnewly hdistinct
          refine (store_keeps hloaded.read hconsumes.moves).seq fun answer u _ _ hanswer => ?_
          rcases hanswer with ⟨rfl, -⟩ | rfl
          · exact Meets.pure fun _ _ _ => trivial
          · exact ackLoop_keeps hdistinct attempts u
        · exact Meets.pure fun _ _ _ => trivial

theorem ackConsumed_keeps (handler : Bool) {tokens : List String}
    (hdistinct : (tokenSequences tokens).Nodup) (s : DurableState) :
    Keeps (ackConsumed handler tokens) s fun _ _ => True := by
  refine (ackLoop_keeps hdistinct maxCasRetries s).seq fun result t _ _ _ => ?_
  rcases result with e | _ | dueFlips
  · exact Meets.pure fun _ _ _ => trivial
  · exact Meets.pure fun _ _ _ => trivial
  · refine (flipSubmitted_keeps dueFlips t).seq fun flipped u _ _ _ => ?_
    refine (confirmFlips_keeps flipped [] [] u).seq fun _ v _ _ _ => ?_
    refine (retryPendingAckEffects_keeps handler v).seq fun _ _ _ _ _ => ?_
    exact Meets.pure fun _ _ _ => trivial

theorem Follows.found (h : Follows s t) (hkept : Kept t) (hsome : s.document ≠ none) :
    t.document ≠ none := by
  obtain ⟨document, hdocument⟩ := Option.ne_none_iff_exists'.1 hsome
  obtain ⟨model', version', hdocument', -⟩ := h.document document.1 document.2 hdocument hkept
  simp [hdocument']

variable (flips : Bool)

/-- A reconciliation that finds a document leaves it closed. -/
theorem rejectLoop_keeps : ∀ (attempts : ℕ) (s : DurableState), Keeps (rejectLoop attempts) s
    fun result t => ∀ flips, result = .ok flips → s.document ≠ none → Kept t → t.model.closed = true
  | 0, _ => Meets.pure fun _ _ _ _ h => by cases h
  | attempts + 1, s => by
    refine load_keeps.seq fun loaded t ht _ hloaded => ?_
    obtain ⟨model, version, rfl, hloaded⟩ := hloaded
    cases version with
    | none =>
      refine Meets.pure fun u hu _ flips _ hfound hkept => ?_
      exact absurd rfl ((hloaded.follows hu).found hfound hkept)
    | some version =>
      refine (storeOrReclaim_keeps hloaded.read (moves_close model)).seq
        fun answer u hu _ hanswer => ?_
      cases answer with
      | done =>
        have hclosed : ∀ v, Follows u v → Kept v → v.model.closed = true := by
          intro v hv hkept
          obtain ⟨-, hread⟩ := hanswer rfl (Follows.kept hv hkept)
          obtain ⟨model', version', hdocument, -, -, hclosed'⟩ := hread.follows hv hkept
          unfold DurableState.model
          rw [hdocument]
          exact hclosed' rfl
        dsimp only
        split
        · exact Meets.pure fun v hv _ _ _ _ hkept => hclosed v hv hkept
        · exact Meets.pure fun v hv _ _ _ _ hkept => hclosed v hv hkept
      | conflict =>
        refine (rejectLoop_keeps attempts u).since.mono
          fun result v _ hresult flips h hfound hkept => ?_
        have hkept' := Follows.kept hresult.1 hkept
        exact hresult.2 flips h (Follows.found (queueProtocol.trans ht hu) hkept' hfound) hkept
      | fatal reason => exact Meets.pure fun _ _ _ _ h => by cases h

theorem rejectUnconsumed_keeps (handler : Bool) (s : DurableState) :
    Keeps (rejectUnconsumed handler) s fun result t => ∀ flipped, result = .ok flipped →
      s.document ≠ none → Kept t → t.model.closed = true := by
  refine (rejectLoop_keeps maxCasRetries s).seq fun result t _ _ hresult => ?_
  have hclosed : ∀ flips, result = .ok flips → s.document ≠ none → ∀ u, Follows t u → Kept u →
      u.model.closed = true :=
    fun flips h hfound u hu hkept => hu.closed hkept (hresult flips h hfound (hu.kept hkept))
  rcases result with e | _ | ⟨submitFlips, rejectFlips⟩
  · exact Meets.pure fun _ _ _ _ h => by cases h
  · exact Meets.pure fun u hu _ _ _ hfound hkept => hclosed none rfl hfound u hu hkept
  · refine (flipSubmitted_keeps submitFlips t).seq fun submitted u hu _ _ => ?_
    refine (flipRejectedBusy_keeps rejectFlips ⟨[], []⟩ u).seq fun outcome v hv _ _ => ?_
    refine (confirmFlips_keeps submitted outcome.confirmable [] v).seq fun _ w hw _ _ => ?_
    refine (retryPendingAckEffects_keeps handler w).seq fun _ x hx _ _ => ?_
    refine Meets.pure fun y hy _ _ _ hfound hkept => ?_
    have hlater : queueProtocol.Later t y := queueProtocol.trans hu (queueProtocol.trans hv
      (queueProtocol.trans hw (queueProtocol.trans hx hy)))
    exact hclosed _ rfl hfound y hlater hkept

/-! ### Calls on one document -/

/-- What the result of a call says, when the call starts in `s` and ends in `t`. -/
def QueueCall.Answers (s : DurableState) (call : QueueCall) (result : QueueResult) (t : DurableState) :
    Prop :=
  match call with
  | .enqueue _ => ∃ r, result = .enqueued r ∧ (s.model.closed = true → Kept t → r = .error .runClosed)
  | .poll _ _ => ∃ r, result = .polled r ∧ ∀ batch, r = .ok batch → Kept t →
      ∀ envelope ∈ batch.inputs, Issued t.log envelope
  | .ack _ => ∃ r, result = .acked r
  | .reject => ∃ r, result = .rejected r ∧ ∀ flipped, r = .ok flipped → s.document ≠ none → Kept t →
      t.model.closed = true

/-- No acknowledgement names a sequence twice. -/
def QueueCall.Distinct : QueueCall → Prop
  | .ack tokens => (tokenSequences tokens).Nodup
  | _ => True

instance : DecidablePred QueueCall.Distinct := fun call => by
  cases call <;> unfold QueueCall.Distinct <;> infer_instance

theorem durable_keeps (handler : Bool) {call : QueueCall} (hdistinct : call.Distinct)
    (s : DurableState) : Keeps (call.durable handler) s (call.Answers s) := by
  cases call with
  | enqueue request =>
    refine (enqueueLoop_keeps handler request maxCasRetries s).seq fun r t _ _ hr => ?_
    exact Meets.pure fun u hu _ =>
      ⟨r, rfl, fun hclosed hkept => hr (by decide) hclosed (Follows.kept hu hkept)⟩
  | poll after limit =>
    refine (nextAfter_keeps after limit s).seq fun r t _ _ hr => ?_
    refine Meets.pure fun u hu _ => ⟨r, rfl, fun batch h hkept envelope henvelope => ?_⟩
    obtain ⟨x, hx, heq⟩ := hr batch h (Follows.kept hu hkept) envelope henvelope
    exact ⟨x, (Follows.log hu).subset hx, heq⟩
  | ack tokens =>
    refine (ackConsumed_keeps handler hdistinct s).seq fun r t _ _ _ => ?_
    exact Meets.pure fun _ _ _ => ⟨r, rfl⟩
  | reject =>
    refine (rejectUnconsumed_keeps handler s).seq fun r t _ _ hr => ?_
    refine Meets.pure fun u hu _ => ⟨r, rfl, fun flipped h hfound hkept => ?_⟩
    exact Follows.closed hu hkept (hr flipped h hfound (Follows.kept hu hkept))

/-- Calls that share the document of a run. -/
abbrev QueueSystem (ι : Type) := Shared QueueRequest.Answer DurableState fun _ : ι => QueueResult

/-- No call has made a request, and there is no document. -/
def QueueSystem.start {ι : Type} (handler : Bool) (calls : ι → QueueCall) : QueueSystem ι :=
  ⟨⟨none, []⟩, fun i => (calls i).durable handler⟩

section system

variable {ι : Type} {handler : Bool} {calls : ι → QueueCall} (hdistinct : ∀ i, (calls i).Distinct)
  {system system' : QueueSystem ι}

include hdistinct

theorem sound_start : Shared.Sound Served (fun _ => queueProtocol.role) (fun i => (calls i).Answers ⟨none, []⟩)
    (QueueSystem.start handler calls) where
  apart _ h := h
  inv _ := Tracks.empty
  meets i := durable_keeps handler (hdistinct i) _

theorem Sound.restart {Q : ι → QueueResult → DurableState → Prop}
    (h : Shared.Sound Served (fun _ => queueProtocol.role) Q system) :
    Shared.Sound Served (fun _ => queueProtocol.role) (fun i result t => system.task i = (calls i).durable handler →
      (calls i).Answers system.state result t) system where
  apart := h.apart
  inv := h.inv
  meets i := by
    by_cases hstart : system.task i = (calls i).durable handler
    · rw [hstart]
      exact (durable_keeps handler (hdistinct i) _).mono fun _ _ _ hanswers _ => hanswers
    · exact (h.meets i).mono fun _ _ _ _ h => absurd h hstart

end system

/-- Queued input is delivered once and never accepted after the close, for as long as the document is
kept: in `late` the log issues a message two sequences only when its first one is no longer recent, and what
is live or was polled has been issued; and a reconciliation that began on a document in `early` and had
succeeded in `middle` makes every enqueue that begins later be refused as closed. -/
theorem queued_input_delivered_once {ι : Type} [DecidableEq ι] (handler : Bool)
    (calls : ι → QueueCall) (hdistinct : ∀ i, (calls i).Distinct) {early middle late : QueueSystem ι}
    (hearly : Shared.Reach Served (QueueSystem.start handler calls) early)
    (hmiddle : Shared.Reach Served early middle) (hlate : Shared.Reach Served middle late)
    (hkept : .reclaimed ∉ late.state.log) :
    OnceOnly late.state.log ∧
      (∀ x ∈ late.state.model.live, .inserted x ∈ late.state.log) ∧
      (∀ i after limit batch, calls i = .poll after limit →
        late.task i = .done (.polled (.ok batch)) →
        ∀ envelope ∈ batch.inputs, Issued late.state.log envelope) ∧
      ∀ i j request flipped result, calls i = .reject → calls j = .enqueue request →
        early.task i = (calls i).durable handler → early.state.document ≠ none →
        middle.task i = .done (.rejected (.ok flipped)) →
        middle.task j = (calls j).durable handler → late.task j = .done result →
        result = .enqueued (.error .runClosed) := by
  have hstart : Shared.Sound Served (fun _ => queueProtocol.role) (fun i => (calls i).Answers ⟨none, []⟩)
      (QueueSystem.start handler calls) := sound_start hdistinct
  obtain ⟨hearly', -⟩ := hstart.reach hearly
  obtain ⟨hmiddle', -⟩ := hearly'.reach hmiddle
  obtain ⟨hlate', hfollows⟩ := hmiddle'.reach hlate
  have htracks := hlate'.inv hkept
  refine ⟨htracks.once, htracks.inserted, ?_, ?_⟩
  · intro i after limit batch hcall hdone
    have hanswers := hlate'.result hdone
    simp only [hcall, QueueCall.Answers] at hanswers
    obtain ⟨r, hr, hissued⟩ := hanswers
    cases hr
    exact hissued batch rfl hkept
  · intro i j request flipped result hreject henqueue hi hfound hdone hj hresult
    have hclosed : middle.state.model.closed = true := by
      obtain ⟨hsound, -⟩ := (Sound.restart hdistinct hearly').reach hmiddle
      have hanswers := hsound.result hdone hi
      simp only [hreject, QueueCall.Answers] at hanswers
      obtain ⟨r, hr, hclosed⟩ := hanswers
      cases hr
      exact hclosed flipped rfl hfound (Follows.kept hfollows hkept)
    obtain ⟨hsound, -⟩ := (Sound.restart hdistinct hmiddle').reach hlate
    have hanswers := hsound.result hresult hj
    simp only [henqueue, QueueCall.Answers] at hanswers
    obtain ⟨r, rfl, hrefused⟩ := hanswers
    rw [hrefused hclosed hkept]

/-! ### A run with one call after another -/

/-- Answers of a filesystem that works and of a thread service whose updates all succeed or all fail. -/
def replies (state : DurableState) : (request : QueueRequest) →
    request.Answer × DurableState
  | .get => (.ok state.document, state)
  | .put model expected =>
    if state.document.map Prod.snd = expected then
      (.done, ⟨some (model, nextVersion expected), observed state.model model ++ state.log⟩)
    else (.conflict, state)
  | .deleteIfVersion version =>
    match state.document.map Prod.snd with
    | none => (.fatal "not found", state)
    | some found =>
      if found = version then (.done, ⟨none, .reclaimed :: state.log⟩) else (.conflict, state)
  | .markMessageSubmitted _ | .markMessageRejectedBusy _ | .handleAckEffect _ => (flips, state)
  | .readThreadMessage _ => (some .queued, state)

theorem served_replies (state : DurableState) (request : QueueRequest) :
    Served state request (replies flips state request).1 (replies flips state request).2 := by
  cases request with
  | get => exact .get state
  | put model expected =>
    simp only [replies]
    split
    · rename_i h
      exact .put state model expected h
    · rename_i h
      exact .conflict state model expected h
  | deleteIfVersion version =>
    simp only [replies]
    split
    · rename_i h
      exact .notFound state version (by simpa using h)
    · rename_i found h
      split
      · rename_i heq
        exact .delete state version (heq ▸ h)
      · rename_i hne
        exact .deleteConflict state version found h hne
  | markMessageSubmitted update => exact .markMessageSubmitted state update flips
  | markMessageRejectedBusy update => exact .markMessageRejectedBusy state update flips
  | readThreadMessage update => exact .readThreadMessage state update (some .queued)
  | handleAckEffect effect => exact .handleAckEffect state effect flips

/-- The system after the call `i` ran to its end. -/
def QueueSystem.after {ι : Type} [DecidableEq ι] (system : QueueSystem ι) (i : ι) : QueueSystem ι :=
  ⟨((system.task i).run (replies flips) system.state).2,
    Function.update system.task i (.done ((system.task i).run (replies flips) system.state).1)⟩

theorem QueueSystem.reach_after {ι : Type} [DecidableEq ι] (system : QueueSystem ι)
    (i : ι) : Shared.Reach Served system (system.after flips i) :=
  Shared.Reach.run (served_replies flips) system i

theorem QueueSystem.task_after {ι : Type} [DecidableEq ι] (system : QueueSystem ι)
    (i : ι) : (system.after flips i).task i =
      .done ((system.task i).run (replies flips) system.state).1 :=
  Function.update_self i _ _

/-- A message, the reconciliation, and another message. -/
def lateEnqueue : Fin 3 → QueueCall
  | 0 => .enqueue (steeringRequest 1 "msg:first")
  | 1 => .reject
  | 2 => .enqueue (steeringRequest 2 "msg:second")

def lateEnqueueSystem : QueueSystem (Fin 3) := .start false lateEnqueue

/-- Once the rows are settled the document is reclaimed, and a later enqueue of a new message starts a new
queue. -/
theorem settled_queue_accepts_again :
    ∃ middle late : QueueSystem (Fin 3), Shared.Reach Served lateEnqueueSystem middle ∧
      Shared.Reach Served middle late ∧
      middle.task 1 = .done (.rejected (.ok [⟨1⟩])) ∧
      middle.task 2 = (lateEnqueue 2).durable false ∧
      late.task 2 = .done (.enqueued (.ok (envelopeFor 1 (.steering "msg:second")))) := by
  refine ⟨(lateEnqueueSystem.after true 0).after true 1,
    ((lateEnqueueSystem.after true 0).after true 1).after true 2, ?_, ?_, ?_, ?_, ?_⟩
  · exact (QueueSystem.reach_after true _ 0).trans (QueueSystem.reach_after true _ 1)
  · exact QueueSystem.reach_after true _ 2
  · rfl
  · rfl
  · rfl

/-- While a row waits for its flip the document is kept, and the later enqueue is refused. -/
theorem unsettled_queue_refuses :
    (((lateEnqueueSystem.after false 0).after false 1).after false 2).task 2 =
      .done (.enqueued (.error .runClosed)) := by
  have hdistinct : ∀ i, (lateEnqueue i).Distinct := by decide
  obtain ⟨-, -, -, hrefused⟩ := queued_input_delivered_once false lateEnqueue hdistinct
    (QueueSystem.reach_after false lateEnqueueSystem 0)
    (QueueSystem.reach_after false (lateEnqueueSystem.after false 0) 1)
    (QueueSystem.reach_after false ((lateEnqueueSystem.after false 0).after false 1) 2)
    (by decide)
  have hdone := QueueSystem.task_after false ((lateEnqueueSystem.after false 0).after false 1) 2
  rw [hdone, hrefused 1 2 (steeringRequest 2 "msg:second") [] _ rfl rfl rfl (by decide) rfl rfl hdone]

end Ironclaw.LoopHost
