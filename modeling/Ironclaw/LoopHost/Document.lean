import Ironclaw.LoopHost.InputQueue

/-! # What happens to the document of a queue

The document of a run is written again and again. What a write does is read off the values before and
after it (`observed`), and a log collects it. `Tracks log model` says what the log of a document that
has not been reclaimed tells about its value: the live inputs were inserted, and every input that was
inserted is live, or it was consumed and is among the recent messages unless too many were consumed with
it or since.

Each operation keeps this (`Moves`), so that a message is issued a second sequence only when it is no
longer recent (`OnceOnly`). -/

namespace Ironclaw.LoopHost

/-- An input that waits in the queue. -/
structure LiveInput where
  sequence : ℕ
  message : ThreadMessageId
  input : LoopInput
deriving DecidableEq

def QueueEntry.liveInput (entry : QueueEntry) : LiveInput :=
  ⟨entry.sequence, entry.status.messageId, entry.input⟩

def RunQueueModel.live (model : RunQueueModel) : List LiveInput :=
  model.entries.map QueueEntry.liveInput

inductive QueueEvent where
  | inserted (input : LiveInput)
  | acked (inputs : List LiveInput)
  | closed
  | reclaimed
deriving DecidableEq

/-- What a write does, newest first. -/
def observed (old new : RunQueueModel) : List QueueEvent :=
  let insertions := new.live.filter fun x => x.sequence ∉ old.live.map (·.sequence)
  let gone := old.live.filter fun x => x.sequence ∉ new.live.map (·.sequence)
  insertions.map .inserted ++
    if new.closed then (if old.closed then [] else [.closed])
    else if gone = [] then [] else [.acked gone]

/-! ### What the log says of a document -/

/-- The number of messages a log records as consumed. -/
def consumedCount : List QueueEvent → ℕ
  | [] => 0
  | .acked inputs :: log => inputs.length + consumedCount log
  | _ :: log => consumedCount log

/-- `x` was consumed, and at least `count` other messages were consumed with it or since. -/
def ConsumedBefore (log : List QueueEvent) (x : LiveInput) (count : ℕ) : Prop :=
  ∃ newer inputs older, log = newer ++ .acked inputs :: older ∧ x ∈ inputs ∧
    count < consumedCount newer + inputs.length

/-- A message that is issued a second sequence is no longer recent. -/
def OnceOnly (log : List QueueEvent) : Prop :=
  ∀ newer older x y, log = newer ++ .inserted y :: older → .inserted x ∈ older →
    x.message = y.message → x.input = y.input → ConsumedBefore older x recentlyConsumedDedupLimit

/-- `x` was consumed, and it is among the recent messages unless too many came after it. -/
def Remembered (log : List QueueEvent) (recent : List ConsumedMessage) (x : LiveInput) : Prop :=
  ConsumedBefore log x recentlyConsumedDedupLimit ∨
    ∃ before since, recent = before ++ ⟨x.sequence, x.message⟩ :: since ∧
      ConsumedBefore log x since.length

/-- What the log says of a document that has not been reclaimed. -/
structure Tracks (log : List QueueEvent) (model : RunQueueModel) : Prop where
  issued : ∀ x, .inserted x ∈ log → x.sequence < model.nextSequence
  inserted : ∀ x ∈ model.live, .inserted x ∈ log
  distinct : (model.live.map (·.sequence)).Nodup
  recent : model.recentlyConsumed.length ≤ recentlyConsumedDedupLimit
  known : model.closed = false → ∀ x, .inserted x ∈ log →
    x ∈ model.live ∨ Remembered log model.recentlyConsumed x
  once : OnceOnly log

theorem Tracks.empty : Tracks [] {} where
  issued := by simp
  inserted := by simp [RunQueueModel.live]
  distinct := by simp [RunQueueModel.live]
  recent := by simp
  known := by simp
  once := by
    intro newer older x y h
    simp at h

/-- The write keeps the log true of the document. -/
def Moves (old new : RunQueueModel) : Prop :=
  (old.closed = true → new.closed = true) ∧
    ∀ log, Tracks log old → Tracks (observed old new ++ log) new

/-! ### Consumed messages -/

theorem consumedCount_append (l₁ l₂ : List QueueEvent) :
    consumedCount (l₁ ++ l₂) = consumedCount l₁ + consumedCount l₂ := by
  induction l₁ with
  | nil => simp [consumedCount]
  | cons event l₁ ih =>
    cases event <;> simp only [List.cons_append, consumedCount, ih]
    omega

variable {log : List QueueEvent} {x : LiveInput}

theorem ConsumedBefore.append {count : ℕ}
    (h : ConsumedBefore log x count) (newer : List QueueEvent) :
    ConsumedBefore (newer ++ log) x (count + consumedCount newer) := by
  obtain ⟨between, inputs, older, rfl, hx, hcount⟩ := h
  refine ⟨newer ++ between, inputs, older, by simp, hx, ?_⟩
  rw [consumedCount_append]
  omega

theorem ConsumedBefore.mono {count count' : ℕ}
    (h : ConsumedBefore log x count) (hle : count' ≤ count) : ConsumedBefore log x count' := by
  obtain ⟨newer, inputs, older, hlog, hx, hcount⟩ := h
  exact ⟨newer, inputs, older, hlog, hx, by omega⟩

theorem Remembered.quiet {log newer : List QueueEvent} {recent : List ConsumedMessage}
    (h : Remembered log recent x) : Remembered (newer ++ log) recent x := by
  rcases h with h | ⟨before, since, hrecent, h⟩
  · exact .inl ((h.append newer).mono (by omega))
  · exact .inr ⟨before, since, hrecent, (h.append newer).mono (by omega)⟩

theorem OnceOnly.cons_of_ne (h : OnceOnly log) {event : QueueEvent}
    (hne : ∀ y, event ≠ .inserted y) : OnceOnly (event :: log) := by
  intro newer older x y heq hx hmessage hinput
  cases newer with
  | nil =>
    obtain ⟨hevent, -⟩ := List.cons.inj heq
    exact absurd hevent (hne y)
  | cons first newer =>
    obtain ⟨-, hlog⟩ := List.cons.inj heq
    exact h newer older x y hlog hx hmessage hinput

theorem OnceOnly.insert (h : OnceOnly log) {y : LiveInput}
    (hy : ∀ x, .inserted x ∈ log → x.message = y.message → x.input = y.input →
      ConsumedBefore log x recentlyConsumedDedupLimit) : OnceOnly (.inserted y :: log) := by
  intro newer older x z heq hx hmessage hinput
  cases newer with
  | nil =>
    obtain ⟨hevent, rfl⟩ := List.cons.inj heq
    cases hevent
    exact hy x hx hmessage hinput
  | cons first newer =>
    obtain ⟨-, hlog⟩ := List.cons.inj heq
    exact h newer older x z hlog hx hmessage hinput

/-! ### The recent messages -/

/-- `recent` is what the list of recent messages holds once all of `pushed` went through it. -/
def Window (pushed recent : List ConsumedMessage) : Prop :=
  ∃ dropped, pushed = dropped ++ recent ∧ recent.length ≤ recentlyConsumedDedupLimit ∧
    (dropped = [] ∨ recent.length = recentlyConsumedDedupLimit)

theorem Window.of_le {recent : List ConsumedMessage} (h : recent.length ≤ recentlyConsumedDedupLimit) :
    Window recent recent :=
  ⟨[], rfl, h, .inl rfl⟩

theorem Window.push {pushed : List ConsumedMessage} {model : RunQueueModel}
    (h : Window pushed model.recentlyConsumed) (consumed : ConsumedMessage) :
    Window (pushed ++ [consumed]) (model.recordConsumed consumed) := by
  obtain ⟨dropped, rfl, hlength, hfull⟩ := h
  unfold RunQueueModel.recordConsumed
  have hlength' : (model.recentlyConsumed ++ [consumed]).length =
      model.recentlyConsumed.length + 1 := by simp
  dsimp only
  split
  · rename_i hover
    cases hrecent : model.recentlyConsumed with
    | nil =>
      rw [hrecent] at hover
      simp [recentlyConsumedDedupLimit, maxQueuedInputsPerRun] at hover
    | cons first rest =>
      rw [hrecent] at hlength hlength' hover
      refine ⟨dropped ++ [first], by simp, ?_, .inr ?_⟩
      · simp at hlength ⊢
        omega
      · simp at hlength hlength' hover ⊢
        omega
  · rename_i hfits
    refine ⟨dropped, by simp, by omega, ?_⟩
    rcases hfull with hnil | hfull
    · exact .inl hnil
    · omega

/-- A message stays in the list until enough others came after it. -/
theorem Window.find {pushed recent before since : List ConsumedMessage} {consumed : ConsumedMessage}
    (h : Window pushed recent) (hpushed : pushed = before ++ consumed :: since) :
    (∃ before', recent = before' ++ consumed :: since) ∨
      recentlyConsumedDedupLimit ≤ since.length := by
  obtain ⟨dropped, rfl, -, hfull⟩ := h
  rcases List.append_eq_append_iff.1 hpushed with ⟨rest, -, hrecent⟩ | ⟨rest, hdropped, hrest⟩
  · exact .inl ⟨rest, hrecent⟩
  · cases rest with
    | nil => exact .inl ⟨[], by simpa using hrest.symm⟩
    | cons first rest =>
      obtain ⟨-, hsince⟩ := List.cons.inj hrest
      right
      rcases hfull with hnil | hfull
      · simp [hnil] at hdropped
      · rw [hsince, ← hfull]
        exact (List.suffix_append rest recent).length_le

/-! ### Enqueues -/

theorem setAckEffect_live {sequence : ℕ} {effect : Option LoopInputAckEffect} :
    ∀ {entries entries' : List QueueEntry},
      RunQueueModel.setAckEffect sequence effect entries = some entries' →
      entries'.map QueueEntry.liveInput = entries.map QueueEntry.liveInput
  | [], _, h => by simp [RunQueueModel.setAckEffect] at h
  | entry :: rest, entries', h => by
    unfold RunQueueModel.setAckEffect at h
    split at h
    · cases h
      rfl
    · obtain ⟨rest', hrest, rfl⟩ := Option.map_eq_some_iff.1 h
      simp [setAckEffect_live hrest]

/-- What an enqueue found when it issues a sequence. -/
structure Issues (model : RunQueueModel) (request : EnqueueQueuedMessageRequest)
    (inserted : RunQueueModel) : Prop where
  notClosed : model.closed = false
  notLive : ∀ x ∈ model.live, x.input ≠ request.input
  notRecent : ∀ x ∈ model.recentlyConsumed, x.messageId ≠ request.messageId
  live : inserted.live = model.live ++ [⟨model.nextSequence, request.messageId, request.input⟩]
  next : inserted.nextSequence = model.nextSequence + 1
  recent : inserted.recentlyConsumed = model.recentlyConsumed
  stillOpen : inserted.closed = false

theorem issues_of_inserted {model inserted attached : RunQueueModel}
    {request : EnqueueQueuedMessageRequest} {sequence : ℕ}
    (h : model.enqueueDedup request.input request.status = .ok (.inserted sequence, inserted))
    (hattach : inserted.attachAckEffect sequence request.ackEffect = .ok attached) :
    Issues model request attached := by
  unfold RunQueueModel.enqueueDedup at h
  split at h
  · cases h
  rename_i hclosed
  split at h
  · cases h
  rename_i hlive
  split at h
  · cases h
  split at h
  · cases h
  rename_i hrecent
  split at h
  · cases h
  cases h
  unfold RunQueueModel.attachAckEffect at hattach
  split at hattach
  · rename_i entries hentries
    cases hattach
    have hlive' := setAckEffect_live hentries
    refine ⟨by simpa using hclosed, ?_, ?_, ?_, rfl, rfl, by simpa using hclosed⟩
    · intro x hx
      obtain ⟨entry, hentry, rfl⟩ := List.mem_map.1 hx
      have hne := List.find?_eq_none.1 hlive entry hentry
      rw [decide_eq_true_eq] at hne
      exact hne
    · intro x hx
      have hne := List.find?_eq_none.1 hrecent x hx
      rw [decide_eq_true_eq] at hne
      exact hne
    · show entries.map _ = _
      rw [hlive', List.map_append]
      rfl
  · cases hattach

theorem observed_insert {old new : RunQueueModel} (hlive : new.live = old.live ++ [x])
    (hfresh : x.sequence ∉ old.live.map (·.sequence)) (hopen : new.closed = false) :
    observed old new = [.inserted x] := by
  have hinserted : new.live.filter (fun y => y.sequence ∉ old.live.map (·.sequence)) = [x] := by
    rw [hlive, List.filter_append, List.filter_eq_nil_iff.2, List.nil_append, List.filter_singleton]
    · simp only [hfresh, not_false_eq_true, decide_true, cond_true]
    · intro y hy
      simpa using ⟨y, hy, rfl⟩
  have hgone : old.live.filter (fun y => y.sequence ∉ new.live.map (·.sequence)) = [] := by
    rw [List.filter_eq_nil_iff]
    intro y hy
    have hkept : y.sequence ∈ new.live.map (·.sequence) := by
      rw [hlive, List.map_append]
      exact List.mem_append_left _ (List.mem_map_of_mem hy)
    simp only [hkept, not_true_eq_false, decide_false, Bool.false_eq_true, not_false_eq_true]
  unfold observed
  dsimp only
  rw [hinserted, hgone, hopen]
  rfl

theorem Issues.moves {model attached : RunQueueModel} {request : EnqueueQueuedMessageRequest}
    (h : Issues model request attached) : Moves model attached := by
  refine ⟨fun hclosed => absurd (h.notClosed.symm.trans hclosed) (by decide), fun log htracks => ?_⟩
  let new : LiveInput := ⟨model.nextSequence, request.messageId, request.input⟩
  have hfresh : new.sequence ∉ model.live.map (·.sequence) := by
    intro hmem
    obtain ⟨y, hy, heq⟩ := List.mem_map.1 hmem
    have hlt := htracks.issued y (htracks.inserted y hy)
    exact absurd heq (Nat.ne_of_lt hlt)
  rw [observed_insert h.live hfresh h.stillOpen]
  -- an earlier sequence of the message is neither live nor recent
  have hold : ∀ x, .inserted x ∈ log → x.message = new.message → x.input = new.input →
      ConsumedBefore log x recentlyConsumedDedupLimit := by
    intro x hx hmessage hinput
    rcases htracks.known h.notClosed x hx with hlive | hforgotten | ⟨before, since, hrecent, -⟩
    · exact absurd hinput (h.notLive x hlive)
    · exact hforgotten
    · refine absurd hmessage (h.notRecent ⟨x.sequence, x.message⟩ ?_)
      rw [hrecent]
      simp
  refine ⟨?_, ?_, ?_, ?_, ?_, ?_⟩
  · intro x hx
    rw [h.next]
    rcases List.mem_cons.1 hx with hx | hx
    · cases hx
      exact Nat.lt_succ_self _
    · exact Nat.lt_succ_of_lt (htracks.issued x hx)
  · intro x hx
    rw [h.live, List.mem_append, List.mem_singleton] at hx
    rcases hx with hx | rfl
    · exact List.mem_cons_of_mem _ (htracks.inserted x hx)
    · exact List.mem_cons_self
  · rw [h.live, List.map_append, List.nodup_append]
    refine ⟨htracks.distinct, List.nodup_singleton _, fun a ha b hb hab => ?_⟩
    rw [List.map_singleton, List.mem_singleton] at hb
    rw [hab, hb] at ha
    exact hfresh ha
  · rw [h.recent]
    exact htracks.recent
  · intro _ x hx
    rw [h.live, h.recent]
    rcases List.mem_cons.1 hx with hx | hx
    · cases hx
      exact .inl (by simp)
    · rcases htracks.known h.notClosed x hx with hlive | hremembered
      · exact .inl (List.mem_append_left _ hlive)
      · exact .inr hremembered.quiet
  · exact htracks.once.insert hold

/-! ### Acknowledgements -/

/-- The sequences that the well-formed tokens of a list name. -/
def tokenSequences (tokens : List String) : List ℕ :=
  tokens.filterMap fun token => (ackSequence token).toOption

/-- The message of an entry, as the list of recent messages keeps it. -/
def QueueEntry.consumedMessage (entry : QueueEntry) : ConsumedMessage :=
  ⟨entry.sequence, entry.status.messageId⟩

theorem consumeTokens_eq_ok : ∀ {tokens : List String} {newly newly' : List ℕ}
    {model model' : RunQueueModel},
    RunQueueModel.consumeTokens tokens newly model = (.ok newly', model') →
    ∃ taken : List QueueEntry, newly' = newly ++ taken.map (·.sequence) ∧
      model' = taken.foldl RunQueueModel.consume model ∧ (∀ entry ∈ taken, entry ∈ model.entries) ∧
      (taken.map (·.sequence)).Sublist (tokenSequences tokens)
  | [], newly, newly', model, model', h => by
    cases h
    exact ⟨[], by simp [tokenSequences]⟩
  | token :: rest, newly, newly', model, model', h => by
    unfold RunQueueModel.consumeTokens at h
    split at h
    · cases h
    · rename_i sequence hsequence
      have htokens : tokenSequences (token :: rest) = sequence :: tokenSequences rest := by
        simp [tokenSequences, hsequence, Except.toOption]
      split at h
      · obtain ⟨taken, hnewly, hmodel, hlive, hsub⟩ := consumeTokens_eq_ok h
        exact ⟨taken, hnewly, hmodel, hlive, htokens ▸ hsub.cons _⟩
      · split at h
        · cases h
        · rename_i entry hentry
          obtain ⟨taken, hnewly, hmodel, hlive, hsub⟩ := consumeTokens_eq_ok h
          have hseq : entry.sequence = sequence := by simpa using List.find?_some hentry
          refine ⟨entry :: taken, by simp [hnewly, hseq], hmodel, ?_, ?_⟩
          · intro other hother
            rcases List.mem_cons.1 hother with rfl | hother
            · exact List.mem_of_find?_eq_some hentry
            · exact hlive other hother
          · rw [htokens, List.map_cons, hseq]
            exact hsub.cons_cons _

theorem foldl_consume (taken : List QueueEntry) (model : RunQueueModel) :
    (taken.foldl RunQueueModel.consume model).entries = model.entries ∧
      (taken.foldl RunQueueModel.consume model).nextSequence = model.nextSequence ∧
      (taken.foldl RunQueueModel.consume model).closed = model.closed := by
  induction taken generalizing model with
  | nil => exact ⟨rfl, rfl, rfl⟩
  | cons entry taken ih => exact ih (model.consume entry)

theorem foldl_consume_window (taken : List QueueEntry) {model : RunQueueModel}
    {pushed : List ConsumedMessage} (h : Window pushed model.recentlyConsumed) :
    Window (pushed ++ taken.map QueueEntry.consumedMessage)
      (taken.foldl RunQueueModel.consume model).recentlyConsumed := by
  induction taken generalizing model pushed with
  | nil => simpa using h
  | cons entry taken ih =>
    have hnext := @ih (model.consume entry) _ (h.push entry.consumedMessage)
    simpa using hnext

theorem foldl_recordAck (sequences : List ℕ) (model : RunQueueModel) :
    (sequences.foldl RunQueueModel.recordAck model).entries = model.entries ∧
      (sequences.foldl RunQueueModel.recordAck model).nextSequence = model.nextSequence ∧
      (sequences.foldl RunQueueModel.recordAck model).closed = model.closed ∧
      (sequences.foldl RunQueueModel.recordAck model).recentlyConsumed = model.recentlyConsumed := by
  induction sequences generalizing model with
  | nil => exact ⟨rfl, rfl, rfl, rfl⟩
  | cons sequence sequences ih =>
    obtain ⟨hentries, hnext, hclosed, hrecent⟩ := ih (model.recordAck sequence)
    rw [List.foldl_cons, hentries, hnext, hclosed, hrecent]
    unfold RunQueueModel.recordAck
    split <;> exact ⟨rfl, rfl, rfl, rfl⟩

/-- What an acknowledgement that changes the queue does to it. -/
structure Consumes (model : RunQueueModel) (taken : List QueueEntry) (acked : RunQueueModel) : Prop where
  notClosed : model.closed = false
  live : ∀ entry ∈ taken, entry ∈ model.entries
  distinct : (taken.map (·.sequence)).Nodup
  nonempty : taken ≠ []
  left : acked.live = model.live.filter fun x => x.sequence ∉ taken.map (·.sequence)
  next : acked.nextSequence = model.nextSequence
  recent : ∀ pushed, Window pushed model.recentlyConsumed →
    Window (pushed ++ taken.map QueueEntry.consumedMessage) acked.recentlyConsumed
  stillOpen : acked.closed = false

variable {model acked : RunQueueModel}

theorem consumes_of_newlyAcked {tokens : List String}
    {outcome : AckOutcome} (h : model.validateAndAck tokens = (.ok outcome, acked))
    (hnewly : outcome.newlyAcked = true) (hdistinct : (tokenSequences tokens).Nodup) :
    ∃ taken, Consumes model taken acked := by
  unfold RunQueueModel.validateAndAck at h
  split at h
  · cases h
    cases hnewly
  rename_i hclosed
  split at h
  · cases h
  rename_i newly consumed hconsume
  cases h
  obtain ⟨taken, hseqs, rfl, hlive, hsub⟩ := consumeTokens_eq_ok hconsume
  rw [List.nil_append] at hseqs
  subst hseqs
  obtain ⟨hentries, hnext, hstill⟩ := foldl_consume taken model
  obtain ⟨hentries', hnext', hstill', hrecent'⟩ :=
    foldl_recordAck (taken.map (·.sequence)) (taken.foldl RunQueueModel.consume model)
  refine ⟨taken, by simpa using hclosed, hlive, hdistinct.sublist hsub, ?_, ?_, ?_, ?_, ?_⟩
  · rintro rfl
    simp at hnewly
  · show (List.filter _ _).map _ = _
    rw [hentries', hentries, RunQueueModel.live, List.filter_map]
    rfl
  · exact hnext'.trans hnext
  · intro pushed hwindow
    show Window _ (RunQueueModel.recentlyConsumed (List.foldl _ _ _))
    rw [hrecent']
    exact foldl_consume_window taken hwindow
  · refine (hstill'.trans hstill).trans ?_
    simpa using hclosed

theorem Consumes.observed {taken : List QueueEntry} (h : Consumes model taken acked) :
    observed model acked =
      [.acked (model.live.filter fun x => x.sequence ∈ taken.map (·.sequence))] := by
  have hinserted : acked.live.filter (fun x => x.sequence ∉ model.live.map (·.sequence)) = [] := by
    rw [List.filter_eq_nil_iff]
    intro x hx
    rw [h.left, List.mem_filter] at hx
    have hlive : x.sequence ∈ model.live.map (·.sequence) := List.mem_map_of_mem hx.1
    simp only [hlive, not_true_eq_false, decide_false, Bool.false_eq_true, not_false_eq_true]
  have hgone : model.live.filter (fun x => x.sequence ∉ acked.live.map (·.sequence)) =
      model.live.filter fun x => x.sequence ∈ taken.map (·.sequence) := by
    refine List.filter_congr fun x hx => ?_
    rw [decide_eq_decide, h.left]
    constructor
    · intro hgone
      by_contra hnot
      refine hgone (List.mem_map.2 ⟨x, List.mem_filter.2 ⟨hx, ?_⟩, rfl⟩)
      simpa using hnot
    · intro htaken hstays
      obtain ⟨y, hy, heq⟩ := List.mem_map.1 hstays
      have hnot := (List.mem_filter.1 hy).2
      rw [decide_eq_true_eq] at hnot
      exact hnot (heq ▸ htaken)
  obtain ⟨entry, rest, htaken⟩ := List.exists_cons_of_ne_nil h.nonempty
  have hmem : entry.liveInput ∈ model.live.filter fun x => x.sequence ∈ taken.map (·.sequence) := by
    refine List.mem_filter.2 ⟨List.mem_map_of_mem (h.live entry (by simp [htaken])), ?_⟩
    rw [decide_eq_true_eq]
    exact List.mem_map.2 ⟨entry, by simp [htaken], rfl⟩
  unfold LoopHost.observed
  dsimp only
  rw [hinserted, hgone, h.stillOpen, if_neg (by decide), if_neg (List.ne_nil_of_mem hmem)]
  rfl

theorem Remembered.of_window {pushed recent : List ConsumedMessage}
    (before since : List ConsumedMessage) (h : Window pushed recent)
    (hpushed : pushed = before ++ ⟨x.sequence, x.message⟩ :: since)
    (hconsumed : ConsumedBefore log x since.length) : Remembered log recent x := by
  rcases h.find hpushed with ⟨before', hrecent⟩ | hfull
  · exact .inr ⟨before', since, hrecent, hconsumed⟩
  · exact .inl (hconsumed.mono hfull)

section consumes

variable {log : List QueueEvent} {model acked : RunQueueModel} {taken : List QueueEntry}
  (h : Consumes model taken acked) (htracks : Tracks log model)

include h htracks

theorem Consumes.mem_taken {x : LiveInput}
    (hx : x ∈ model.live.filter fun x => x.sequence ∈ taken.map (·.sequence)) :
    (⟨x.sequence, x.message⟩ : ConsumedMessage) ∈ taken.map QueueEntry.consumedMessage := by
  obtain ⟨hlive, hseq⟩ := List.mem_filter.1 hx
  rw [decide_eq_true_eq] at hseq
  obtain ⟨entry, hentry, heq⟩ := List.mem_map.1 hseq
  have hsame : entry.liveInput = x :=
    List.inj_on_of_nodup_map htracks.distinct (List.mem_map_of_mem (h.live entry hentry)) hlive heq
  rw [← hsame]
  exact List.mem_map_of_mem hentry

omit htracks in
theorem Consumes.length_le : (taken.map QueueEntry.consumedMessage).length ≤
    (model.live.filter fun x => x.sequence ∈ taken.map (·.sequence)).length := by
  have hnodup : (taken.map QueueEntry.liveInput).Nodup := by
    refine List.Nodup.of_map LiveInput.sequence ?_
    rw [List.map_map]
    exact h.distinct
  have hsubset : taken.map QueueEntry.liveInput ⊆
      model.live.filter fun x => x.sequence ∈ taken.map (·.sequence) := by
    intro x hx
    obtain ⟨entry, hentry, rfl⟩ := List.mem_map.1 hx
    refine List.mem_filter.2 ⟨List.mem_map_of_mem (h.live entry hentry), ?_⟩
    rw [decide_eq_true_eq]
    exact List.mem_map.2 ⟨entry, hentry, rfl⟩
  simpa using (List.subperm_of_subset hnodup hsubset).length_le

theorem Consumes.remembered {x : LiveInput} (hx : .inserted x ∈ log) : x ∈ acked.live ∨
    Remembered (.acked (model.live.filter fun x => x.sequence ∈ taken.map (·.sequence)) :: log)
      acked.recentlyConsumed x := by
  have hwindow := h.recent _ (.of_le htracks.recent)
  have hlength := h.length_le
  rcases htracks.known h.notClosed x hx with hlive | hforgotten | ⟨before, since, hrecent, hconsumed⟩
  · by_cases htaken : x.sequence ∈ taken.map (·.sequence)
    · -- consumed by this acknowledgement
      have hgone : x ∈ model.live.filter fun x => x.sequence ∈ taken.map (·.sequence) :=
        List.mem_filter.2 ⟨hlive, decide_eq_true htaken⟩
      obtain ⟨before, since, hsplit⟩ := List.append_of_mem (h.mem_taken htracks hgone)
      refine .inr (.of_window (model.recentlyConsumed ++ before) since hwindow
        (by rw [hsplit, List.append_assoc]) ⟨[], _, log, rfl, hgone, ?_⟩)
      rw [hsplit, List.length_append, List.length_cons] at hlength
      simp only [consumedCount]
      omega
    · left
      rw [h.left]
      exact List.mem_filter.2 ⟨hlive, decide_eq_true htaken⟩
  · exact .inr (.inl ((hforgotten.append [.acked _]).mono (by omega)))
  · refine .inr (.of_window before (since ++ taken.map QueueEntry.consumedMessage) hwindow
      (by rw [hrecent]; simp) ?_)
    refine (hconsumed.append [.acked _]).mono ?_
    rw [List.length_append]
    simp only [consumedCount]
    omega

end consumes

theorem Consumes.moves {taken : List QueueEntry}
    (h : Consumes model taken acked) : Moves model acked := by
  refine ⟨fun hclosed => absurd (h.notClosed.symm.trans hclosed) (by decide), fun log htracks => ?_⟩
  rw [h.observed]
  have hwindow := h.recent _ (.of_le htracks.recent)
  refine ⟨?_, ?_, ?_, ?_, ?_, ?_⟩
  · intro x hx
    rw [h.next]
    exact htracks.issued x (by simpa using hx)
  · intro x hx
    rw [h.left, List.mem_filter] at hx
    exact List.mem_cons_of_mem _ (htracks.inserted x hx.1)
  · rw [h.left]
    exact htracks.distinct.sublist (List.filter_sublist.map _)
  · obtain ⟨_, _, hlength, _⟩ := hwindow
    exact hlength
  · intro _ x hx
    exact h.remembered htracks (by simpa using hx)
  · exact htracks.once.cons_of_ne (fun _ => by simp)

/-! ### Confirmations and the terminal claim -/

theorem observed_of_live_eq {old new : RunQueueModel} (hlive : new.live = old.live)
    (hclosed : new.closed = old.closed) : observed old new = [] := by
  have hinserted : old.live.filter (fun x => x.sequence ∉ old.live.map (·.sequence)) = [] := by
    rw [List.filter_eq_nil_iff]
    intro x hx
    have hmem : x.sequence ∈ old.live.map (·.sequence) := List.mem_map_of_mem hx
    simp only [hmem, not_true_eq_false, decide_false, Bool.false_eq_true, not_false_eq_true]
  unfold observed
  dsimp only
  rw [hlive, hclosed, hinserted]
  cases old.closed <;> rfl

theorem moves_confirm (model : RunQueueModel) (submitted ackEffects : List ℕ)
    (rejected : List ThreadMessageId) :
    Moves model (((model.confirmSubmitFlips submitted).confirmRejectFlips rejected).confirmAckEffects
      ackEffects) := by
  refine ⟨id, fun log htracks => ?_⟩
  have hquiet : observed model (((model.confirmSubmitFlips submitted).confirmRejectFlips
      rejected).confirmAckEffects ackEffects) = [] := observed_of_live_eq rfl rfl
  rw [hquiet]
  exact ⟨htracks.issued, htracks.inserted, htracks.distinct, htracks.recent, htracks.known, htracks.once⟩

theorem observed_close (model : RunQueueModel) :
    observed model model.closeAndClaim = if model.closed then [] else [.closed] := rfl

theorem moves_close (model : RunQueueModel) : Moves model model.closeAndClaim := by
  refine ⟨fun _ => rfl, fun log htracks => ?_⟩
  have hinserted : ∀ x, .inserted x ∈ observed model model.closeAndClaim ++ log → .inserted x ∈ log := by
    intro x hx
    rw [observed_close] at hx
    split at hx <;> simpa using hx
  refine ⟨?_, ?_, List.nodup_nil, Nat.zero_le _, ?_, ?_⟩
  · exact fun x hx => htracks.issued x (hinserted x hx)
  · intro x hx
    cases hx
  · intro hopen
    cases hopen
  · rw [observed_close]
    split
    · exact htracks.once
    · exact htracks.once.cons_of_ne fun _ => by simp

end Ironclaw.LoopHost
