import Ironclaw.Resources.Journal

/-! # The journal and the slot

The part of the invariant of `System` that does not mention the threads.

* Only the flusher that the journal sends to, the writer, can write; a flusher is replaced only
  after it has stopped writing (`Pipeline.others`, `Pipeline.spawn`).
* A request of the current generation that may still be written belongs to the authority in the
  slot (`Pipeline.current`).
* An authority is poisoned, and a request fails for good, only when the authority is not the
  current one or the writer has stopped (`Broken`); a transient failure means that the authority
  is not the current one at the current generation (`Superseded`). -/

namespace Ironclaw.Resources

variable {Tz : Type}

/-- The flusher has stopped writing for good. -/
def Phase.dead : Phase Tz → Bool
  | .exiting | .stopped | .broken => true
  | _ => false

/-- The requests a flusher has taken from its queue and not answered. -/
def Phase.requests : Phase Tz → List (DeltaJournalRequest Tz)
  | .collecting requests | .persisting requests | .persisted requests
  | .rejected requests _ => requests
  | _ => []

/-- The requests a flusher has taken from its queue and may still write. -/
def Phase.unwritten : Phase Tz → List (DeltaJournalRequest Tz)
  | .collecting requests | .persisting requests => requests
  | _ => []

theorem Phase.unwritten_subset (phase : Phase Tz) : phase.unwritten ⊆ phase.requests := by
  cases phase <;> first | exact List.Subset.refl _ | exact List.nil_subset _

/-- What a flusher may still write, in order. -/
def Flusher.pending (f : Flusher Tz) : List (DeltaJournalRequest Tz) :=
  if f.phase.dead then [] else f.phase.unwritten ++ f.queue

theorem Flusher.pending_of_dead {f : Flusher Tz} (h : f.phase.dead = true) : f.pending = [] :=
  if_pos h

theorem Flusher.pending_of_live {f : Flusher Tz} (h : f.phase.dead = false) :
    f.pending = f.phase.unwritten ++ f.queue := by
  unfold pending
  rw [h]
  rfl

namespace System

/-- The flusher that the journal sends to. -/
def writer (s : System Tz) : Flusher Tz := s.flushers s.sender

/-- Nothing sent to the journal is written any more. -/
def Dead (s : System Tz) : Prop := s.writer.phase.dead = true

/-- The authority is not the current one, or nothing is written any more. -/
def Broken (s : System Tz) (a : ℕ) : Prop := ∀ g, s.slot = .ready a g → s.Dead

/-- The authority is not the current one at the current generation, or nothing is written any
more. -/
def Superseded (s : System Tz) (a : ℕ) : Prop :=
  ∀ g, s.slot = .ready a g → g ≠ s.generation ∨ s.Dead

/-- A request as `enqueue_delta` makes it: stamped with the generation its authority was loaded
at. -/
def Issued (s : System Tz) (r : DeltaJournalRequest Tz) : Prop :=
  r.id < s.nextRequest ∧ r.authority < s.nextAuthority ∧ r.generation = s.loadedAt r.authority

/-- What an acknowledgement means when it is sent. -/
def Honest (s : System Tz) (r : DeltaJournalRequest Tz) : Ack → Prop
  | .ok => ∃ e ∈ s.log, e.request = r
  | .transient => s.Superseded r.authority
  | .fatal => s.Broken r.authority

/-- The journal and the slot, apart from the threads. -/
structure Pipeline (s : System Tz) : Prop where
  others : ∀ k, k ≠ s.sender → (s.flushers k).phase.dead = true
  slot : ∀ a g, s.slot = .ready a g →
    a < s.nextAuthority ∧ g ≤ s.generation ∧ (s.poisoned a = false → g = s.loadedAt a)
  loadedAt : ∀ a, a < s.nextAuthority → s.loadedAt a ≤ s.generation
  poisoned : ∀ a, s.poisoned a = true → a < s.nextAuthority ∧ s.Broken a
  taken : ∀ k, ∀ r ∈ (s.flushers k).phase.requests, s.Issued r
  queued : ∀ k, ∀ r ∈ (s.flushers k).queue, s.Issued r
  orphans : ∀ k, k ≠ s.sender → ∀ r ∈ (s.flushers k).queue, s.Broken r.authority
  acks : ∀ r ack, s.acks r = some ack → s.Issued r ∧ s.Honest r ack
  current : ∀ r ∈ s.writer.pending, r.generation = s.generation →
    s.slot = .ready r.authority r.generation
  rejected : ∀ requests ack, s.writer.phase = .rejected requests ack →
    ack ≠ .ok ∧ ∀ r ∈ requests, s.Superseded r.authority
  persisted : ∀ requests, s.writer.phase = .persisted requests →
    ∀ r ∈ requests, ∃ e ∈ s.log, e.request = r
  log : ∀ e ∈ s.log, s.Issued e.request ∧ e.appendedAt = e.request.generation

variable {s : System Tz}

theorem not_mem_pending (h : s.Dead) {r : DeltaJournalRequest Tz} : r ∉ s.writer.pending := by
  rw [Flusher.pending_of_dead h]
  exact List.not_mem_nil

theorem Honest.imp {s' : System Tz} {r : DeltaJournalRequest Tz} {ack : Ack}
    (h : s.Honest r ack) (hlog : s.log ⊆ s'.log)
    (hsuperseded : s.Superseded r.authority → s'.Superseded r.authority)
    (hbroken : s.Broken r.authority → s'.Broken r.authority) : s'.Honest r ack := by
  cases ack with
  | ok =>
    obtain ⟨e, he, her⟩ := h
    exact ⟨e, hlog he, her⟩
  | transient => exact hsuperseded h
  | fatal => exact hbroken h

namespace Pipeline

variable (h : Pipeline s)
include h

/-- Only the flusher the journal sends to can be writing. -/
theorem eq_sender {k : ℕ} (hk : (s.flushers k).phase.dead = false) : k = s.sender := by
  by_contra hne
  have hdead := h.others k hne
  rw [hk] at hdead
  exact Bool.noConfusion hdead

theorem pending_issued : ∀ r ∈ s.writer.pending, s.Issued r := by
  intro r hr
  cases hdead : s.writer.phase.dead with
  | true => exact absurd hr (not_mem_pending hdead)
  | false =>
    rw [Flusher.pending_of_live hdead, List.mem_append] at hr
    rcases hr with hr | hr
    · exact h.taken s.sender r (Phase.unwritten_subset _ hr)
    · exact h.queued s.sender r hr

/-- With no authority at the current generation in the slot, nothing of it is left to write. -/
theorem no_current (hslot : ∀ a g, s.slot = .ready a g → g ≠ s.generation ∨ s.Dead) :
    ∀ r ∈ s.writer.pending, r.generation ≠ s.generation := by
  intro r hr hgen
  rcases hslot _ _ (h.current r hr hgen) with hne | hdead
  · exact hne hgen
  · exact not_mem_pending hdead hr

/-- The threads, the mutex of the slot and the memory of the authorities are not looked at. -/
theorem frame {threads : ℕ → Thread Tz} {locked : Option ℕ} {authorities : ℕ → AuthorityObject Tz} :
    Pipeline { s with threads := threads, locked := locked, authorities := authorities } :=
  ⟨h.others, h.slot, h.loadedAt, h.poisoned, h.taken, h.queued, h.orphans, h.acks, h.current,
    h.rejected, h.persisted, h.log⟩

/-! ### Steps that change the slot -/

theorem vacate {slot : AuthorityLifecycle} (hnew : ∀ a g, slot ≠ .ready a g)
    (hold : ∀ a g, s.slot = .ready a g → g ≠ s.generation ∨ s.Dead) :
    Pipeline { s with slot := slot } where
  others := h.others
  slot := fun a g hslot => absurd hslot (hnew a g)
  loadedAt := h.loadedAt
  poisoned := fun a hp => ⟨(h.poisoned a hp).1, fun g hslot => absurd hslot (hnew a g)⟩
  taken := h.taken
  queued := h.queued
  orphans := fun k hk r hr g hslot => absurd hslot (hnew _ g)
  acks := by
    intro r ack hack
    obtain ⟨hissued, hhonest⟩ := h.acks r ack hack
    exact ⟨hissued, hhonest.imp (List.Subset.refl _) (fun _ g hslot => absurd hslot (hnew _ g))
      (fun _ g hslot => absurd hslot (hnew _ g))⟩
  current := fun r hr hgen => absurd hgen (h.no_current hold r hr)
  rejected := fun requests ack hphase =>
    ⟨(h.rejected requests ack hphase).1, fun r hr g hslot => absurd hslot (hnew _ g)⟩
  persisted := h.persisted
  log := h.log

/-- The poisoned authority is put back after a failed restart. -/
theorem reinstall {a : ℕ} (ha : s.poisoned a = true) (hdead : s.Dead) :
    Pipeline { s with slot := .ready a s.generation } where
  others := h.others
  slot := by
    intro b g hslot
    cases hslot
    refine ⟨(h.poisoned a ha).1, le_rfl, fun hp => ?_⟩
    rw [ha] at hp
    exact Bool.noConfusion hp
  loadedAt := h.loadedAt
  poisoned := fun b hb => ⟨(h.poisoned b hb).1, fun _ _ => hdead⟩
  taken := h.taken
  queued := h.queued
  orphans := fun _ _ _ _ _ _ => hdead
  acks := by
    intro r ack hack
    obtain ⟨hissued, hhonest⟩ := h.acks r ack hack
    exact ⟨hissued, hhonest.imp (List.Subset.refl _) (fun _ _ _ => .inr hdead) (fun _ _ _ => hdead)⟩
  current := fun r hr => absurd hr (not_mem_pending hdead)
  rejected := fun requests ack hphase =>
    ⟨(h.rejected requests ack hphase).1, fun _ _ _ _ => .inr hdead⟩
  persisted := h.persisted
  log := h.log

/-- A loaded authority is put into the vacant slot. -/
theorem install {g : ℕ} (hvacant : s.slot = .vacant) (hg : g ≤ s.generation) :
    Pipeline { s with
      slot := .ready s.nextAuthority g
      poisoned := fun b => if b = s.nextAuthority then false else s.poisoned b
      loadedAt := fun b => if b = s.nextAuthority then g else s.loadedAt b
      nextAuthority := s.nextAuthority + 1 } := by
  have hother : ∀ {b : ℕ} {P : ℕ → Prop}, b < s.nextAuthority → ∀ g',
      AuthorityLifecycle.ready s.nextAuthority g = .ready b g' → P g' := by
    intro b P hb g' hslot
    cases hslot
    exact absurd hb (lt_irrefl _)
  have hissued : ∀ {r : DeltaJournalRequest Tz}, s.Issued r →
      r.id < s.nextRequest ∧ r.authority < s.nextAuthority + 1 ∧
        r.generation = if r.authority = s.nextAuthority then g else s.loadedAt r.authority := by
    intro r hr
    rw [if_neg (Nat.ne_of_lt hr.2.1)]
    exact ⟨hr.1, Nat.lt_succ_of_lt hr.2.1, hr.2.2⟩
  refine ⟨h.others, ?_, ?_, ?_, fun k r hr => hissued (h.taken k r hr),
    fun k r hr => hissued (h.queued k r hr),
    fun k hk r hr => hother (h.queued k r hr).2.1, ?_, ?_, ?_, h.persisted, ?_⟩
  · intro b g' hslot
    cases hslot
    exact ⟨Nat.lt_succ_self _, hg, fun _ => (if_pos rfl).symm⟩
  · intro b hb
    dsimp only at hb ⊢
    split_ifs with hn
    · exact hg
    · exact h.loadedAt b (by omega)
  · intro b hb
    dsimp only at hb ⊢
    split_ifs at hb with hn
    have hlt := (h.poisoned b hb).1
    exact ⟨Nat.lt_succ_of_lt hlt, hother hlt⟩
  · intro r ack hack
    obtain ⟨hr, hhonest⟩ := h.acks r ack hack
    exact ⟨hissued hr, hhonest.imp (List.Subset.refl _) (fun _ => hother hr.2.1)
      (fun _ => hother hr.2.1)⟩
  · intro r hr hgen
    refine absurd hgen (h.no_current (fun a g' hslot => ?_) r hr)
    rw [hvacant] at hslot
    cases hslot
  · intro requests ack hphase
    refine ⟨(h.rejected requests ack hphase).1, fun r hr => ?_⟩
    have hr' : r ∈ s.writer.phase.requests := by
      rw [show s.writer.phase = .rejected requests ack from hphase]
      exact hr
    exact hother (h.taken s.sender r hr').2.1
  · intro e he
    exact ⟨hissued (h.log e he).1, (h.log e he).2⟩

/-! ### Steps of the journal -/

/-- The generation is raised: the slot is not at the new generation, and no request is. -/
theorem retire : Pipeline { s with generation := s.generation + 1 } := by
  have hsuperseded : ∀ a, System.Superseded { s with generation := s.generation + 1 } a :=
    fun a g hslot => .inl (Nat.ne_of_lt (Nat.lt_succ_of_le (h.slot a g hslot).2.1))
  exact { h with
    slot := fun a g hslot =>
      ⟨(h.slot a g hslot).1, Nat.le_succ_of_le (h.slot a g hslot).2.1, (h.slot a g hslot).2.2⟩
    loadedAt := fun a ha => Nat.le_succ_of_le (h.loadedAt a ha)
    acks := fun r ack hack =>
      ⟨(h.acks r ack hack).1,
        (h.acks r ack hack).2.imp (List.Subset.refl _) (fun _ => hsuperseded _) id⟩
    current := by
      intro r hr hgen
      have hissued := h.pending_issued r hr
      have hle := h.loadedAt _ hissued.2.1
      rw [← hissued.2.2, show r.generation = s.generation + 1 from hgen] at hle
      exact absurd hle (Nat.not_succ_le_self _)
    rejected := fun requests ack hf =>
      ⟨(h.rejected requests ack hf).1, fun r _ => hsuperseded r.authority⟩ }

/-- The writer goes on: it keeps its promises about what it has taken, and takes only what was
issued. -/
theorem setWriter {f : Flusher Tz} (hdead : s.Dead → f.phase.dead = true)
    (htaken : ∀ r ∈ f.phase.requests, s.Issued r) (hqueued : ∀ r ∈ f.queue, s.Issued r)
    (hcurrent : ∀ r ∈ f.pending, r.generation = s.generation →
      s.slot = .ready r.authority r.generation)
    (hrejected : ∀ requests ack, f.phase = .rejected requests ack →
      ack ≠ .ok ∧ ∀ r ∈ requests, s.Superseded r.authority)
    (hpersisted : ∀ requests, f.phase = .persisted requests →
      ∀ r ∈ requests, ∃ e ∈ s.log, e.request = r) :
    Pipeline (s.setFlusher s.sender f) := by
  have hwriter : (s.setFlusher s.sender f).writer = f := if_pos rfl
  have hother : ∀ k, k ≠ s.sender → (s.setFlusher s.sender f).flushers k = s.flushers k :=
    fun k hk => if_neg hk
  have hdead' : s.Dead → (s.setFlusher s.sender f).Dead := by
    intro hd
    unfold Dead
    rw [hwriter]
    exact hdead hd
  have hbroken : ∀ {a}, s.Broken a → (s.setFlusher s.sender f).Broken a :=
    fun hb g hslot => hdead' (hb g hslot)
  have hsuperseded : ∀ {a}, s.Superseded a → (s.setFlusher s.sender f).Superseded a :=
    fun hb g hslot => (hb g hslot).imp_right hdead'
  refine ⟨?_, h.slot, h.loadedAt, fun a ha => ⟨(h.poisoned a ha).1, hbroken (h.poisoned a ha).2⟩,
    ?_, ?_, ?_, ?_, ?_, ?_, ?_, h.log⟩
  · intro k hk
    rw [hother k hk]
    exact h.others k hk
  · intro k r hr
    by_cases hk : k = s.sender
    · subst hk
      rw [show (s.setFlusher s.sender f).flushers s.sender = f from hwriter] at hr
      exact htaken r hr
    · rw [hother k hk] at hr
      exact h.taken k r hr
  · intro k r hr
    by_cases hk : k = s.sender
    · subst hk
      rw [show (s.setFlusher s.sender f).flushers s.sender = f from hwriter] at hr
      exact hqueued r hr
    · rw [hother k hk] at hr
      exact h.queued k r hr
  · intro k hk r hr
    rw [hother k hk] at hr
    exact hbroken (h.orphans k hk r hr)
  · intro r ack hack
    obtain ⟨hissued, hhonest⟩ := h.acks r ack hack
    exact ⟨hissued, hhonest.imp (List.Subset.refl _) hsuperseded hbroken⟩
  · rw [hwriter]
    exact hcurrent
  · rw [hwriter]
    exact fun requests ack hphase =>
      ⟨(hrejected requests ack hphase).1, fun r hr =>
        hsuperseded ((hrejected requests ack hphase).2 r hr)⟩
  · rw [hwriter]
    exact hpersisted

/-- A flusher that no longer writes, whether or not the journal still sends to it, loses requests
or stops. -/
theorem setDead {k : ℕ} {f : Flusher Tz} (hdead : f.phase.dead = true)
    (hqueue : f.queue ⊆ (s.flushers k).queue) (hphase : f.phase.requests = []) :
    Pipeline (s.setFlusher k f) := by
  have hno : ∀ r ∈ f.phase.requests, s.Issued r := by
    rw [hphase]
    exact fun r hr => absurd hr List.not_mem_nil
  by_cases hk : k = s.sender
  · subst hk
    refine h.setWriter (fun _ => hdead) hno (fun r hr => h.queued _ r (hqueue hr)) ?_ ?_ ?_
    · rw [Flusher.pending_of_dead hdead]
      exact fun r hr => absurd hr List.not_mem_nil
    · intro requests ack hf
      rw [hf] at hdead
      exact Bool.noConfusion hdead
    · intro requests hf
      rw [hf] at hdead
      exact Bool.noConfusion hdead
  · have hwriter : (s.setFlusher k f).writer = s.writer := if_neg (Ne.symm hk)
    have hflushers : ∀ j, (s.setFlusher k f).flushers j = if j = k then f else s.flushers j :=
      fun _ => rfl
    have hdead' : s.Dead → (s.setFlusher k f).Dead := by
      unfold Dead
      rw [hwriter]
      exact id
    have hbroken : ∀ {a}, s.Broken a → (s.setFlusher k f).Broken a :=
      fun hb g hslot => hdead' (hb g hslot)
    have hsuperseded : ∀ {a}, s.Superseded a → (s.setFlusher k f).Superseded a :=
      fun hb g hslot => (hb g hslot).imp_right hdead'
    refine ⟨?_, h.slot, h.loadedAt, fun a ha => ⟨(h.poisoned a ha).1, hbroken (h.poisoned a ha).2⟩,
      ?_, ?_, ?_, ?_, ?_, ?_, ?_, h.log⟩
    · intro j hj
      rw [hflushers]
      split_ifs
      · exact hdead
      · exact h.others j hj
    · intro j r hr
      rw [hflushers] at hr
      split_ifs at hr
      · exact hno r hr
      · exact h.taken j r hr
    · intro j r hr
      rw [hflushers] at hr
      split_ifs at hr
      · exact h.queued k r (hqueue hr)
      · exact h.queued j r hr
    · intro j hj r hr
      rw [hflushers] at hr
      split_ifs at hr
      · exact hbroken (h.orphans k hk r (hqueue hr))
      · exact hbroken (h.orphans j hj r hr)
    · intro r ack hack
      obtain ⟨hissued, hhonest⟩ := h.acks r ack hack
      exact ⟨hissued, hhonest.imp (List.Subset.refl _) hsuperseded hbroken⟩
    · rw [hwriter]
      exact h.current
    · rw [hwriter]
      exact fun requests ack hf =>
        ⟨(h.rejected requests ack hf).1, fun r hr => hsuperseded ((h.rejected requests ack hf).2 r hr)⟩
    · rw [hwriter]
      exact h.persisted

/-- A replacement of a writer that no longer writes. -/
theorem spawn (hslot : s.slot = .recovering) (hdead : s.Dead)
    {f : Flusher Tz} (hqueue : f.queue = []) (hphase : f.phase = .idle ∨ f.phase = .broken) :
    Pipeline { s.setFlusher (s.sender + 1) f with sender := s.sender + 1 } := by
  have hnot : ∀ a g, s.slot ≠ .ready a g := by
    intro a g hready
    rw [hslot] at hready
    cases hready
  have hwriter : { s.setFlusher (s.sender + 1) f with sender := s.sender + 1 }.writer = f :=
    if_pos rfl
  have hflushers : ∀ j, (s.setFlusher (s.sender + 1) f).flushers j =
      if j = s.sender + 1 then f else s.flushers j := fun _ => rfl
  have hnone : f.phase.requests = [] ∧ f.phase.unwritten = [] := by
    rcases hphase with hf | hf <;> rw [hf] <;> exact ⟨rfl, rfl⟩
  refine ⟨?_, h.slot, h.loadedAt,
    fun a ha => ⟨(h.poisoned a ha).1, fun g hready => absurd hready (hnot a g)⟩,
    ?_, ?_, fun _ _ _ _ g hready => absurd hready (hnot _ g), ?_, ?_, ?_, ?_, h.log⟩
  · intro j hj
    show ((s.setFlusher (s.sender + 1) f).flushers j).phase.dead = true
    rw [hflushers, if_neg hj]
    by_cases hold : j = s.sender
    · subst hold
      exact hdead
    · exact h.others j hold
  · intro j r hr
    replace hr : r ∈ ((s.setFlusher (s.sender + 1) f).flushers j).phase.requests := hr
    rw [hflushers] at hr
    split_ifs at hr
    · rw [hnone.1] at hr
      exact absurd hr List.not_mem_nil
    · exact h.taken j r hr
  · intro j r hr
    replace hr : r ∈ ((s.setFlusher (s.sender + 1) f).flushers j).queue := hr
    rw [hflushers] at hr
    split_ifs at hr
    · rw [hqueue] at hr
      exact absurd hr List.not_mem_nil
    · exact h.queued j r hr
  · intro r ack hack
    obtain ⟨hissued, hhonest⟩ := h.acks r ack hack
    exact ⟨hissued, hhonest.imp (List.Subset.refl _) (fun _ g hready => absurd hready (hnot _ g))
      (fun _ g hready => absurd hready (hnot _ g))⟩
  · rw [hwriter]
    intro r hr
    unfold Flusher.pending at hr
    rw [hnone.2, hqueue] at hr
    split_ifs at hr <;> exact absurd hr List.not_mem_nil
  · rw [hwriter]
    intro requests ack hf
    rcases hphase with hp | hp <;> rw [hp] at hf <;> cases hf
  · rw [hwriter]
    intro requests hf
    rcases hphase with hp | hp <;> rw [hp] at hf <;> cases hf

/-- A request of a retired generation has lost its authority. -/
theorem superseded_of_issued {r : DeltaJournalRequest Tz} (hr : s.Issued r)
    (hne : r.generation ≠ s.generation) : s.Superseded r.authority := by
  intro g hslot
  cases hp : s.poisoned r.authority with
  | true => exact .inr ((h.poisoned _ hp).2 g hslot)
  | false =>
    have hg := (h.slot _ g hslot).2.2 hp
    rw [hr.2.2, ← hg] at hne
    exact .inl hne

/-- The writer fails, and retires the generation of its batch. -/
theorem reject {requests : List (DeltaJournalRequest Tz)} {ack : Ack}
    (hack : ack ≠ .ok) (hphase : s.writer.phase = .persisting requests) :
    Pipeline { s.setFlusher s.sender ⟨s.writer.queue, .rejected requests ack⟩ with
      generation := s.generation + 1 } := by
  have hlive : s.writer.phase.dead = false := by rw [hphase]; rfl
  have htaken : ∀ r ∈ requests, s.Issued r := by
    intro r hr
    refine h.taken s.sender r ?_
    rw [show (s.flushers s.sender).phase = .persisting requests from hphase]
    exact hr
  refine h.retire.setWriter (f := ⟨s.writer.queue, .rejected requests ack⟩) (fun hdead => ?_)
    htaken (h.queued s.sender) ?_ ?_ (fun _ hf => by cases hf)
  · rw [show s.writer.phase.dead = true from hdead] at hlive
    exact Bool.noConfusion hlive
  · intro r hr
    refine h.retire.current r ?_
    rw [show System.writer { s with generation := s.generation + 1 } = s.writer from rfl,
      Flusher.pending_of_live hlive]
    exact List.mem_append_right _ hr
  · intro requests' ack' hf
    cases hf
    refine ⟨hack, fun r hr => h.retire.superseded_of_issued (htaken r hr) ?_⟩
    have hle := h.loadedAt _ (htaken r hr).2.1
    rw [← (htaken r hr).2.2] at hle
    exact Nat.ne_of_lt (Nat.lt_succ_of_le hle)

theorem extend {records : List (LogRecord Tz)}
    (hrecords : ∀ e ∈ records, s.Issued e.request ∧ e.appendedAt = e.request.generation) :
    Pipeline { s with log := s.log ++ records } :=
  { h with
    acks := fun r ack hack =>
      ⟨(h.acks r ack hack).1, (h.acks r ack hack).2.imp (List.subset_append_left _ _) id id⟩
    persisted := by
      intro requests hphase r hr
      obtain ⟨e, he, her⟩ := h.persisted requests hphase r hr
      exact ⟨e, List.mem_append_left _ he, her⟩
    log := by
      intro e he
      rcases List.mem_append.mp he with he | he
      · exact h.log e he
      · exact hrecords e he }

/-- A poisoned authority is not the current one, or nothing is written any more. -/
theorem poison {a : ℕ} (ha : a < s.nextAuthority) (hbroken : s.Broken a) :
    Pipeline { s with poisoned := fun b => if b = a then true else s.poisoned b } :=
  { h with
    slot := by
      intro b g hslot
      refine ⟨(h.slot b g hslot).1, (h.slot b g hslot).2.1, fun hp => ?_⟩
      dsimp only at hp
      split_ifs at hp
      exact (h.slot b g hslot).2.2 hp
    poisoned := by
      intro b hp
      dsimp only at hp
      split_ifs at hp with hb
      · subst hb
        exact ⟨ha, hbroken⟩
      · exact h.poisoned b hp }

theorem next_request : Pipeline { s with nextRequest := s.nextRequest + 1 } := by
  have hissued : ∀ {r : DeltaJournalRequest Tz}, s.Issued r →
      System.Issued { s with nextRequest := s.nextRequest + 1 } r :=
    fun hr => ⟨Nat.lt_succ_of_lt hr.1, hr.2⟩
  exact { h with
    taken := fun k r hr => hissued (h.taken k r hr)
    queued := fun k r hr => hissued (h.queued k r hr)
    acks := fun r ack hack => ⟨hissued (h.acks r ack hack).1, (h.acks r ack hack).2⟩
    log := fun e he => ⟨hissued (h.log e he).1, (h.log e he).2⟩ }

theorem tell [DecidableEq Tz] {requests : List (DeltaJournalRequest Tz)}
    {ack : Ack} (htold : ∀ r ∈ requests, s.Issued r ∧ s.Honest r ack) :
    Pipeline (s.tell requests ack) :=
  { h with
    acks := by
      intro r ack' hack
      replace hack : (if r ∈ requests then some ack else s.acks r) = some ack' := hack
      split_ifs at hack with hr
      · cases hack
        exact htold r hr
      · exact h.acks r ack' hack }

omit h

end Pipeline

/-! ### A new governor -/

theorem initial_phase (started hasRuntime : Bool) (k : ℕ) :
    ((initial started hasRuntime : System Tz).flushers k).phase = .idle ∨
    ((initial started hasRuntime : System Tz).flushers k).phase = .broken ∨
    ((initial started hasRuntime : System Tz).flushers k).phase = .stopped := by
  show (if k = 0 then spawnedPhase started hasRuntime else .stopped) = _ ∨ _
  cases started <;> cases hasRuntime <;> by_cases hk : k = 0 <;> simp [hk, spawnedPhase, initial]

theorem pending_initial (started hasRuntime : Bool) :
    (initial started hasRuntime : System Tz).writer.pending = [] := by
  unfold Flusher.pending writer
  rcases @initial_phase Tz started hasRuntime 0 with hp | hp | hp
  · rw [show ((initial started hasRuntime : System Tz).flushers
      (initial started hasRuntime : System Tz).sender).phase = .idle from hp]
    rfl
  · exact if_pos (by rw [show ((initial started hasRuntime : System Tz).flushers
      (initial started hasRuntime : System Tz).sender).phase = .broken from hp]; rfl)
  · exact if_pos (by rw [show ((initial started hasRuntime : System Tz).flushers
      (initial started hasRuntime : System Tz).sender).phase = .stopped from hp]; rfl)

theorem pipeline_initial (started hasRuntime : Bool) :
    Pipeline (initial started hasRuntime : System Tz) where
  others := by
    intro k hk
    show Phase.dead (if k = 0 then _ else .stopped) = true
    rw [if_neg (show k ≠ 0 from hk)]
    rfl
  slot := fun a g h => by cases h
  loadedAt := fun a h => absurd h (Nat.not_lt_zero a)
  poisoned := fun a h => Bool.noConfusion h
  taken := by
    intro k r hr
    rcases @initial_phase Tz started hasRuntime k with hp | hp | hp <;> rw [hp] at hr <;>
      exact absurd hr List.not_mem_nil
  queued := fun _ _ hr => absurd hr List.not_mem_nil
  orphans := fun _ _ _ hr => absurd hr List.not_mem_nil
  acks := fun r ack h => by cases h
  current := by
    rw [pending_initial]
    exact fun r hr => absurd hr List.not_mem_nil
  rejected := by
    intro requests ack hphase
    rcases @initial_phase Tz started hasRuntime 0 with hp | hp | hp <;>
      cases hp.symm.trans hphase
  persisted := by
    intro requests hphase
    rcases @initial_phase Tz started hasRuntime 0 with hp | hp | hp <;>
      cases hp.symm.trans hphase
  log := fun e he => absurd he List.not_mem_nil

end System

end Ironclaw.Resources
