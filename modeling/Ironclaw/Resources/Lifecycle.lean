import Ironclaw.Resources.Pipeline

/-! # The life cycle of the authority

What a thread can rely on at each point of a call (`Relies`), and that every step keeps it
together with the invariant of the journal (`Lifecycle.step`).

`Evolves` is what no step undoes. What a thread relies on is stable under it, apart from the slot:
that is left alone by the others while the thread has its mutex, and while it replaces the
journal (`Relies.evolve`). -/

namespace Ironclaw.Resources

variable {Tz : Type}

/-- The thread has emptied the slot and has not filled it again. -/
def Thread.recovers : Thread Tz → Bool
  | .restarting _ | .retired _ | .restarted _ _ => true
  | _ => false

namespace System

def Relies (s : System Tz) (t : ℕ) : Thread Tz → Prop
  | .idle | .succeeded none | .failed => True
  | .loading g | .loaded g _ => s.locked = some t ∧ s.slot = .vacant ∧ g ≤ s.generation
  | .fetched a | .available a | .applied a _ => a < s.nextAuthority
  | .sending a _ g =>
    s.locked = some t ∧ s.slot = .ready a g ∧ a < s.nextAuthority ∧ g = s.loadedAt a
  | .waiting r => s.Issued r
  | .succeeded (some r) => s.Issued r ∧ ∃ e ∈ s.log, e.request = r
  | .discarding a => a < s.nextAuthority ∧ s.Superseded a
  | .poisoning a => a < s.nextAuthority ∧ s.Broken a
  | .invalidating a => a < s.nextAuthority ∧ s.poisoned a = true
  | .restarting a | .retired a =>
    a < s.nextAuthority ∧ s.poisoned a = true ∧ s.slot = .recovering ∧ s.Dead
  | .restarted a replaced =>
    a < s.nextAuthority ∧ s.poisoned a = true ∧ s.slot = .recovering ∧
      (replaced = false → s.Dead)

structure Threads (s : System Tz) : Prop where
  relies : ∀ t, s.Relies t (s.threads t)
  alone : ∀ t u, (s.threads t).recovers = true → (s.threads u).recovers = true → t = u

/-- What no step undoes. -/
structure Evolves (s s' : System Tz) : Prop where
  generation : s.generation ≤ s'.generation
  nextAuthority : s.nextAuthority ≤ s'.nextAuthority
  nextRequest : s.nextRequest ≤ s'.nextRequest
  loadedAt : ∀ a, a < s.nextAuthority → s'.loadedAt a = s.loadedAt a
  poisoned : ∀ a, a < s.nextAuthority → s.poisoned a = true → s'.poisoned a = true
  superseded : ∀ a, a < s.nextAuthority → s.Superseded a → s'.Superseded a
  broken : ∀ a, a < s.nextAuthority → s.Broken a → s'.Broken a
  log : s.log ⊆ s'.log

variable {s s' : System Tz}

theorem Evolves.issued (h : Evolves s s') {r : DeltaJournalRequest Tz} (hr : s.Issued r) :
    s'.Issued r :=
  ⟨lt_of_lt_of_le hr.1 h.nextRequest, lt_of_lt_of_le hr.2.1 h.nextAuthority,
    hr.2.2.trans (h.loadedAt _ hr.2.1).symm⟩

/-- What a thread relies on survives the steps of others: they leave the slot alone while it is
locked, and while the thread is replacing the journal. -/
theorem Relies.evolve {t : ℕ} {x : Thread Tz} (h : s.Relies t x) (e : Evolves s s')
    (hlocked : s.locked = some t → s'.locked = some t ∧ s'.slot = s.slot)
    (hrecovers : x.recovers = true → s'.slot = s.slot ∧ (s.Dead → s'.Dead)) : s'.Relies t x := by
  cases x with
  | idle => trivial
  | failed => trivial
  | loading g =>
    obtain ⟨hl, hslot, hg⟩ := h
    exact ⟨(hlocked hl).1, (hlocked hl).2.trans hslot, hg.trans e.generation⟩
  | loaded g state =>
    obtain ⟨hl, hslot, hg⟩ := h
    exact ⟨(hlocked hl).1, (hlocked hl).2.trans hslot, hg.trans e.generation⟩
  | fetched a => exact lt_of_lt_of_le h e.nextAuthority
  | available a => exact lt_of_lt_of_le h e.nextAuthority
  | applied a delta => exact lt_of_lt_of_le h e.nextAuthority
  | sending a delta g =>
    obtain ⟨hl, hslot, ha, hg⟩ := h
    exact ⟨(hlocked hl).1, (hlocked hl).2.trans hslot, lt_of_lt_of_le ha e.nextAuthority,
      hg.trans (e.loadedAt a ha).symm⟩
  | waiting r => exact e.issued h
  | succeeded r =>
    cases r with
    | none => trivial
    | some r =>
      obtain ⟨hr, record, hrecord, heq⟩ := h
      exact ⟨e.issued hr, record, e.log hrecord, heq⟩
  | discarding a => exact ⟨lt_of_lt_of_le h.1 e.nextAuthority, e.superseded a h.1 h.2⟩
  | poisoning a => exact ⟨lt_of_lt_of_le h.1 e.nextAuthority, e.broken a h.1 h.2⟩
  | invalidating a => exact ⟨lt_of_lt_of_le h.1 e.nextAuthority, e.poisoned a h.1 h.2⟩
  | restarting a =>
    obtain ⟨ha, hp, hslot, hdead⟩ := h
    obtain ⟨hsame, hdead'⟩ := hrecovers rfl
    exact ⟨lt_of_lt_of_le ha e.nextAuthority, e.poisoned a ha hp, hsame.trans hslot, hdead' hdead⟩
  | retired a =>
    obtain ⟨ha, hp, hslot, hdead⟩ := h
    obtain ⟨hsame, hdead'⟩ := hrecovers rfl
    exact ⟨lt_of_lt_of_le ha e.nextAuthority, e.poisoned a ha hp, hsame.trans hslot, hdead' hdead⟩
  | restarted a replaced =>
    obtain ⟨ha, hp, hslot, hdead⟩ := h
    obtain ⟨hsame, hdead'⟩ := hrecovers rfl
    exact ⟨lt_of_lt_of_le ha e.nextAuthority, e.poisoned a ha hp, hsame.trans hslot,
      fun hr => hdead' (hdead hr)⟩

/-- A thread steps: the others keep what they rely on. -/
theorem Threads.move (h : Threads s) {t : ℕ} {x : Thread Tz} (e : Evolves s s')
    (hthreads : s'.threads = fun u => if u = t then x else s.threads u)
    (hlocked : ∀ u, u ≠ t → s.locked = some u → s'.locked = some u ∧ s'.slot = s.slot)
    (hrecovers : ∀ u, u ≠ t → (s.threads u).recovers = true →
      s'.slot = s.slot ∧ (s.Dead → s'.Dead))
    (hnew : s'.Relies t x)
    (halone : x.recovers = true → ∀ u, (s.threads u).recovers = true → u = t) : Threads s' := by
  have hself : s'.threads t = x := by rw [hthreads]; exact if_pos rfl
  have hother : ∀ u, u ≠ t → s'.threads u = s.threads u := by
    intro u hu
    rw [hthreads]
    exact if_neg hu
  constructor
  · intro u
    by_cases hu : u = t
    · subst hu
      rw [hself]
      exact hnew
    · rw [hother u hu]
      exact (h.relies u).evolve e (hlocked u hu) (hrecovers u hu)
  · intro u v
    by_cases hu : u = t
    · by_cases hv : v = t
      · exact fun _ _ => hu.trans hv.symm
      · rw [hu, hself, hother v hv]
        exact fun hx hrv => (halone hx v hrv).symm
    · rw [hother u hu]
      by_cases hv : v = t
      · rw [hv, hself]
        exact fun hru hx => halone hx u hru
      · rw [hother v hv]
        exact h.alone u v

theorem Threads.stay (h : Threads s) (e : Evolves s s') (hthreads : s'.threads = s.threads)
    (hlocked : s'.locked = s.locked) (hslot : s'.slot = s.slot) (hdead : s.Dead → s'.Dead) :
    Threads s' := by
  constructor
  · intro u
    rw [hthreads]
    exact (h.relies u).evolve e (fun hl => ⟨hlocked.trans hl, hslot⟩) (fun _ => ⟨hslot, hdead⟩)
  · rw [hthreads]
    exact h.alone

/-- A step that keeps the slot and the generation. -/
theorem Evolves.of_slot (hgeneration : s'.generation = s.generation) (hslot : s'.slot = s.slot)
    (hdead : s.Dead → s'.Dead) (hloadedAt : s'.loadedAt = s.loadedAt)
    (hpoisoned : ∀ a, s.poisoned a = true → s'.poisoned a = true)
    (hauthority : s'.nextAuthority = s.nextAuthority)
    (hrequest : s.nextRequest ≤ s'.nextRequest) (hlog : s.log ⊆ s'.log) : Evolves s s' where
  generation := hgeneration.ge
  nextAuthority := hauthority.ge
  nextRequest := hrequest
  loadedAt := fun a _ => congrFun hloadedAt a
  poisoned := fun a _ => hpoisoned a
  superseded := fun a _ hs g hready => by
    rw [hslot] at hready
    rw [hgeneration]
    exact (hs g hready).imp_right hdead
  broken := fun a _ hb g hready => by
    rw [hslot] at hready
    exact hdead (hb g hready)
  log := hlog

/-- A batch that is being written is of the current generation. -/
def Settled (s : System Tz) : Prop :=
  ∀ requests, s.writer.phase = .persisting requests → ∀ r ∈ requests, r.generation = s.generation

/-- The invariant of the life cycle of the authority and the journal. -/
structure Lifecycle (s : System Tz) : Prop where
  pipeline : Pipeline s
  settled : Settled s
  threads : Threads s

theorem Settled.of_dead (h : s.Dead) : Settled s := by
  intro requests hphase
  rw [Dead, hphase] at h
  exact Bool.noConfusion h

theorem Continues.relies (h : Pipeline s) {t : ℕ} {x y : Thread Tz} (hc : Continues s x y)
    (hx : s.Relies t x) : s.Relies t y := by
  cases hc with
  | fetched hslot => exact (h.slot _ _ hslot).1
  | unavailable => trivial
  | available => exact hx
  | poisoned => trivial
  | succeeded hack => exact h.acks _ _ hack
  | discarding hack => exact ⟨(h.acks _ _ hack).1.2.1, (h.acks _ _ hack).2⟩
  | poisoning hack => exact ⟨(h.acks _ _ hack).1.2.1, (h.acks _ _ hack).2⟩
  | discarded => trivial
  | invalidated => trivial
  | notStarted =>
    obtain ⟨ha, hp, hslot, hdead⟩ := hx
    exact ⟨ha, hp, hslot, fun _ => hdead⟩

theorem Continues.recovers {x y : Thread Tz} (hc : Continues s x y) (hy : y.recovers = true) :
    x.recovers = true := by
  cases hc <;> first | rfl | exact Bool.noConfusion hy

namespace Lifecycle

variable {authorities : ℕ → AuthorityObject Tz}

variable (h : Lifecycle s)
include h

theorem moves {t : ℕ} {x : Thread Tz} {locked : Option ℕ}
    (hlocked : ∀ u, u ≠ t → s.locked = some u → locked = some u)
    (hnew : System.Relies { s with locked := locked } t x)
    (halone : x.recovers = true → (s.threads t).recovers = true) :
    Lifecycle { s.setThread t x with locked := locked, authorities := authorities } where
  pipeline := h.pipeline.frame
  settled := h.settled
  threads := by
    refine h.threads.move (.of_slot rfl rfl id rfl (fun _ => id) rfl le_rfl (List.Subset.refl _))
      rfl (fun u hu hl => ⟨hlocked u hu hl, rfl⟩) (fun u _ _ => ⟨rfl, id⟩) ?_ ?_
    · cases x <;> exact hnew
    · exact fun hx u hu => h.threads.alone u t hu (halone hx)

/-- The slot is emptied by a thread that may do so. -/
theorem vacates {t : ℕ} {x : Thread Tz} {slot : AuthorityLifecycle} (hlock : s.locked = none)
    (hnew : ∀ a g, slot ≠ .ready a g)
    (hold : ∀ a g, s.slot = .ready a g → g ≠ s.generation ∨ s.Dead)
    (hrecovers : ∀ u, u ≠ t → (s.threads u).recovers = false)
    (hrelies : System.Relies { s with slot := slot } t x) :
    Lifecycle { s.setThread t x with slot := slot, authorities := authorities } where
  pipeline := (h.pipeline.vacate hnew hold).frame
  settled := h.settled
  threads := by
    refine h.threads.move ⟨le_rfl, le_rfl, le_rfl, fun _ _ => rfl, fun _ _ => id, ?_, ?_,
      List.Subset.refl _⟩ rfl ?_ ?_ ?_ ?_
    · exact fun a _ _ g hready => absurd hready (hnew a g)
    · exact fun a _ _ g hready => absurd hready (hnew a g)
    · intro u _ hl
      rw [hlock] at hl
      cases hl
    · intro u hu hr
      rw [hrecovers u hu] at hr
      exact Bool.noConfusion hr
    · cases x <;> exact hrelies
    · intro _ u hr
      by_contra hu
      rw [hrecovers u hu] at hr
      exact Bool.noConfusion hr

/-- While the slot is not being recovered, no thread is recovering it. -/
theorem not_recovers (hslot : s.slot ≠ .recovering) (u : ℕ) : (s.threads u).recovers = false := by
  have hrelies := h.threads.relies u
  cases hu : s.threads u with
  | restarting a =>
    rw [hu] at hrelies
    exact absurd hrelies.2.2.1 hslot
  | retired a =>
    rw [hu] at hrelies
    exact absurd hrelies.2.2.1 hslot
  | restarted a replaced =>
    rw [hu] at hrelies
    exact absurd hrelies.2.2.1 hslot
  | _ => rfl

theorem relies {t : ℕ} {x : Thread Tz} (hthread : s.threads t = x) :
    s.Relies t x := hthread ▸ h.threads.relies t

omit h in
theorem not_recovering {a g : ℕ} (hslot : s.slot = .ready a g) : s.slot ≠ .recovering := by
  rw [hslot]
  exact nofun

theorem alone {t : ℕ} (ht : (s.threads t).recovers = true) (u : ℕ) (hu : u ≠ t) :
    (s.threads u).recovers = false := by
  cases hr : (s.threads u).recovers with
  | false => rfl
  | true => exact absurd (h.threads.alone u t hr ht) hu

theorem installs {t g : ℕ} {state : ResourceState Tz} (hthread : s.threads t = .loaded g state) :
    Lifecycle
      { s.setThread t (.fetched s.nextAuthority) with
        authorities := authorities
        poisoned := fun b => if b = s.nextAuthority then false else s.poisoned b
        loadedAt := fun b => if b = s.nextAuthority then g else s.loadedAt b
        slot := .ready s.nextAuthority g
        nextAuthority := s.nextAuthority + 1
        locked := none } where
  pipeline := (h.pipeline.install (h.relies hthread).2.1 (h.relies hthread).2.2).frame
  settled := h.settled
  threads := by
    obtain ⟨hl, hslot, hg⟩ := h.relies hthread
    refine h.threads.move ⟨le_rfl, Nat.le_succ _, le_rfl, ?_, ?_, ?_, ?_, List.Subset.refl _⟩ rfl
      ?_ ?_ (Nat.lt_succ_self _) Bool.noConfusion
    · exact fun a ha => if_neg (Nat.ne_of_lt ha)
    · intro a ha hp
      exact (if_neg (Nat.ne_of_lt ha)).trans hp
    · intro a ha _ g' hready
      cases hready
      exact absurd ha (lt_irrefl _)
    · intro a ha _ g' hready
      cases hready
      exact absurd ha (lt_irrefl _)
    · intro u hu hlu
      rw [hl] at hlu
      exact absurd (Option.some.inj hlu).symm hu
    · intro u _ hr
      rw [h.not_recovers (by rw [hslot]; exact nofun) u] at hr
      exact Bool.noConfusion hr

variable {f : Flusher Tz}

theorem sends {t a g : ℕ} {delta : ResourceGovernorDelta Tz}
    (hthread : s.threads t = .sending a delta g) (hphase : f.phase = s.writer.phase)
    (hqueue : f.queue = s.writer.queue ++ [⟨s.nextRequest, delta, g, a⟩]) :
    Lifecycle
      { (s.setThread t (.waiting ⟨s.nextRequest, delta, g, a⟩)).setFlusher s.sender f with
        authorities := authorities
        locked := none
        nextRequest := s.nextRequest + 1 } := by
  obtain ⟨hl, hslot, ha, hg⟩ := h.relies hthread
  have hwriter : (s.setFlusher s.sender f).flushers s.sender = f := if_pos rfl
  have hissued : System.Issued { s with nextRequest := s.nextRequest + 1 }
      ⟨s.nextRequest, delta, g, a⟩ := ⟨Nat.lt_succ_self _, ha, hg⟩
  refine ⟨(h.pipeline.next_request.setWriter (f := f) ?_ ?_ ?_ ?_ ?_ ?_).frame, ?_, ?_⟩
  · exact fun hd => (congrArg Phase.dead hphase).trans hd
  · rw [hphase]
    exact h.pipeline.next_request.taken s.sender
  · rw [hqueue]
    intro r hr
    rcases List.mem_append.mp hr with hr | hr
    · exact h.pipeline.next_request.queued s.sender r hr
    · rw [List.mem_singleton.mp hr]
      exact hissued
  · intro r hr hgen
    cases hdead : s.writer.phase.dead with
    | true =>
      rw [Flusher.pending_of_dead (hphase ▸ hdead)] at hr
      exact absurd hr List.not_mem_nil
    | false =>
      rw [Flusher.pending_of_live (hphase ▸ hdead), hphase, hqueue, ← List.append_assoc,
        ← Flusher.pending_of_live hdead, List.mem_append, List.mem_singleton] at hr
      rcases hr with hr | rfl
      · exact h.pipeline.current r hr hgen
      · exact hslot
  · rw [hphase]
    exact h.pipeline.rejected
  · rw [hphase]
    exact h.pipeline.persisted
  · intro requests hf
    exact h.settled requests (hphase.symm.trans ((congrArg Flusher.phase hwriter).symm.trans hf))
  · refine h.threads.move (.of_slot rfl rfl ?_ rfl (fun _ => id) rfl (Nat.le_succ _)
      (List.Subset.refl _)) rfl ?_ ?_ hissued Bool.noConfusion
    · intro hd
      exact (congrArg (Phase.dead ∘ Flusher.phase) hwriter).trans
        ((congrArg Phase.dead hphase).trans hd)
    · intro u hu hlu
      rw [hl] at hlu
      exact absurd (Option.some.inj hlu).symm hu
    · intro u _ hr
      rw [h.not_recovers (not_recovering hslot) u] at hr
      exact Bool.noConfusion hr

theorem poisons {t a : ℕ} (hthread : s.threads t = .poisoning a) :
    Lifecycle { s.setThread t (.invalidating a) with
      poisoned := fun b => if b = a then true else s.poisoned b } where
  pipeline := (h.pipeline.poison (h.relies hthread).1 (h.relies hthread).2).frame
  settled := h.settled
  threads := by
    refine h.threads.move (.of_slot rfl rfl id rfl ?_ rfl le_rfl (List.Subset.refl _)) rfl
      (fun u _ hl => ⟨hl, rfl⟩) (fun u _ _ => ⟨rfl, id⟩) ⟨(h.relies hthread).1, if_pos rfl⟩
      Bool.noConfusion
    intro b hb
    dsimp only
    split_ifs
    · rfl
    · exact hb

theorem retires {t a : ℕ} (hthread : s.threads t = .restarting a) :
    Lifecycle { s.setThread t (.retired a) with generation := s.generation + 1 } := by
  obtain ⟨ha, hp, hslot, hdead⟩ := h.relies hthread
  refine ⟨h.pipeline.retire.frame, .of_dead hdead, ?_⟩
  refine h.threads.move ⟨Nat.le_succ _, le_rfl, le_rfl, fun _ _ => rfl, fun _ _ => id,
    fun _ _ _ _ _ => .inr hdead, fun _ _ => id, List.Subset.refl _⟩ rfl (fun u _ hl => ⟨hl, rfl⟩)
    (fun u _ _ => ⟨rfl, id⟩) ⟨ha, hp, hslot, hdead⟩ ?_
  exact fun _ u hu => h.threads.alone u t hu (by rw [hthread]; rfl)

theorem spawns {t a : ℕ} (hqueue : f.queue = [])
    (hphase : f.phase = .idle ∨ f.phase = .broken) (hthread : s.threads t = .retired a) :
    Lifecycle { (s.setFlusher (s.sender + 1) f).setThread t (.restarted a true) with
      sender := s.sender + 1 } := by
  obtain ⟨ha, hp, hslot, hdead⟩ := h.relies hthread
  have hnot : ∀ a g, s.slot ≠ .ready a g := by
    intro a g hready
    rw [hslot] at hready
    cases hready
  have hwriter : ((s.setFlusher (s.sender + 1) f).flushers (s.sender + 1)) = f := if_pos rfl
  refine ⟨(h.pipeline.spawn hslot hdead hqueue hphase).frame, ?_, ?_⟩
  · intro requests hf
    replace hf : f.phase = .persisting requests := (congrArg Flusher.phase hwriter).symm.trans hf
    rcases hphase with hp | hp <;> rw [hp] at hf <;> cases hf
  · refine h.threads.move ⟨le_rfl, le_rfl, le_rfl, fun _ _ => rfl, fun _ _ => id,
      fun b _ _ g hready => absurd hready (hnot b g), fun b _ _ g hready => absurd hready (hnot b g),
      List.Subset.refl _⟩ rfl (fun u _ hl => ⟨hl, rfl⟩) ?_ ⟨ha, hp, hslot, Bool.noConfusion⟩ ?_
    · intro u hu hr
      rw [h.alone (by rw [hthread]; rfl) u hu] at hr
      exact Bool.noConfusion hr
    · exact fun _ u hu => h.threads.alone u t hu (by rw [hthread]; rfl)

theorem finishes {t a : ℕ} {replaced : Bool}
    (hthread : s.threads t = .restarted a replaced) (hlock : s.locked = none) :
    Lifecycle { s.setThread t .failed with
      slot := if replaced then .vacant else .ready a s.generation } := by
  obtain ⟨ha, hp, hslot, hdead⟩ := h.relies hthread
  have halone := h.alone (t := t) (by rw [hthread]; rfl)
  cases replaced with
  | true =>
    refine h.vacates hlock nofun (fun a g hready => ?_) halone trivial
    rw [hslot] at hready
    cases hready
  | false =>
    have hdead := hdead rfl
    refine ⟨(h.pipeline.reinstall hp hdead).frame, h.settled, ?_⟩
    refine h.threads.move ⟨le_rfl, le_rfl, le_rfl, fun _ _ => rfl, fun _ _ => id,
      fun _ _ _ _ _ => .inr hdead, fun _ _ _ _ _ => hdead, List.Subset.refl _⟩ rfl ?_ ?_
      trivial Bool.noConfusion
    · intro u _ hl
      rw [hlock] at hl
      cases hl
    · intro u hu hr
      rw [halone u hu] at hr
      exact Bool.noConfusion hr

/-! ### Flushers -/

/-- A flusher changes; a writer that no longer writes stays so. -/
theorem setFlusher {k : ℕ} (hp : Pipeline (s.setFlusher k f))
    (hsettled : k = s.sender → ∀ requests, f.phase = .persisting requests →
      ∀ r ∈ requests, r.generation = s.generation)
    (hdead : k = s.sender → s.Dead → f.phase.dead = true) : Lifecycle (s.setFlusher k f) := by
  have hdead' : s.Dead → (s.setFlusher k f).Dead := by
    intro hd
    show (if s.sender = k then f else s.flushers s.sender).phase.dead = true
    split_ifs with hk
    · exact hdead hk.symm hd
    · exact hd
  refine ⟨hp, ?_, h.threads.stay
    (.of_slot rfl rfl hdead' rfl (fun _ => id) rfl le_rfl (List.Subset.refl _)) rfl rfl rfl hdead'⟩
  intro requests hf
  replace hf : (if s.sender = k then f else s.flushers s.sender).phase = .persisting requests := hf
  split_ifs at hf with hk
  · exact hsettled hk.symm requests hf
  · exact h.settled requests hf

theorem collects {requests queue : List (DeltaJournalRequest Tz)}
    (hlive : s.writer.phase.dead = false) (hpending : requests ++ queue = s.writer.pending) :
    Lifecycle (s.setFlusher s.sender ⟨queue, .collecting requests⟩) := by
  refine h.setFlusher (h.pipeline.setWriter (fun hd => ?_) ?_ ?_ ?_ (fun _ _ hf => by cases hf)
    (fun _ hf => by cases hf)) (fun _ _ hf => by cases hf) (fun _ hd => ?_)
  · rw [Dead, hlive] at hd
    exact Bool.noConfusion hd
  · intro r hr
    exact h.pipeline.pending_issued r (hpending ▸ List.mem_append_left _ hr)
  · intro r hr
    exact h.pipeline.pending_issued r (hpending ▸ List.mem_append_right _ hr)
  · intro r hr
    exact h.pipeline.current r (hpending ▸ hr)
  · rw [Dead, hlive] at hd
    exact Bool.noConfusion hd

theorem idles (hlive : s.writer.phase.dead = false) :
    Lifecycle (s.setFlusher s.sender ⟨s.writer.queue, .idle⟩) := by
  refine h.setFlusher (h.pipeline.setWriter (fun hd => ?_) (fun r hr => absurd hr List.not_mem_nil)
    (h.pipeline.queued s.sender) ?_ (fun _ _ hf => by cases hf) (fun _ hf => by cases hf))
    (fun _ _ hf => by cases hf) (fun _ hd => ?_)
  · rw [Dead, hlive] at hd
    exact Bool.noConfusion hd
  · intro r hr
    refine h.pipeline.current r ?_
    rw [Flusher.pending_of_live hlive]
    exact List.mem_append_right _ hr
  · rw [Dead, hlive] at hd
    exact Bool.noConfusion hd

/-- The writer starts to write what is of the current generation. -/
theorem persists {requests kept : List (DeltaJournalRequest Tz)}
    (hphase : s.writer.phase = .collecting requests)
    (hkept : kept = requests.filter fun r => decide (r.generation = s.generation)) :
    Lifecycle (s.setFlusher s.sender ⟨s.writer.queue, .persisting kept⟩) := by
  have hlive : s.writer.phase.dead = false := by rw [hphase]; rfl
  have hmem : ∀ r ∈ kept, r ∈ requests ∧ r.generation = s.generation := by
    intro r hr
    rw [hkept, List.mem_filter, decide_eq_true_eq] at hr
    exact hr
  have hpending : ∀ r ∈ kept ++ s.writer.queue, r ∈ s.writer.pending := by
    intro r hr
    rw [Flusher.pending_of_live hlive, hphase]
    rcases List.mem_append.mp hr with hr | hr
    · exact List.mem_append_left _ (hmem r hr).1
    · exact List.mem_append_right _ hr
  refine h.setFlusher (h.pipeline.setWriter (fun hd => ?_) ?_ (h.pipeline.queued s.sender) ?_
    (fun _ _ hf => by cases hf) (fun _ hf => by cases hf)) ?_ (fun _ hd => ?_)
  · rw [Dead, hlive] at hd
    exact Bool.noConfusion hd
  · intro r hr
    exact h.pipeline.pending_issued r (hpending r (List.mem_append_left _ hr))
  · intro r hr
    exact h.pipeline.current r (hpending r hr)
  · intro _ requests' hf r hr
    cases hf
    exact (hmem r hr).2
  · rw [Dead, hlive] at hd
    exact Bool.noConfusion hd

variable {requests : List (DeltaJournalRequest Tz)}

theorem persisted (hphase : s.writer.phase = .persisting requests) :
    Lifecycle { s.setFlusher s.sender ⟨s.writer.queue, .persisted requests⟩ with
      log := s.log ++ requests.map (⟨·, s.generation⟩) } := by
  have hlive : s.writer.phase.dead = false := by rw [hphase]; rfl
  have htaken : ∀ r ∈ requests, s.Issued r := by
    intro r hr
    refine h.pipeline.taken s.sender r ?_
    rw [show (s.flushers s.sender).phase = .persisting requests from hphase]
    exact hr
  have hextended : Lifecycle { s with log := s.log ++ requests.map (⟨·, s.generation⟩) } := by
    refine ⟨h.pipeline.extend ?_, h.settled, h.threads.stay
      (.of_slot rfl rfl id rfl (fun _ => id) rfl le_rfl (List.subset_append_left _ _)) rfl rfl rfl
      id⟩
    intro e he
    obtain ⟨r, hr, rfl⟩ := List.mem_map.mp he
    exact ⟨htaken r hr, (h.settled requests hphase r hr).symm⟩
  refine hextended.setFlusher (hextended.pipeline.setWriter (fun hd => ?_) htaken
    (h.pipeline.queued s.sender) ?_ (fun _ _ hf => by cases hf) ?_) (fun _ _ hf => by cases hf)
    (fun _ hd => ?_)
  · rw [show s.writer.phase.dead = true from hd] at hlive
    exact Bool.noConfusion hlive
  · intro r hr
    refine h.pipeline.current r ?_
    rw [Flusher.pending_of_live hlive]
    exact List.mem_append_right _ hr
  · intro requests' hf r hr
    cases hf
    exact ⟨⟨r, s.generation⟩, List.mem_append_right _ (List.mem_map_of_mem hr), rfl⟩
  · rw [show s.writer.phase.dead = true from hd] at hlive
    exact Bool.noConfusion hlive

/-- The batch is not in the log, and its generation is retired. -/
theorem rejects {ack : Ack} (hack : ack ≠ .ok) (hphase : s.writer.phase = .persisting requests) :
    Lifecycle { s.setFlusher s.sender ⟨s.writer.queue, .rejected requests ack⟩ with
      generation := s.generation + 1 } := by
  have hlive : ¬ s.Dead := by
    rw [Dead, hphase]
    exact Bool.false_ne_true
  have hwriter : (s.setFlusher s.sender ⟨s.writer.queue, .rejected requests ack⟩).flushers s.sender =
      ⟨s.writer.queue, .rejected requests ack⟩ := if_pos rfl
  refine ⟨h.pipeline.reject hack hphase, ?_, h.threads.stay ⟨Nat.le_succ _, le_rfl, le_rfl,
    fun _ _ => rfl, fun _ _ => id, ?_, ?_, List.Subset.refl _⟩ rfl rfl rfl
    (fun hd => absurd hd hlive)⟩
  · intro requests' hf
    have hphase' := (congrArg Flusher.phase hwriter).symm.trans hf
    cases hphase'
  · intro a _ _ g hslot
    exact .inl (Nat.ne_of_lt (Nat.lt_succ_of_le (h.pipeline.slot a g hslot).2.1))
  · intro a _ hb g hslot
    exact absurd (hb g hslot) hlive

theorem exits : Lifecycle (s.setFlusher s.sender ⟨s.writer.queue, .exiting⟩) :=
  h.setFlusher (h.pipeline.setDead rfl (List.Subset.refl _) rfl) (fun _ _ hf => by cases hf)
    (fun _ _ => rfl)

theorem drops {k : ℕ} (hdead : f.phase.dead = true)
    (hqueue : f.queue ⊆ (s.flushers k).queue) (hphase : f.phase.requests = []) :
    Lifecycle (s.setFlusher k f) := by
  refine h.setFlusher (h.pipeline.setDead hdead hqueue hphase) ?_ (fun _ _ => hdead)
  intro _ requests hf
  rw [hf] at hdead
  exact Bool.noConfusion hdead

theorem honest_fatal {k : ℕ} (hdead : (s.flushers k).phase.dead = true) :
    ∀ r ∈ (s.flushers k).queue, s.Issued r ∧ s.Honest r .fatal := by
  intro r hr
  refine ⟨h.pipeline.queued k r hr, ?_⟩
  by_cases hk : k = s.sender
  · subst hk
    exact fun _ _ => hdead
  · exact h.pipeline.orphans k hk r hr

theorem honest_dropped (hphase : s.writer.phase = .collecting requests) :
    ∀ r ∈ requests.filter (fun r => decide (r.generation ≠ s.generation)),
      s.Issued r ∧ s.Honest r .transient := by
  intro r hr
  rw [List.mem_filter, decide_eq_true_eq] at hr
  have hissued : s.Issued r := by
    refine h.pipeline.taken s.sender r ?_
    rw [show (s.flushers s.sender).phase = .collecting requests from hphase]
    exact hr.1
  exact ⟨hissued, h.pipeline.superseded_of_issued hissued hr.2⟩

variable [DecidableEq Tz]

theorem tells (ack : Ack)
    (htold : ∀ r ∈ requests, s.Issued r ∧ s.Honest r ack) : Lifecycle (s.tell requests ack) :=
  ⟨h.pipeline.tell htold, h.settled, h.threads.stay
    (.of_slot rfl rfl id rfl (fun _ => id) rfl le_rfl (List.Subset.refl _)) rfl rfl rfl id⟩

variable [Platform Tz] [DeltaCodec Tz] {index : ShardIndex} {snapshot : ResourceState Tz}
  {earlier : List (DeltaCodec.Payload Tz)} {allowed : Call Tz → Prop}

theorem step (hstep : Step index snapshot earlier allowed s s') : Lifecycle s' := by
  cases hstep with
  | continues t hc =>
    exact h.moves (fun _ _ hl => hl) (hc.relies h.pipeline (h.threads.relies t)) hc.recovers
  | load t hthread hslot hlock =>
    refine h.moves (fun u _ hl => ?_) ⟨rfl, hslot, le_rfl⟩ Bool.noConfusion
    rw [hlock] at hl
    cases hl
  | replayed t hthread hreplay =>
    obtain ⟨hl, hslot, hg⟩ := h.relies hthread
    exact h.moves (fun _ _ hl => hl) ⟨hl, hslot, hg⟩ Bool.noConfusion
  | unreadable t hthread =>
    refine h.moves (fun u hu hl => ?_) trivial Bool.noConfusion
    rw [(h.relies hthread).1] at hl
    exact absurd (Option.some.inj hl).symm hu
  | install t hthread => exact h.installs hthread
  | @operated t a call now hthread _ hfree =>
    have ha : a < s.nextAuthority := h.relies hthread
    unfold operateAuthority
    dsimp only
    split
    · exact h.moves (fun _ _ hl => hl) ha Bool.noConfusion
    · split
      · exact h.moves (fun _ _ hl => hl) trivial Bool.noConfusion
      · exact h.moves (fun _ _ hl => hl) trivial Bool.noConfusion
  | refused t hthread hwhy =>
    refine h.moves (fun _ _ hl => hl) ⟨h.relies hthread, ?_⟩ Bool.noConfusion
    rcases hwhy with hother | hpoison
    · exact fun g hslot => absurd hslot (hother g)
    · exact (h.pipeline.poisoned _ hpoison).2
  | diverged t hthread hlock hslot hgen =>
    refine h.vacates hlock nofun ?_ (fun u _ => h.not_recovers (not_recovering hslot) u)
      ⟨h.relies hthread, nofun⟩
    intro a' g' hready
    rw [hslot] at hready
    cases hready
    exact .inl hgen
  | sending t hthread hlock hslot hpoison =>
    refine h.moves (fun u _ hl => ?_)
      ⟨rfl, hslot, h.relies hthread, (h.pipeline.slot _ _ hslot).2.2 hpoison⟩ Bool.noConfusion
    rw [hlock] at hl
    cases hl
  | unsent t hthread hstopped =>
    refine h.moves (fun u hu hl => ?_) ⟨(h.relies hthread).2.2.1, fun g _ => ?_⟩
      Bool.noConfusion
    · rw [(h.relies hthread).1] at hl
      exact absurd (Option.some.inj hl).symm hu
    · show (s.flushers s.sender).phase.dead = true
      rw [hstopped]
      rfl
  | sent t hthread => exact h.sends hthread rfl rfl
  | discard t hthread hlock hslot =>
    refine h.vacates hlock nofun ?_ (fun u _ => h.not_recovers (not_recovering hslot) u) trivial
    intro a' g' hready
    have hs := (h.relies hthread).2
    rw [hslot] at hready
    cases hready
    exact hs _ hslot
  | poison t hthread => exact h.poisons hthread
  | invalidate t hthread hlock hslot =>
    obtain ⟨ha, hpoison⟩ := h.relies hthread
    have hdead := (h.pipeline.poisoned _ hpoison).2 _ hslot
    exact h.vacates hlock nofun (fun _ _ _ => .inr hdead)
      (fun u _ => h.not_recovers (not_recovering hslot) u) ⟨ha, hpoison, rfl, hdead⟩
  | retire t hthread => exact h.retires hthread
  | spawn t hasRuntime hthread =>
    refine h.spawns rfl ?_ hthread
    cases hasRuntime
    · exact .inr rfl
    · exact .inl rfl
  | finish t hthread hlock => exact h.finishes hthread hlock
  | receiveFirst k hphase hqueue =>
    have hlive : (s.flushers k).phase.dead = false := by rw [hphase]; rfl
    obtain rfl := h.pipeline.eq_sender hlive
    refine h.collects hlive ?_
    show _ = (s.flushers s.sender).pending
    rw [Flusher.pending_of_live hlive, hphase, hqueue]
    rfl
  | @receiveMore k r requests queue hphase hqueue =>
    have hlive : (s.flushers k).phase.dead = false := by rw [hphase]; rfl
    obtain rfl := h.pipeline.eq_sender hlive
    refine h.collects hlive ?_
    show _ = (s.flushers s.sender).pending
    rw [Flusher.pending_of_live hlive, hphase, hqueue, List.append_assoc]
    rfl
  | retain k hphase hkept =>
    have hlive : (s.flushers k).phase.dead = false := by rw [hphase]; rfl
    obtain rfl := h.pipeline.eq_sender hlive
    have htold := h.tells .transient (h.honest_dropped hphase)
    split_ifs
    · exact htold.idles hlive
    · exact htold.persists hphase hkept
  | persist k hphase =>
    obtain rfl := h.pipeline.eq_sender (k := k) (by rw [hphase]; rfl)
    exact h.persisted hphase
  | reject k hack hphase =>
    obtain rfl := h.pipeline.eq_sender (k := k) (by rw [hphase]; rfl)
    exact h.rejects hack hphase
  | tellPersisted k hphase =>
    have hlive : (s.flushers k).phase.dead = false := by rw [hphase]; rfl
    obtain rfl := h.pipeline.eq_sender hlive
    refine (h.tells .ok fun r hr => ⟨?_, h.pipeline.persisted _ hphase r hr⟩).idles hlive
    exact h.pipeline.taken s.sender r (by rw [hphase]; exact hr)
  | @tellRejected k requests ack hphase =>
    have hlive : (s.flushers k).phase.dead = false := by rw [hphase]; rfl
    obtain rfl := h.pipeline.eq_sender hlive
    obtain ⟨hack, hsuperseded⟩ := h.pipeline.rejected _ _ hphase
    have hissued : ∀ r ∈ requests, s.Issued r := fun r hr =>
      h.pipeline.taken s.sender r (by rw [hphase]; exact hr)
    cases ack with
    | ok => exact absurd rfl hack
    | transient =>
      exact (h.tells .transient (fun r hr => ⟨hissued r hr, hsuperseded r hr⟩)).idles hlive
    | fatal =>
      refine h.exits.tells .fatal fun r hr => ⟨hissued r hr, fun _ _ => ?_⟩
      show ((s.setFlusher s.sender ⟨s.writer.queue, .exiting⟩).flushers s.sender).phase.dead = true
      exact congrArg (Phase.dead ∘ Flusher.phase) (if_pos rfl)
  | stop k hphase =>
    have hdead : (s.flushers k).phase.dead = true := by rw [hphase]; rfl
    exact (h.tells .fatal (h.honest_fatal hdead)).drops rfl (List.nil_subset _) rfl
  | @refuse k r queue hphase hqueue =>
    have hdead : (s.flushers k).phase.dead = true := by rw [hphase]; rfl
    refine (h.tells .fatal fun r' hr' => ?_).drops rfl ?_ rfl
    · rw [List.mem_singleton.mp hr']
      exact h.honest_fatal hdead r (by rw [hqueue]; exact List.mem_cons_self)
    · show queue ⊆ (s.flushers k).queue
      rw [hqueue]
      exact List.subset_cons_self _ _
  | disconnect k hsender => exact h.drops rfl (List.nil_subset _) rfl

omit h

end Lifecycle

theorem lifecycle_initial (started hasRuntime : Bool) :
    Lifecycle (initial started hasRuntime : System Tz) where
  pipeline := pipeline_initial started hasRuntime
  settled := by
    intro requests hphase
    rcases @initial_phase Tz started hasRuntime 0 with hp | hp | hp <;>
      cases hp.symm.trans hphase
  threads := ⟨fun _ => trivial, fun t u ht => by cases ht⟩

end System

end Ironclaw.Resources
