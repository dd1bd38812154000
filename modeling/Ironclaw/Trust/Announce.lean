import Ironclaw.Trust.Gate

/-! # No silent reduction of trust

What a thread may learn about the chain, and when. `mutate_with` compares the decisions for one
input, the probe of the identity it is given, and publishes a change for that identity only; the
mutations may reduce the decision for any other. `MutateCall.Names` is the condition that they do
not: whatever they reduce has the identity of the call, and the probe is reduced with it.

* `Sound` is the guarantee: whenever an evaluation that passed the gate has returned, every
  reduction by an earlier commit had been delivered, for the identity it concerns, to every
  listener of the bus, and the answer is that of the chain after the last complete commit. -/

namespace Ironclaw.Trust

/-! ### Reductions -/

/-- The decision for an input has another class or a smaller ceiling. -/
def Reduced (before after : List PolicySource) (input : TrustPolicyInput) : Prop :=
  ∃ evaluatedAt previous current,
    evaluateUnlocked before input evaluatedAt = .ok previous ∧
      evaluateUnlocked after input evaluatedAt = .ok current ∧
      (previous.effectiveTrust ≠ current.effectiveTrust ∨
        current.authorityCeiling.isReductionFrom previous.authorityCeiling = true)

/-- The time of an evaluation is in its decision, and nowhere else. -/
theorem evaluateUnlocked_at (sources : List PolicySource) (input : TrustPolicyInput)
    (evaluatedAt now : Timestamp) : evaluateUnlocked sources input now =
      (evaluateUnlocked sources input evaluatedAt).map fun decision =>
        { decision with evaluatedAt := now } := by
  induction sources with
  | nil => rfl
  | cons source rest ih =>
    rw [evaluateUnlocked, evaluateUnlocked]
    cases source.evaluate input with
    | error e => rfl
    | ok matched =>
      cases matched with
      | none => exact ih
      | some matched => rfl

/-- `mutate_with` sees a reduction of its own probe. -/
theorem Reduced.publishes {before after : List PolicySource} {input : TrustPolicyInput}
    (h : Reduced before after input) {evaluatedAt : Timestamp} {prev : TrustDecision}
    (hprev : evaluateUnlocked before input evaluatedAt = .ok prev) (now : Timestamp)
    (identity : PackageIdentity) : ∃ curr change,
      evaluateUnlocked after input now = .ok curr ∧
        TrustChange.new identity prev curr = some change := by
  obtain ⟨time, previous, current, hprevious, hcurrent, hreduced⟩ := h
  rw [evaluateUnlocked_at before input time evaluatedAt, hprevious] at hprev
  cases hprev
  have hsome : (TrustChange.new identity { previous with evaluatedAt := evaluatedAt }
      { current with evaluatedAt := now }).isSome = true := TrustChange.new_isSome.2 hreduced
  obtain ⟨change, hchange⟩ := Option.isSome_iff_exists.1 hsome
  refine ⟨{ current with evaluatedAt := now }, change, ?_, hchange⟩
  rw [evaluateUnlocked_at after input time now, hcurrent]
  rfl

/-- Whatever the mutations of the call reduce has the identity that the call names, and the probe
is reduced with it. -/
def MutateCall.Names {β : Type} (call : MutateCall β) (sources : List PolicySource) : Prop :=
  ∀ committed,
    SourceMutators.commit sources (SourceMutators.stage sources (call.closure sources).1) =
      .ok committed →
    ∀ input, Reduced sources committed input →
      input.identity = call.affectedIdentity ∧ Reduced sources committed call.probe

/-! ### What a history says -/

section

variable {τ κ : Type}

/-- Each reduction by a commit was delivered, for its identity, to the listeners of the bus. -/
def Announced (history : List (Event τ κ)) : Prop :=
  ∀ newer before after listeners older,
    history = newer ++ .committed before after listeners :: older →
    ∀ input, Reduced before after input → ∀ listener ∈ listeners,
      ∃ change, .delivered listener change ∈ newer ∧ change.identity = input.identity

/-- The chain after the last commit. -/
def committedSources (init : List PolicySource) : List (Event τ κ) → List PolicySource
  | [] => init
  | .committed _ after _ :: _ => after
  | .delivered _ _ :: older => committedSources init older
  | .answered _ _ _ :: older => committedSources init older
  | .reanswered _ _ _ :: older => committedSources init older

/-- When an evaluation returned, every reduction had been announced, and its answer is that of the
chain after the last commit. -/
def Sound (init : List PolicySource) (history : List (Event τ κ)) : Prop :=
  ∀ newer thread input result older,
    history = newer ++ .answered thread input result :: older →
    Announced older ∧
      ∃ evaluatedAt, result = evaluateUnlocked (committedSources init older) input evaluatedAt

/-- The same, but for the deliveries that are still owed. -/
def AnnouncedBut (owed : κ → PackageIdentity → Prop) (history : List (Event τ κ)) : Prop :=
  ∀ newer before after listeners older,
    history = newer ++ .committed before after listeners :: older →
    ∀ input, Reduced before after input → ∀ listener ∈ listeners,
      (∃ change, .delivered listener change ∈ newer ∧ change.identity = input.identity) ∨
        owed listener input.identity

variable {init : List PolicySource} {history : List (Event τ κ)}

variable {owed : κ → PackageIdentity → Prop}

theorem AnnouncedBut.announced (h : AnnouncedBut owed history)
    (hnone : ∀ listener identity, ¬ owed listener identity) : Announced history := by
  intro newer before after listeners older heq input hreduced listener hlistener
  exact (h newer before after listeners older heq input hreduced listener hlistener).resolve_right
    (hnone listener input.identity)

theorem Announced.but (h : Announced history) : AnnouncedBut (fun _ _ => False) history := by
  intro newer before after listeners older heq input hreduced listener hlistener
  exact .inl (h newer before after listeners older heq input hreduced listener hlistener)

theorem announced_nil : Announced ([] : List (Event τ κ)) := by
  intro newer before after listeners older heq
  exact absurd heq.symm (by simp)

theorem sound_nil : Sound init ([] : List (Event τ κ)) := by
  intro newer thread input result older heq
  exact absurd heq.symm (by simp)

theorem Announced.commit {before after : List PolicySource}
    {listeners : List κ} (h : Announced history)
    (howed : ∀ input, Reduced before after input → ∀ listener ∈ listeners,
      owed listener input.identity) :
    AnnouncedBut owed (.committed before after listeners :: history) := by
  intro newer before' after' listeners' older heq input hreduced listener hlistener
  rcases List.cons_eq_append_iff.1 heq with ⟨-, hhead⟩ | ⟨newer', rfl, hhistory⟩
  · cases hhead
    exact .inr (howed input hreduced listener hlistener)
  · obtain ⟨change, hchange, hidentity⟩ :=
      h newer' before' after' listeners' older hhistory input hreduced listener hlistener
    exact .inl ⟨change, List.mem_cons_of_mem _ hchange, hidentity⟩

/-- A delivery pays what is owed to its listener. -/
theorem AnnouncedBut.deliver {listener : κ} {listeners : List κ} {change : TrustChange}
    (h : AnnouncedBut (fun owed identity => owed ∈ listener :: listeners ∧
      identity = change.identity) history) :
    AnnouncedBut (fun owed identity => owed ∈ listeners ∧ identity = change.identity)
      (.delivered listener change :: history) := by
  intro newer before after all older heq input hreduced other hother
  rcases List.cons_eq_append_iff.1 heq with ⟨-, hhead⟩ | ⟨newer', rfl, hhistory⟩
  · exact nomatch hhead
  · rcases h newer' before after all older hhistory input hreduced other hother with
      ⟨change', hchange', hidentity⟩ | ⟨hmem, hidentity⟩
    · exact .inl ⟨change', List.mem_cons_of_mem _ hchange', hidentity⟩
    · rcases List.mem_cons.1 hmem with rfl | hmem
      · exact .inl ⟨change, List.mem_cons_self, hidentity.symm⟩
      · exact .inr ⟨hmem, hidentity⟩

theorem AnnouncedBut.cons {event : Event τ κ} (h : AnnouncedBut owed history)
    (hevent : ∀ before after listeners, event ≠ .committed before after listeners) :
    AnnouncedBut owed (event :: history) := by
  intro newer before after listeners older heq input hreduced listener hlistener
  rcases List.cons_eq_append_iff.1 heq with ⟨-, hhead⟩ | ⟨newer', rfl, hhistory⟩
  · exact absurd (List.cons.inj hhead).1.symm (hevent before after listeners)
  · rcases h newer' before after listeners older hhistory input hreduced listener hlistener with
      ⟨change, hchange, hidentity⟩ | howed
    · exact .inl ⟨change, List.mem_cons_of_mem _ hchange, hidentity⟩
    · exact .inr howed

theorem Announced.cons {event : Event τ κ} (h : Announced history)
    (hevent : ∀ before after listeners, event ≠ .committed before after listeners) :
    Announced (event :: history) :=
  (h.but.cons hevent).announced fun _ _ => id

theorem Sound.cons {event : Event τ κ} (h : Sound init history)
    (hevent : ∀ thread input result, event ≠ .answered thread input result) :
    Sound init (event :: history) := by
  intro newer thread input result older heq
  rcases List.cons_eq_append_iff.1 heq with ⟨-, hhead⟩ | ⟨newer', rfl, hhistory⟩
  · exact absurd (List.cons.inj hhead).1.symm (hevent thread input result)
  · exact h newer' thread input result older hhistory

theorem Sound.answer {thread : τ} {input : TrustPolicyInput} {evaluatedAt : Timestamp}
    (h : Sound init history) (hannounced : Announced history) :
    Sound init (.answered thread input
      (evaluateUnlocked (committedSources init history) input evaluatedAt) :: history) := by
  intro newer thread' input' result older heq
  rcases List.cons_eq_append_iff.1 heq with ⟨-, hhead⟩ | ⟨newer', rfl, hhistory⟩
  · cases hhead
    exact ⟨hannounced, evaluatedAt, rfl⟩
  · exact h newer' thread' input' result older hhistory

end

/-! ### The invariant -/

namespace State

variable {τ β κ : Type}

/-- A thread while the gate is shared: what an evaluation has left to ask decides it. -/
def Reading (s : State τ β κ) (readers : Finset τ) (thread : τ) : Prop :=
  match s.phase thread with
  | .idle => thread ∉ readers
  | .evaluating input evaluatedAt position => thread ∈ readers ∧
      evaluateUnlocked s.sources input evaluatedAt =
        evaluateUnlocked (s.sources.drop position) input evaluatedAt
  | _ => False

/-- The thread that holds the gate alone. -/
def Writing (s : State τ β κ) : Phase β κ → Prop
  | .staging _ => s.sources = s.settled ∧ Announced s.history
  | .committing call prev staged => Announced s.history ∧ call.Names s.settled ∧
      (∃ evaluatedAt, evaluateUnlocked s.settled call.probe evaluatedAt = .ok prev) ∧
      SourceMutators.commit s.sources staged = SourceMutators.commit s.settled
        (SourceMutators.stage s.settled (call.closure s.settled).1)
  | .publishing _ change listeners => s.sources = s.settled ∧
      AnnouncedBut (fun listener identity => listener ∈ listeners ∧ identity = change.identity)
        s.history
  | _ => False

def AtGate (s : State τ β κ) : Gate τ → Prop
  | .shared readers =>
    s.sources = s.settled ∧ Announced s.history ∧ ∀ thread, s.Reading readers thread
  | .exclusive writer =>
    s.Writing (s.phase writer) ∧ ∀ thread, thread ≠ writer → s.phase thread = .idle

structure Inv (init : List PolicySource) (s : State τ β κ) : Prop where
  sound : Sound init s.history
  settled : s.settled = committedSources init s.history
  gate : s.AtGate s.gate

variable {init : List PolicySource} {s : State τ β κ} {thread : τ}

theorem inv_init (sources : List PolicySource) (listeners : β → List κ) :
    Inv sources (State.init sources listeners : State τ β κ) where
  sound := sound_nil
  settled := rfl
  gate := ⟨rfl, announced_nil, fun _ => Finset.notMem_empty _⟩

variable (inv : Inv init s)
include inv

theorem Inv.of_evaluating {input : TrustPolicyInput} {evaluatedAt : Timestamp} {position : ℕ}
    (hphase : s.phase thread = .evaluating input evaluatedAt position) :
    ∃ readers, s.gate = .shared readers ∧ s.AtGate (.shared readers) ∧
      evaluateUnlocked s.sources input evaluatedAt =
        evaluateUnlocked (s.sources.drop position) input evaluatedAt := by
  have hgate := inv.gate
  cases heq : s.gate with
  | shared readers =>
    rw [heq] at hgate
    have hreading := hgate.2.2 thread
    rw [Reading, hphase] at hreading
    exact ⟨readers, rfl, hgate, hreading.2⟩
  | exclusive writer =>
    rw [heq] at hgate
    by_cases hthread : thread = writer
    · subst hthread
      rw [AtGate, hphase] at hgate
      exact hgate.1.elim
    · rw [hgate.2 thread hthread] at hphase
      exact nomatch hphase

/-- A thread that mutates holds the gate. -/
theorem Inv.of_writing {phase : Phase β κ} (hphase : s.phase thread = phase) (hidle : phase ≠ .idle)
    (hreads : ∀ input evaluatedAt position, phase ≠ .evaluating input evaluatedAt position) :
    s.gate = .exclusive thread ∧ s.Writing phase ∧
      ∀ other, other ≠ thread → s.phase other = .idle := by
  have hgate := inv.gate
  cases heq : s.gate with
  | shared readers =>
    rw [heq] at hgate
    have hreading := hgate.2.2 thread
    rw [Reading, hphase] at hreading
    cases phase with
    | idle => exact absurd rfl hidle
    | evaluating input evaluatedAt position => exact absurd rfl (hreads input evaluatedAt position)
    | staging call => exact hreading.elim
    | committing call prev staged => exact hreading.elim
    | publishing bus change listeners => exact hreading.elim
  | exclusive writer =>
    rw [heq] at hgate
    by_cases hthread : thread = writer
    · subst hthread
      rw [AtGate, hphase] at hgate
      exact ⟨rfl, hgate⟩
    · rw [hgate.2 thread hthread] at hphase
      exact absurd hphase.symm hidle

omit inv in
theorem Reading.of_eq {s' : State τ β κ} {readers readers' : Finset τ} (h : s.Reading readers thread)
    (hphase : s'.phase thread = s.phase thread) (hsources : s'.sources = s.sources)
    (hmem : thread ∈ readers' ↔ thread ∈ readers) : s'.Reading readers' thread := by
  simpa only [Reading, hphase, hsources, hmem] using h

variable [DecidableEq τ]

omit inv in
theorem inv_release (hgate : s.gate = .exclusive thread) (hsound : Sound init s.history)
    (hsettled : s.settled = committedSources init s.history) (hsources : s.sources = s.settled)
    (hannounced : Announced s.history) (hidle : ∀ other, other ≠ thread → s.phase other = .idle) :
    Inv init (s.release thread) := by
  have hrelease : s.release thread = (s.setPhase thread .idle).setGate (.shared ∅) := by
    rw [release]
    simp only [setPhase, hgate]
  rw [hrelease]
  refine ⟨hsound, hsettled, hsources, hannounced, fun other => ?_⟩
  have hother : ((s.setPhase thread .idle).setGate (.shared ∅)).phase other = .idle := by
    by_cases h : other = thread
    · subst h
      exact Function.update_self ..
    · exact (Function.update_of_ne h ..).trans (hidle other h)
  rw [Reading, hother]
  exact Finset.notMem_empty other

omit inv in
theorem inv_setPhase {phase : Phase β κ} (hgate : s.gate = .exclusive thread)
    (hsound : Sound init s.history) (hsettled : s.settled = committedSources init s.history)
    (hwriting : s.Writing phase) (hidle : ∀ other, other ≠ thread → s.phase other = .idle) :
    Inv init (s.setPhase thread phase) := by
  refine ⟨hsound, hsettled, ?_⟩
  show (s.setPhase thread phase).AtGate s.gate
  rw [hgate]
  refine ⟨?_, fun other h => (Function.update_of_ne h ..).trans (hidle other h)⟩
  have hself : (s.setPhase thread phase).phase thread = phase := Function.update_self ..
  rw [hself]
  cases phase <;> exact hwriting

theorem Inv.answer {input : TrustPolicyInput} {evaluatedAt : Timestamp} {position : ℕ}
    (hphase : s.phase thread = .evaluating input evaluatedAt position)
    {result : Except TrustError TrustDecision}
    (hresult : evaluateUnlocked (s.sources.drop position) input evaluatedAt = result) :
    Inv init (s.answer thread input result) := by
  obtain ⟨readers, hgate, ⟨hsources, hannounced, hreading⟩, hleft⟩ := inv.of_evaluating hphase
  have hvalue : result = evaluateUnlocked (committedSources init s.history) input evaluatedAt := by
    rw [← inv.settled, ← hsources, hleft, hresult]
  have hanswer : s.answer thread input result = ((s.log (.answered thread input result)).setPhase
      thread .idle).setGate (.shared (readers.erase thread)) := by
    rw [State.answer, release]
    simp only [setPhase, log, hgate]
  rw [hanswer]
  refine ⟨?_, inv.settled, hsources, hannounced.cons fun _ _ _ => nofun, fun other => ?_⟩
  · rw [hvalue]
    exact inv.sound.answer hannounced
  · by_cases h : other = thread
    · subst h
      have hidle : (((s.log (.answered other input result)).setPhase other .idle).setGate
          (.shared (readers.erase other))).phase other = .idle := Function.update_self ..
      rw [Reading, hidle]
      exact Finset.notMem_erase other readers
    · exact (hreading other).of_eq (Function.update_of_ne h ..) rfl
        ⟨Finset.mem_of_mem_erase, fun hmem => Finset.mem_erase.2 ⟨h, hmem⟩⟩

/-! ### Each step keeps it -/

variable [DecidableEq β]

theorem Inv.register (bus : β) (listener : κ) : Inv init (s.next (.register bus listener)) := by
  rw [next]
  split
  · exact ⟨inv.sound, inv.settled, by
      have hgate := inv.gate
      show (s.register bus listener).AtGate s.gate
      cases heq : s.gate with
      | shared readers =>
        rw [heq] at hgate
        exact ⟨hgate.1, hgate.2.1, fun other => (hgate.2.2 other).of_eq rfl rfl Iff.rfl⟩
      | exclusive writer =>
        rw [heq] at hgate
        refine ⟨?_, hgate.2⟩
        have hwriting := hgate.1
        show (s.register bus listener).Writing (s.phase writer)
        cases hphase : s.phase writer <;> rw [hphase] at hwriting <;> exact hwriting⟩
  · exact inv

theorem Inv.enter (thread : τ) (input : TrustPolicyInput) (now : Timestamp) :
    Inv init (s.next (.enter thread input now)) := by
  rw [next]
  split
  · rename_i readers hphase hgate
    have hat := inv.gate
    rw [hgate] at hat
    obtain ⟨hsources, hannounced, hreading⟩ := hat
    refine ⟨inv.sound, inv.settled, hsources, hannounced, fun other => ?_⟩
    by_cases h : other = thread
    · subst h
      have hself : ((s.setGate (.shared (insert other readers))).setPhase other
          (.evaluating input now 0)).phase other = .evaluating input now 0 :=
        Function.update_self ..
      rw [Reading, hself]
      exact ⟨Finset.mem_insert_self other readers, rfl⟩
    · exact (hreading other).of_eq (Function.update_of_ne h ..) rfl
        ⟨fun hmem => (Finset.mem_insert.1 hmem).resolve_left h, Finset.mem_insert_of_mem⟩
  · exact inv

theorem Inv.consult (thread : τ) : Inv init (s.next (.consult thread)) := by
  rw [next]
  split
  · rename_i input evaluatedAt position hphase
    split
    · rename_i hend
      refine inv.answer hphase ?_
      rw [List.drop_eq_nil_of_le (List.getElem?_eq_none_iff.1 hend), evaluateUnlocked]
    · rename_i source hsource
      have hdrop : s.sources.drop position = source :: s.sources.drop (position + 1) := by
        obtain ⟨hlt, hget⟩ := List.getElem?_eq_some_iff.1 hsource
        rw [List.drop_eq_getElem_cons hlt, hget]
      split
      · rename_i e heval
        exact inv.answer hphase (by rw [hdrop, evaluateUnlocked, heval])
      · rename_i matched heval
        exact inv.answer hphase (by rw [hdrop, evaluateUnlocked, heval])
      · rename_i heval
        -- the source does not know the package, and the rest of the chain decides
        obtain ⟨readers, hgate, ⟨hsources, hannounced, hreading⟩, hleft⟩ := inv.of_evaluating hphase
        refine ⟨inv.sound, inv.settled, ?_⟩
        show (s.setPhase thread (.evaluating input evaluatedAt (position + 1))).AtGate s.gate
        rw [hgate]
        refine ⟨hsources, hannounced, fun other => ?_⟩
        by_cases h : other = thread
        · subst h
          have hself : (s.setPhase other (.evaluating input evaluatedAt (position + 1))).phase other =
              .evaluating input evaluatedAt (position + 1) := Function.update_self ..
          have hmem := hreading other
          rw [Reading, hphase] at hmem
          rw [Reading, hself]
          refine ⟨hmem.1, hleft.trans ?_⟩
          rw [hdrop, evaluateUnlocked, heval]
          rfl
        · exact (hreading other).of_eq (Function.update_of_ne h ..) rfl Iff.rfl
  · exact inv

theorem Inv.begin (thread : τ) (call : MutateCall β) : Inv init (s.next (.begin thread call)) := by
  rw [next]
  split
  · rename_i readers hphase hgate
    split
    · rename_i hempty
      have hat := inv.gate
      rw [hgate, hempty] at hat
      obtain ⟨hsources, hannounced, hreading⟩ := hat
      refine ⟨inv.sound, inv.settled, ?_, fun other h => ?_⟩
      · have hself : ((s.setGate (.exclusive thread)).setPhase thread (.staging call)).phase thread =
            .staging call := Function.update_self ..
        rw [hself]
        exact ⟨hsources, hannounced⟩
      · have hother := hreading other
        rw [Reading] at hother
        have hsame : ((s.setGate (.exclusive thread)).setPhase thread (.staging call)).phase other =
            s.phase other := Function.update_of_ne h ..
        rw [hsame]
        cases hp : s.phase other with
        | idle => rfl
        | evaluating input evaluatedAt position =>
          rw [hp] at hother
          exact absurd hother.1 (Finset.notMem_empty other)
        | staging call =>
          rw [hp] at hother
          exact hother.elim
        | committing call prev staged =>
          rw [hp] at hother
          exact hother.elim
        | publishing bus change listeners =>
          rw [hp] at hother
          exact hother.elim
    · exact inv
  · exact inv

/-- The condition on a step: the call names what it reduces, and the listener does not panic. -/
def NamesReductions (s : State τ β κ) : Action τ β κ → Prop
  | .stage thread _ => ∀ call, s.phase thread = .staging call →
      (call.closure s.sources).2 = .ok () → call.Names s.sources
  | .panic thread => ∀ bus change listener listeners,
      s.phase thread ≠ .publishing bus change (listener :: listeners)
  | _ => True

theorem Inv.stage (thread : τ) (now : Timestamp)
    (hnames : s.NamesReductions (.stage thread now)) : Inv init (s.next (.stage thread now)) := by
  rw [next]
  split
  · rename_i call hphase
    obtain ⟨hgate, ⟨hsources, hannounced⟩, hidle⟩ := inv.of_writing hphase nofun nofun
    split
    · exact inv_release hgate inv.sound inv.settled hsources hannounced hidle
    · rename_i prev hprev
      split
      · exact inv_release hgate inv.sound inv.settled hsources hannounced hidle
      · rename_i hok
        refine inv_setPhase hgate inv.sound inv.settled ⟨hannounced, ?_, ⟨now, ?_⟩, ?_⟩ hidle
        · rw [← hsources]
          exact hnames call hphase hok
        · rw [← hsources]
          exact hprev
        · rw [hsources]
  · exact inv

theorem Inv.commit (thread : τ) : Inv init (s.next (.commit thread)) := by
  rw [next]
  split
  · rename_i call prev mutation staged hphase
    obtain ⟨hgate, ⟨hannounced, hnames, hprev, hcommit⟩, hidle⟩ := inv.of_writing hphase nofun nofun
    split
    · rename_i e herror
      -- the staged mutations were looked up in this chain, and a commit changes no type in it
      obtain ⟨committed, hok⟩ :=
        SourceMutators.commit_of_staged s.settled (call.closure s.settled).1
      rw [← hcommit] at hok
      obtain ⟨sources, hone, -⟩ := bind_eq_ok.1 hok
      rw [herror] at hone
      exact nomatch hone
    · rename_i sources hone
      have hrest : SourceMutators.commit sources staged = SourceMutators.commit s.settled
          (SourceMutators.stage s.settled (call.closure s.settled).1) := by
        rw [← hcommit, SourceMutators.commit, hone]
        rfl
      exact inv_setPhase (s := s.setSources sources) hgate inv.sound inv.settled
        ⟨hannounced, hnames, hprev, hrest⟩ hidle
  · exact inv

theorem Inv.settle (thread : τ) (now : Timestamp) : Inv init (s.next (.settle thread now)) := by
  rw [next]
  split
  · rename_i call prev hphase
    obtain ⟨hgate, ⟨hannounced, hnames, ⟨evaluatedAt, hprev⟩, hcommit⟩, hidle⟩ :=
      inv.of_writing hphase nofun nofun
    have hnames := hnames s.sources hcommit.symm
    have hsound : Sound init (s.settleSources call.bus).history := inv.sound.cons fun _ _ _ => nofun
    -- without a change to publish, no input is reduced
    have hrelease : (∀ curr change, evaluateUnlocked s.sources call.probe now = .ok curr →
        TrustChange.new call.affectedIdentity prev curr ≠ some change) →
        Inv init ((s.settleSources call.bus).release thread) := by
      intro hnone
      refine inv_release hgate hsound rfl rfl ?_ hidle
      have hsilent : ∀ input, ¬ Reduced s.settled s.sources input := by
        intro input hreduced
        obtain ⟨curr, change, hcurr, hchange⟩ :=
          (hnames input hreduced).2.publishes hprev now call.affectedIdentity
        exact hnone curr change hcurr hchange
      exact (hannounced.commit fun input hreduced => absurd hreduced (hsilent input)).announced
        fun _ _ => id
    dsimp only
    split
    · rename_i e herror
      refine hrelease fun curr change hcurr => ?_
      have hcurr' : evaluateUnlocked (s.settleSources call.bus).sources call.probe now = .ok curr :=
        hcurr
      rw [herror] at hcurr'
      exact nomatch hcurr'
    · rename_i curr hcurr
      split
      · rename_i hnone
        refine hrelease fun curr' change hcurr' => ?_
        cases hcurr.symm.trans hcurr'
        rw [hnone]
        exact nofun
      · rename_i change hchange
        obtain ⟨hidentity, hinvalidates⟩ := TrustChange.of_new hchange
        refine inv_setPhase (s := s.settleSources call.bus) hgate hsound rfl ⟨rfl, ?_⟩ hidle
        refine hannounced.commit fun input hreduced listener hlistener => ⟨?_, ?_⟩
        · rw [publish, if_neg hinvalidates]
          exact hlistener
        · rw [hidentity]
          exact (hnames input hreduced).1
  · exact inv

theorem Inv.deliver (thread : τ) : Inv init (s.next (.deliver thread)) := by
  rw [next]
  split
  · rename_i bus change listener listeners hphase
    obtain ⟨hgate, ⟨hsources, hannounced⟩, hidle⟩ := inv.of_writing hphase nofun nofun
    exact inv_setPhase (s := s.log (.delivered listener change)) hgate
      (inv.sound.cons fun _ _ _ => nofun) inv.settled ⟨hsources, hannounced.deliver⟩ hidle
  · rename_i bus change hphase
    obtain ⟨hgate, ⟨hsources, hannounced⟩, hidle⟩ := inv.of_writing hphase nofun nofun
    exact inv_release hgate inv.sound inv.settled hsources
      (hannounced.announced fun _ _ h => List.not_mem_nil h.1) hidle
  · exact inv

theorem Inv.reenter (thread : τ) (input : TrustPolicyInput) (now : Timestamp) :
    Inv init (s.next (.reenter thread input now)) := by
  rw [next]
  split
  · rename_i bus change listeners hphase
    obtain ⟨hgate, ⟨hsources, hannounced⟩, hidle⟩ := inv.of_writing hphase nofun nofun
    refine ⟨inv.sound.cons fun _ _ _ => nofun, inv.settled, ?_⟩
    show (s.log _).AtGate s.gate
    rw [hgate]
    refine ⟨?_, hidle⟩
    show (s.log _).Writing (s.phase thread)
    rw [hphase]
    exact ⟨hsources, hannounced.cons fun _ _ _ => nofun⟩
  · exact inv

theorem Inv.panic (thread : τ)
    (hnames : s.NamesReductions (.panic thread)) : Inv init (s.next (.panic thread)) := by
  rw [next]
  split
  · rename_i bus change listener listeners hphase
    exact absurd hphase (hnames bus change listener listeners)
  · exact inv

theorem Inv.next (action : Action τ β κ) (h : s.NamesReductions action) :
    Inv init (s.next action) := by
  cases action with
  | register bus listener => exact inv.register bus listener
  | enter thread input now => exact inv.enter thread input now
  | consult thread => exact inv.consult thread
  | begin thread call => exact inv.begin thread call
  | stage thread now => exact inv.stage thread now h
  | commit thread => exact inv.commit thread
  | settle thread now => exact inv.settle thread now
  | deliver thread => exact inv.deliver thread
  | reenter thread input now => exact inv.reenter thread input now
  | panic thread => exact inv.panic thread h

omit inv

theorem sources_stage_of_error {call : MutateCall β} {e : TrustError}
    (hphase : s.phase thread = .staging call) (herror : (call.closure s.sources).2 = .error e)
    (now : Timestamp) : (s.next (.stage thread now)).sources = s.sources := by
  have hrelease : (s.release thread).sources = s.sources := by
    rw [release]
    split <;> rfl
  rw [next, hphase]
  dsimp only
  split
  · exact hrelease
  · rw [herror]
    exact hrelease

end State

/-! ### The guarantee -/

section

variable {τ β κ : Type} [DecidableEq τ] [DecidableEq β]

/-- In a run whose calls name what they reduce, no evaluation returns before the reductions are
announced; a closure that fails changes no decision. -/
theorem mutate_with_announces (sources : List PolicySource) (listeners : β → List κ)
    (actions : List (Action τ β κ))
    (h : Along State.next State.NamesReductions (State.init sources listeners) actions) :
    Sound sources (actions.foldl State.next (State.init sources listeners)).history ∧
      ∀ thread now call e,
        (actions.foldl State.next (State.init sources listeners)).phase thread = .staging call →
        (call.closure (actions.foldl State.next (State.init sources listeners)).sources).2 =
          .error e →
        ∀ input evaluatedAt,
          evaluateUnlocked ((actions.foldl State.next (State.init sources listeners)).next
              (.stage thread now)).sources input evaluatedAt =
            evaluateUnlocked (actions.foldl State.next (State.init sources listeners)).sources
              input evaluatedAt := by
  have inv : State.Inv sources (actions.foldl State.next (State.init sources listeners)) :=
    h.invariant (fun s action hnames inv => State.Inv.next inv action hnames)
      (State.inv_init sources listeners)
  refine ⟨inv.sound, fun thread now call e hphase herror input evaluatedAt => ?_⟩
  rw [State.sources_stage_of_error hphase herror now]

end

def bundledPackage (name : String) : PackageIdentity := ⟨⟨name⟩, .bundled, none, none⟩

def unprivileged (identity : PackageIdentity) : TrustPolicyInput := ⟨identity, .untrusted, ∅⟩

def registryOf (names : List String) : PolicySource :=
  .bundledRegistry ((names.map fun name =>
    ⟨⟨name⟩, none, ⟨.firstParty⟩, [.network], none⟩).foldl Table.put .empty)

/-- `mutate_with` for one package, with a closure that removes one from the registry. -/
def removal (named removed : String) : MutateCall Unit where
  bus := ()
  affectedIdentity := bundledPackage named
  requestedAuthority := ∅
  requestedTrust := .untrusted
  closure := fun _ => ([.bundledRemove ⟨removed⟩], .ok ())

/-- A source of another crate that vouches for nothing but lets one identity through. -/
def sandboxAllBut (identity : PackageIdentity) : PolicySource :=
  .other fun input => .ok (if input.identity = identity then none
    else some ⟨.sandbox, .localManifest, [], none⟩)

/-- The removal of the package that the call names: the listener hears of it, and another thread
then sees it. -/
theorem named_removal_announced :
    Sound [sandboxAllBut (bundledPackage "alpha"), registryOf ["alpha"]]
      ([.register () 7, .begin 0 (removal "alpha" "alpha"), .stage 0 0, .commit 0, .settle 0 0,
        .deliver 0, .deliver 0, .enter 1 (unprivileged (bundledPackage "alpha")) 0, .consult 1,
        .consult 1, .consult 1].foldl State.next (State.init
          [sandboxAllBut (bundledPackage "alpha"), registryOf ["alpha"]] fun _ => []) :
        State ℕ Unit ℕ).history := by
  refine (mutate_with_announces _ _ _ ?_).1
  refine ⟨trivial, trivial, ?_, trivial, trivial, trivial, trivial, trivial, trivial, trivial,
    trivial, trivial⟩
  intro call hphase _ committed hcommitted input hreduced
  have hcall : Phase.staging (removal "alpha" "alpha") = Phase.staging call := hphase
  cases hcall
  have hafter : committed = [sandboxAllBut (bundledPackage "alpha"), registryOf []] :=
    Except.ok.inj (hcommitted.symm.trans rfl)
  subst hafter
  have hidentity : input.identity = bundledPackage "alpha" := by
    by_contra hne
    obtain ⟨evaluatedAt, previous, current, hprevious, hcurrent, hdiffer⟩ := hreduced
    have hpinned : ∀ rest, evaluateUnlocked (sandboxAllBut (bundledPackage "alpha") :: rest) input
        evaluatedAt =
          .ok (SourceMatch.decision ⟨.sandbox, .localManifest, [], none⟩ evaluatedAt) := by
      intro rest
      rw [evaluateUnlocked, sandboxAllBut, PolicySource.evaluate, if_neg hne]
    cases hprevious.symm.trans (hpinned _)
    cases hcurrent.symm.trans (hpinned _)
    exact hdiffer.elim (fun h => h rfl) (fun h => Bool.noConfusion h)
  exact ⟨hidentity, 0, _, _, rfl, rfl, .inl nofun⟩

/-- The removal of a package that the call does not name: nothing is delivered, and another thread
sees the package lose its class. -/
theorem unnamed_removal_silent :
    ¬ ∀ (sources : List PolicySource) (listeners : Unit → List ℕ) (actions : List (Action ℕ Unit ℕ)),
      Sound sources (actions.foldl State.next (State.init sources listeners)).history := by
  intro h
  have hsound := h [registryOf ["alpha", "beta"]] (fun _ => [7])
    [.begin 0 (removal "alpha" "beta"), .stage 0 0, .commit 0, .settle 0 0,
      .enter 1 (unprivileged (bundledPackage "beta")) 0, .consult 1, .consult 1]
  obtain ⟨hannounced, -⟩ := hsound [] 1 (unprivileged (bundledPackage "beta"))
    (.ok (defaultDecision 0))
    [.committed [registryOf ["alpha", "beta"]] [registryOf ["alpha"]] [7]] rfl
  obtain ⟨change, hchange, -⟩ := hannounced [] _ _ _ [] rfl (unprivileged (bundledPackage "beta"))
    ⟨0, _, _, rfl, rfl, .inl nofun⟩ 7 List.mem_cons_self
  exact List.not_mem_nil hchange

/-! ### What the built-in sources read -/

end Ironclaw.Trust
