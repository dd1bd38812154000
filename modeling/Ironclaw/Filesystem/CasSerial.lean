import Mathlib.Data.List.Permutation
import Mathlib.Data.Fin.VecNotation
import Mathlib.Tactic.FinCases
import Ironclaw.Lib.Run
import Ironclaw.Filesystem.CasEffect

/-! # Concurrent updates of one record, one after the other

Every successful call takes effect at one step: a write when it is put, a call that changes nothing
when it reads, a delete when the record is removed. In the order of these steps the calls may be
run one after the other, each alone, with the same outcomes and the same record at the end
(`cas_update_serializable`) — as long as a conditional write or delete that goes through finds the
record its call read, and a delete settles its call. Neither is guaranteed: version numbers start
again when a record is deleted and created anew (`recreated_record_loses_update`). -/

namespace Ironclaw.Filesystem

variable {ι S T E : Type} [BEq S]

/-! ### One call after the other -/

section Serial

variable (calls : ι → CasCall S T E) (path : VirtualPath)

/-- The calls of `order`, run one after the other from `state`, each return the outcome listed and
leave `stored` at the path. -/
def Serves : List (ι × T) → State → Option Entry → Prop
  | [], state, stored => state.value path = stored
  | (caller, outcome) :: order, state, stored =>
    ((calls caller).alone state).1.phase = .done (.ok outcome) ∧
      Serves order ((calls caller).alone state).2 stored

/-- The effects of the calls of `order` lead from one record to another. -/
def Chain (directory : Bool) : Option Entry → List (ι × T) → Option Entry → Prop
  | before, [], after => before = after
  | before, (caller, outcome) :: order, after =>
    ∃ between, (calls caller).effect directory before = some (outcome, between) ∧
      Chain directory between order after

variable {calls} {path}

theorem Chain.snoc {directory : Bool} {caller : ι} {outcome : T} {between after : Option Entry}
    (heffect : (calls caller).effect directory between = some (outcome, after)) :
    ∀ {order : List (ι × T)} {before : Option Entry}, Chain calls directory before order between →
      Chain calls directory before (order ++ [(caller, outcome)]) after
  | [], _, rfl => ⟨after, heffect, rfl⟩
  | _ :: _, _, ⟨next, hfirst, hrest⟩ => ⟨next, hfirst, hrest.snoc heffect⟩

theorem Chain.serves (hon : ∀ caller, (calls caller).On path) : ∀ {order : List (ι × T)}
    {state : State} {after : Option Entry},
    Chain calls (state.hasDescendant path) (state.value path) order after →
      Serves calls path order state after
  | [], _, _, h => h
  | (caller, outcome) :: order, state, after, ⟨between, heffect, hrest⟩ => by
    obtain ⟨hdone, hvalue, hdir⟩ := alone_effect (hon caller) heffect
    rw [← hvalue, ← hdir] at hrest
    exact ⟨hdone, hrest.serves hon⟩

end Serial

/-! ### Concurrent calls -/

section Concurrent

variable [DecidableEq ι] (calls : ι → CasCall S T E) (path : VirtualPath)

omit [BEq S] in
/-- The change a call decided on will be made: the record has the version that was read. -/
def Lands (call : CasCall S T E) (state : State) (version : Option RecordVersion)
    (applied : CasApply S T) : Prop :=
  state.versionAt path = version ∧
    match call.mutation applied with
    | .write _ _ => state.hasDescendant path = false
    | .delete _ => True
    | _ => False

/-- A step at which a call loses nothing: a change is made only to the record the call read, a
delete leaves the call nothing to do, and a call that deleted the record finds that out when it
reads again and does not run out of time before. -/
def Sound (system : CasSystem ι S T E) : CasAction ι → Prop
  | .step caller =>
    match (system.progress caller).phase with
    | .reading => (system.progress caller).successfulDeleteOutcome ≠ none →
        (calls caller).Satisfied (system.state.value path)
    | .mutating current version applied => Lands path (calls caller) system.state version applied →
        (calls caller).snapshot (system.state.value path) = .ok current ∧
        ((calls caller).mutation applied = .delete applied.outcome →
          (calls caller).Satisfied none)
    | .done _ => True
  | .timeout caller => (system.progress caller).phase = .reading →
      (system.progress caller).successfulDeleteOutcome = none

omit [BEq S] [DecidableEq ι] in
/-- The outcome of a call that has taken effect. -/
def CallState.effected (progress : CallState S T E) : Option T :=
  match progress.phase with
  | .reading => progress.successfulDeleteOutcome
  | .done (.ok outcome) => some outcome
  | _ => none

/-- A change about to be made was decided on by the transform. -/
def CallState.Deciding (call : CasCall S T E) (progress : CallState S T E) : Prop :=
  ∀ current version applied, progress.phase = .mutating current version applied →
    Decided call current applied ∧ (version = none → current = none) ∧
      progress.successfulDeleteOutcome = none

/-- The calls of `log` took effect in this order. -/
structure Logged (initial : State) (system : CasSystem ι S T E) (log : List (ι × T)) : Prop where
  chain : Chain calls (initial.hasDescendant path) (initial.value path) log
    (system.state.value path)
  directory : system.state.hasDescendant path = initial.hasDescendant path
  nodup : (log.map Prod.fst).Nodup
  effected : ∀ caller outcome, (caller, outcome) ∈ log ↔
    (system.progress caller).effected = some outcome
  deciding : ∀ caller, (system.progress caller).Deciding (calls caller)

variable {calls} {path} {initial : State} {system : CasSystem ι S T E} {log : List (ι × T)}

variable {progress : CallState S T E} {caller : ι}

theorem Logged.keep (h : Logged calls path initial system log)
    (heffected : progress.effected = (system.progress caller).effected)
    (hdeciding : progress.Deciding (calls caller)) :
    Logged calls path initial
      ⟨system.state, Function.update system.progress caller progress⟩ log where
  chain := h.chain
  directory := h.directory
  nodup := h.nodup
  effected other outcome := by
    dsimp only
    rw [h.effected, Function.update_apply]
    split
    · next heq => rw [heq, heffected]
    · rfl
  deciding other := by
    dsimp only
    rw [Function.update_apply]
    split
    · next heq => exact heq ▸ hdeciding
    · exact h.deciding other

theorem Logged.extend (h : Logged calls path initial system log) {state : State} (outcome : T)
    (hbefore : (system.progress caller).effected = none) (hafter : progress.effected = some outcome)
    (hdeciding : progress.Deciding (calls caller))
    (heffect : (calls caller).effect (system.state.hasDescendant path)
      (system.state.value path) = some (outcome, state.value path))
    (hdirectory : state.hasDescendant path = system.state.hasDescendant path) :
    Logged calls path initial ⟨state, Function.update system.progress caller progress⟩
      (log ++ [(caller, outcome)]) where
  chain := h.chain.snoc (h.directory ▸ heffect)
  directory := hdirectory.trans h.directory
  nodup := by
    rw [List.map_append, List.map_singleton, ← List.concat_eq_append]
    refine h.nodup.concat fun hmem => ?_
    obtain ⟨⟨_, outcome'⟩, hlog, rfl⟩ := List.mem_map.1 hmem
    exact absurd (((h.effected _ _).1 hlog).symm.trans hbefore) (by simp)
  effected other outcome' := by
    dsimp only
    rw [List.mem_append, List.mem_singleton, h.effected, Function.update_apply, Prod.mk.injEq]
    split
    · next heq => simp [heq, hbefore, hafter, eq_comm]
    · next hne => simp [hne]
  deciding other := by
    dsimp only
    rw [Function.update_apply]
    split
    · next heq => exact heq ▸ hdeciding
    · exact h.deciding other

omit [DecidableEq ι] in
theorem CallState.deciding_of_not_mutating {call : CasCall S T E}
    (h : ∀ current version applied, progress.phase ≠ .mutating current version applied) :
    progress.Deciding call :=
  fun _ _ _ hphase => absurd hphase (h _ _ _)

/-- A read settles the call, fails or decides on a change; it has an effect only when it settles a
call that has had none. -/
theorem Logged.read (hon : ∀ caller, (calls caller).On path)
    (h : Logged calls path initial system log) (hphase : (system.progress caller).phase = .reading)
    (hsound : (system.progress caller).successfulDeleteOutcome ≠ none →
      (calls caller).Satisfied (system.state.value path)) :
    ∃ log', Logged calls path initial ⟨system.state, Function.update system.progress caller
      ((calls caller).read (system.progress caller) system.state)⟩ log' := by
  have hbefore : (system.progress caller).effected =
      (system.progress caller).successfulDeleteOutcome := by
    rw [CallState.effected, hphase]
  have hnone : ¬ (calls caller).Satisfied (system.state.value path) →
      (system.progress caller).effected = none := by
    intro hnot
    rw [hbefore]
    exact not_not.1 fun hpending => hnot (hsound hpending)
  rcases read_cases (hon caller) (system.progress caller) system.state with
    ⟨e, hcause, heq⟩ | ⟨outcome, hplan, heq⟩ | ⟨current, applied, hsnap, hdecided, heq⟩
  · have hnot : ¬ (calls caller).Satisfied (system.state.value path) := by
      rcases hcause with hfail | ⟨-, hnot⟩
      · simp [CasCall.Satisfied, hfail]
      · exact hnot
    refine ⟨log, h.keep ?_ (CallState.deciding_of_not_mutating ?_)⟩
    · rw [heq, hnone hnot]
      rfl
    · simp [heq, CallState.finish]
  · have hdeciding : ((calls caller).read (system.progress caller) system.state).Deciding
        (calls caller) :=
      CallState.deciding_of_not_mutating (by simp [heq, CallState.settle, CallState.finish])
    cases hpending : (system.progress caller).successfulDeleteOutcome with
    | none =>
      refine ⟨_, h.extend outcome (hbefore.trans hpending) ?_ hdeciding ?_ rfl⟩
      · rw [heq, CallState.settle, hpending]
        rfl
      · simp only [CasCall.effect, hplan]
    | some deleted =>
      refine ⟨log, h.keep ?_ hdeciding⟩
      rw [heq, hbefore, CallState.settle, hpending]
      rfl
  · have hnot : ¬ (calls caller).Satisfied (system.state.value path) := by
      rintro ⟨outcome, hplan⟩
      exact hdecided.mutation_ne_settle ((hdecided.plan hsnap).symm.trans hplan)
    refine ⟨log, h.keep ?_ ?_⟩
    · rw [heq, hnone hnot]
      rfl
    · intro current' version' applied' hphase'
      rw [heq] at hphase' ⊢
      obtain ⟨rfl, rfl, rfl⟩ := Phase.mutating.inj hphase'
      exact ⟨hdecided, current_none_of_version_none hsnap, hbefore.symm.trans (hnone hnot)⟩

/-- A change that was decided on is made, and then takes effect, or the call reads again or
fails. -/
theorem Logged.mutate (hon : ∀ caller, (calls caller).On path)
    (h : Logged calls path initial system log) {current : Option S}
    {version : Option RecordVersion} {applied : CasApply S T}
    (hphase : (system.progress caller).phase = .mutating current version applied)
    (hsound : Lands path (calls caller) system.state version applied →
      (calls caller).snapshot (system.state.value path) = .ok current ∧
        ((calls caller).mutation applied = .delete applied.outcome →
          (calls caller).Satisfied none)) :
    ∃ log', Logged calls path initial
      ⟨((calls caller).step (system.progress caller) system.state).2,
        Function.update system.progress caller
          ((calls caller).step (system.progress caller) system.state).1⟩ log' := by
  obtain ⟨hdecided, hversion, hpending⟩ := h.deciding caller _ _ _ hphase
  have hbefore : (system.progress caller).effected = none := by
    rw [CallState.effected, hphase]
  rcases mutating_cases (hon caller) _ system.state hphase hdecided hversion hpending with
    ⟨entry, written, state', hwrite, hput, hstep⟩ |
    ⟨state', hdelete, -, hsame, hvalue, hframe, hstep⟩ |
    ⟨-, progress', hstep, hnone, hphase'⟩
  · obtain ⟨hdir, hcas, -⟩ := State.put_eq_ok.1 hput
    obtain ⟨hvalue, hframe⟩ := State.put_value hput
    obtain ⟨hsnap, -⟩ := hsound ⟨checkCas_expectation.1 hcas, by rw [hwrite]; exact hdir⟩
    have hplan := (hdecided.plan hsnap).trans hwrite
    rw [hstep]
    refine ⟨_, h.extend applied.outcome hbefore rfl
      (CallState.deciding_of_not_mutating (by simp [CallState.finish])) ?_
      (State.hasDescendant_congr hframe)⟩
    rw [hvalue]
    simp only [CasCall.effect, hplan, hdir, Bool.false_eq_true, if_false]
  · obtain ⟨hsnap, hsettled⟩ := hsound ⟨hsame, by rw [hdelete]; trivial⟩
    obtain ⟨outcome, hnothing⟩ := hsettled hdelete
    have hplan := (hdecided.plan hsnap).trans hdelete
    rw [hstep]
    refine ⟨_, h.extend applied.outcome hbefore rfl
      (CallState.deciding_of_not_mutating (by simp)) ?_ (State.hasDescendant_congr hframe)⟩
    rw [hvalue]
    simp only [CasCall.effect, hplan, hnothing]
  · rw [hstep]
    refine ⟨log, h.keep ?_ (CallState.deciding_of_not_mutating ?_)⟩
    · rw [hbefore, CallState.effected]
      rcases hphase' with hreading | ⟨e, hfailed⟩
      · rw [hreading]
        exact hnone
      · rw [hfailed]
    · rcases hphase' with hreading | ⟨e, hfailed⟩
      · simp [hreading]
      · simp [hfailed]

theorem Logged.next (hon : ∀ caller, (calls caller).On path)
    (h : Logged calls path initial system log) {action : CasAction ι}
    (hsound : Sound calls path system action) :
    ∃ log', Logged calls path initial (CasSystem.next calls system action) log' := by
  cases action with
  | step caller =>
    rw [Sound] at hsound
    cases hphase : (system.progress caller).phase with
    | reading =>
      rw [hphase] at hsound
      have hstep : (calls caller).step (system.progress caller) system.state =
          ((calls caller).read (system.progress caller) system.state, system.state) := by
        rw [CasCall.step, hphase]
      rw [CasSystem.next, hstep]
      exact h.read hon hphase hsound
    | mutating current version applied =>
      rw [hphase] at hsound
      exact h.mutate hon hphase hsound
    | done result =>
      have hstep : (calls caller).step (system.progress caller) system.state =
          (system.progress caller, system.state) := by
        rw [CasCall.step, hphase]
      rw [CasSystem.next, hstep]
      exact ⟨log, h.keep rfl (h.deciding caller)⟩
  | timeout caller =>
    have hfailed : CallState.Deciding (calls caller)
        ((system.progress caller).finish (.error .timeout)) :=
      CallState.deciding_of_not_mutating (by simp [CallState.finish])
    rw [CasSystem.next]
    cases hphase : (system.progress caller).phase with
    | reading =>
      refine ⟨log, h.keep ?_ hfailed⟩
      rw [CallState.effected, CallState.effected, hphase]
      exact (hsound hphase).symm
    | mutating current version applied =>
      refine ⟨log, h.keep ?_ hfailed⟩
      rw [CallState.effected, CallState.effected, hphase]
      rfl
    | done result => exact ⟨log, h⟩

omit [DecidableEq ι] in
theorem Logged.start (initial : State) :
    Logged calls path initial (CasSystem.start initial) [] where
  chain := rfl
  directory := rfl
  nodup := List.nodup_nil
  effected _ _ := by simp [CasSystem.start, CallState.initial, CallState.effected]
  deciding _ := CallState.deciding_of_not_mutating (by simp [CasSystem.start, CallState.initial])

/-- The calls that have succeeded can be run one after the other, each alone, with the same outcomes
and the same record at the end. -/
def Serializable (calls : ι → CasCall S T E) (path : VirtualPath) (initial : State)
    (final : CasSystem ι S T E) : Prop :=
  ∃ order : List (ι × T), (order.map Prod.fst).Nodup ∧
    (∀ caller outcome, (caller, outcome) ∈ order ↔
      (final.progress caller).phase = .done (.ok outcome)) ∧
    Serves calls path order initial (final.state.value path)

/-- However the steps of concurrent calls on one path are interleaved, if none of them loses an
update then the calls that succeed are serializable. -/
theorem cas_update_serializable (calls : ι → CasCall S T E) (path : VirtualPath)
    (hon : ∀ caller, (calls caller).On path) (initial : State) (actions : List (CasAction ι))
    (hsound : Along (CasSystem.next calls) (Sound calls path) (CasSystem.start initial) actions)
    (hreturned : ∀ caller,
      ((CasSystem.start initial).run calls actions).progress caller = .initial ∨
      ∃ result, (((CasSystem.start initial).run calls actions).progress caller).phase =
        .done result) :
    Serializable calls path initial ((CasSystem.start initial).run calls actions) := by
  obtain ⟨log, hlog⟩ := hsound.invariant (I := fun system => ∃ log,
      Logged calls path initial system log)
    (fun _ _ hstep ⟨_, hlog⟩ => hlog.next hon hstep) ⟨[], Logged.start initial⟩
  refine ⟨log, hlog.nodup, fun caller outcome => ?_, hlog.chain.serves hon⟩
  rw [hlog.effected]
  rcases hreturned caller with hidle | ⟨result, hdone⟩
  · rw [CasSystem.run] at hidle ⊢
    rw [hidle]
    simp [CallState.effected, CallState.initial]
  · rw [CasSystem.run] at hdone ⊢
    rw [CallState.effected, hdone]
    cases result <;> simp

/-! ### Calls that never delete -/

/-- A call that is about to write has read the record at its present version, or at an earlier
one. -/
structure Fresh (calls : ι → CasCall S T E) (path : VirtualPath) (system : CasSystem ι S T E) :
    Prop where
  pending : ∀ caller, (system.progress caller).successfulDeleteOutcome = none
  deciding : ∀ caller, (system.progress caller).Deciding (calls caller)
  earlier : ∀ caller current version applied,
    (system.progress caller).phase = .mutating current (some version) applied →
      ∃ stored, system.state.entries.get path = some stored ∧
        version.val ≤ stored.version.val ∧
        (version = stored.version → (calls caller).snapshot (some stored.entry) = .ok current)

/-- No transform asks for the record to be deleted. -/
def Keeping (call : CasCall S T E) : Prop :=
  ∀ current applied, call.apply current = .ok applied → applied.operation ≠ .delete

theorem Keeping.mutation_ne {call : CasCall S T E} (hkeep : Keeping call) {current : Option S}
    {applied : CasApply S T} (hdecided : Decided call current applied) :
    call.mutation applied ≠ .delete applied.outcome :=
  CasCall.mutation_write_ne_delete (hdecided.writes (hkeep _ _ hdecided.result))

/-- The version at the path is below its largest value by at least `slack`. -/
def Headroom (path : VirtualPath) (state : State) (slack : ℕ) : Prop :=
  slack < 2 ^ 64 - 1 ∧
    ∀ version, state.versionAt path = some version → version.val + slack < 2 ^ 64 - 1

/-- The record at the path is still there, or has been written over at a later version. -/
def Advances (path : VirtualPath) (state state' : State) : Prop :=
  ∀ stored, state.entries.get path = some stored → ∃ stored',
    state'.entries.get path = some stored' ∧
      (stored' = stored ∨ stored.version.val < stored'.version.val)

theorem Fresh.update (h : Fresh calls path system) {state : State}
    (hadvances : Advances path system.state state)
    (hpending : progress.successfulDeleteOutcome = none)
    (hdeciding : progress.Deciding (calls caller))
    (hearlier : ∀ current version applied,
      progress.phase = .mutating current (some version) applied →
        ∃ stored, state.entries.get path = some stored ∧ version.val ≤ stored.version.val ∧
          (version = stored.version → (calls caller).snapshot (some stored.entry) = .ok current)) :
    Fresh calls path ⟨state, Function.update system.progress caller progress⟩ where
  pending other := by
    dsimp only
    rw [Function.update_apply]
    split
    · exact hpending
    · exact h.pending other
  deciding other := by
    dsimp only
    rw [Function.update_apply]
    split
    · next heq => exact heq ▸ hdeciding
    · exact h.deciding other
  earlier other current version applied := by
    dsimp only
    rw [Function.update_apply]
    split
    · next heq => exact heq ▸ hearlier current version applied
    · intro hphase
      obtain ⟨stored, hget, hle, hsnap⟩ := h.earlier other _ _ _ hphase
      obtain ⟨stored', hget', rfl | hlt⟩ := hadvances stored hget
      · exact ⟨stored', hget', hle, hsnap⟩
      · exact ⟨stored', hget', by omega, fun heq => by rw [heq] at hle; omega⟩

theorem Fresh.update_of_not_mutating (h : Fresh calls path system)
    (hpending : progress.successfulDeleteOutcome = none)
    (hphase : ∀ current version applied, progress.phase ≠ .mutating current version applied) :
    Fresh calls path ⟨system.state, Function.update system.progress caller progress⟩ :=
  h.update (fun stored hget => ⟨stored, hget, .inl rfl⟩) hpending
    (CallState.deciding_of_not_mutating hphase) fun _ _ _ heq => absurd heq (hphase _ _ _)

omit [DecidableEq ι] in
/-- A step of a call that does not delete is sound. -/
theorem Fresh.sound (h : Fresh calls path system) (hkeep : ∀ caller, Keeping (calls caller))
    (action : CasAction ι) : Sound calls path system action := by
  cases action with
  | timeout caller => exact fun _ => h.pending caller
  | step caller =>
    rw [Sound]
    cases hphase : (system.progress caller).phase with
    | reading => exact fun hpending => absurd (h.pending caller) hpending
    | done result => trivial
    | mutating current version applied =>
      obtain ⟨hdecided, hnone, -⟩ := h.deciding caller _ _ _ hphase
      refine fun hlands => ⟨?_, fun hdelete => absurd hdelete ((hkeep caller).mutation_ne hdecided)⟩
      cases version with
      | none =>
        have hget : system.state.entries.get path = none := Option.map_eq_none_iff.1 hlands.1
        rw [State.value, hget, hnone rfl]
        rfl
      | some version =>
        obtain ⟨stored, hget, -, hsnap⟩ := h.earlier caller _ _ _ hphase
        have hsame := hlands.1
        rw [State.versionAt, hget] at hsame
        rw [State.value, hget]
        exact hsnap (Option.some.inj hsame).symm

omit [BEq S] [DecidableEq ι] in
/-- A write advances the record while its version can grow. -/
theorem put_advances {state state' : State} {entry : Entry} {version : Option RecordVersion}
    {written : RecordVersion} {slack : ℕ} (hroom : Headroom path state (slack + 1))
    (hput : state.put path entry (expectation version) = .ok (written, state')) :
    Advances path state state' ∧ Headroom path state' slack := by
  obtain ⟨-, -, hwritten, rfl⟩ := State.put_eq_ok.1 hput
  have hget : (state.entries.put ⟨path, entry, written⟩).get path = some ⟨path, entry, written⟩ :=
    Table.get_put_self state.entries ⟨path, entry, written⟩
  constructor
  · intro stored hstored
    have hlt := hroom.2 stored.version (by rw [State.versionAt, hstored]; rfl)
    have hnext := RecordVersion.val_next_of_lt (Nat.lt_of_le_of_lt (Nat.le_add_right _ _) hlt)
    rw [hstored, Option.elim_some] at hwritten
    refine ⟨_, hget, .inr ?_⟩
    rw [hwritten, hnext]
    omega
  · have hslack := hroom.1
    refine ⟨by omega, fun version hversion => ?_⟩
    rw [State.versionAt] at hversion
    dsimp only at hversion
    rw [hget] at hversion
    have heq : written = version := Option.some.inj hversion
    rw [← heq, hwritten]
    cases hold : state.entries.get path with
    | none =>
      rw [Option.elim_none, RecordVersion.val_first]
      omega
    | some stored =>
      have hlt := hroom.2 stored.version (by rw [State.versionAt, hold]; rfl)
      have hnext := RecordVersion.val_next_of_lt (Nat.lt_of_le_of_lt (Nat.le_add_right _ _) hlt)
      rw [Option.elim_some, hnext]
      omega

/-- A step of a call that does not delete keeps what the calls about to write have read. -/
theorem Fresh.next (hon : ∀ caller, (calls caller).On path)
    (hkeep : ∀ caller, Keeping (calls caller)) (h : Fresh calls path system) {slack : ℕ}
    (hroom : Headroom path system.state (slack + 1)) (action : CasAction ι) :
    Fresh calls path (CasSystem.next calls system action) ∧
      Headroom path (CasSystem.next calls system action).state slack := by
  have hslack : Headroom path system.state slack := by
    refine ⟨by have := hroom.1; omega, fun version hversion => ?_⟩
    have := hroom.2 version hversion
    omega
  cases action with
  | timeout caller =>
    rw [CasSystem.next]
    split
    · exact ⟨h, hslack⟩
    · refine ⟨h.update_of_not_mutating (h.pending caller) ?_, hslack⟩
      simp [CallState.finish]
  | step caller =>
    rw [CasSystem.next]
    cases hphase : (system.progress caller).phase with
    | reading =>
      have hstep : (calls caller).step (system.progress caller) system.state =
          ((calls caller).read (system.progress caller) system.state, system.state) := by
        rw [CasCall.step, hphase]
      rw [hstep]
      refine ⟨?_, hslack⟩
      rcases read_cases (hon caller) (system.progress caller) system.state with
        ⟨e, -, heq⟩ | ⟨outcome, -, heq⟩ | ⟨current, applied, hsnap, hdecided, heq⟩
      · rw [heq]
        exact h.update_of_not_mutating (h.pending caller) (by simp [CallState.finish])
      · rw [heq]
        exact h.update_of_not_mutating (h.pending caller)
          (by simp [CallState.settle, CallState.finish])
      · rw [heq]
        refine h.update (fun stored hget => ⟨stored, hget, .inl rfl⟩) (h.pending caller) ?_ ?_
        · intro current' version' applied' hphase'
          obtain ⟨rfl, rfl, rfl⟩ := Phase.mutating.inj hphase'
          exact ⟨hdecided, current_none_of_version_none hsnap, h.pending caller⟩
        · intro current' version' applied' hphase'
          obtain ⟨rfl, hversion, rfl⟩ := Phase.mutating.inj hphase'
          obtain ⟨stored, hget, rfl⟩ := Option.map_eq_some_iff.1 hversion
          rw [State.value, hget] at hsnap
          exact ⟨stored, hget, le_rfl, fun _ => hsnap⟩
    | done result =>
      have hstep : (calls caller).step (system.progress caller) system.state =
          (system.progress caller, system.state) := by
        rw [CasCall.step, hphase]
      rw [hstep]
      exact ⟨h.update_of_not_mutating (h.pending caller) (by simp [hphase]), hslack⟩
    | mutating current version applied =>
      obtain ⟨hdecided, hnone, hpending⟩ := h.deciding caller _ _ _ hphase
      rcases mutating_cases (hon caller) _ system.state hphase hdecided hnone hpending with
        ⟨entry, written, state', hwrite, hput, hstep⟩ | ⟨state', hdelete, -⟩ |
        ⟨-, progress', hstep, hnone', hphase'⟩
      · rw [hstep]
        obtain ⟨hadvances, hroom'⟩ := put_advances hroom hput
        exact ⟨h.update hadvances hpending (CallState.deciding_of_not_mutating
          (by simp [CallState.finish])) (by simp [CallState.finish]), hroom'⟩
      · exact absurd hdelete ((hkeep caller).mutation_ne hdecided)
      · rw [hstep]
        refine ⟨h.update_of_not_mutating hnone' ?_, hslack⟩
        rcases hphase' with hreading | ⟨e, hfailed⟩
        · simp [hreading]
        · simp [hfailed]

theorem Fresh.along (hon : ∀ caller, (calls caller).On path)
    (hkeep : ∀ caller, Keeping (calls caller)) : ∀ {actions : List (CasAction ι)}
    {system : CasSystem ι S T E}, Fresh calls path system →
      Headroom path system.state actions.length →
      Along (CasSystem.next calls) (Sound calls path) system actions
  | [], _, _, _ => trivial
  | action :: _, _, h, hroom =>
    have ⟨hnext, hroom'⟩ := h.next hon hkeep hroom action
    ⟨h.sound hkeep action, hnext.along hon hkeep hroom'⟩

omit [DecidableEq ι] in
theorem Fresh.start (initial : State) : Fresh calls path (CasSystem.start initial) where
  pending _ := rfl
  deciding _ := CallState.deciding_of_not_mutating (by simp [CasSystem.start, CallState.initial])
  earlier _ _ _ _ hphase := by simp [CasSystem.start, CallState.initial] at hphase

end Concurrent

/-! ### Three callers of a counter -/

instance Serves.decidable [DecidableEq S] [DecidableEq T] [DecidableEq E]
    (calls : ι → CasCall S T E) (path : VirtualPath) : ∀ (order : List (ι × T)) (state : State)
    (stored : Option Entry), Decidable (Serves calls path order state stored)
  | [], state, stored => inferInstanceAs (Decidable (state.value path = stored))
  | (caller, outcome) :: order, state, stored =>
    have := Serves.decidable calls path order ((calls caller).alone state).2 stored
    inferInstanceAs (Decidable (((calls caller).alone state).1.phase = .done (.ok outcome) ∧
      Serves calls path order ((calls caller).alone state).2 stored))

/-- A record that holds one byte. -/
def counterPath : VirtualPath :=
  ⟨"/projects/p1/counter",
    @normalizeAbsolutePath_normal "/projects/p1/counter" _ .virtual (by decide +kernel),
    by decide +kernel⟩

/-- A call on the counter, with all permissions. -/
def onCounter (apply : Option (Fin 256) → CasApply (Fin 256) ℕ) : CasCall (Fin 256) ℕ Unit where
  resolve _ := .ok counterPath
  decode body := .ok (body.headD 0)
  encode value := .ok (.bytes [value])
  apply current := .ok (apply current)

theorem onCounter_on (apply : Option (Fin 256) → CasApply (Fin 256) ℕ) :
    (onCounter apply).On counterPath := fun _ _ h => (Except.ok.inj h).symm

/-- Add one to a counter that exists. -/
def increment : CasCall (Fin 256) ℕ Unit :=
  onCounter fun
    | some value => ⟨value + 1, (value + 1).val, .write⟩
    | none => ⟨0, 0, .noOp⟩

def removeCounter : CasCall (Fin 256) ℕ Unit := onCounter fun _ => ⟨0, 0, .delete⟩

/-- Set the counter to ten. -/
def resetCounter : CasCall (Fin 256) ℕ Unit := onCounter fun _ => ⟨10, 10, .write⟩

/-- The counter at zero, in its first version. -/
def freshCounter : State := { State.new with
  entries := Table.empty.put ⟨counterPath, .bytes [0], .first⟩ }

/-- The counter is deleted and created anew between the read and the write of an increment. The
new record has the version the increment read, so the write goes through, over the new value. -/
theorem recreated_record_loses_update :
    let calls : Fin 3 → CasCall (Fin 256) ℕ Unit := ![increment, removeCounter, resetCounter]
    let final := (CasSystem.start freshCounter).run calls
      [.step 0, .step 1, .step 1, .step 1, .step 2, .step 2, .step 0]
    (∀ caller, (calls caller).On counterPath) ∧
      (final.progress 0).phase = .done (.ok 1) ∧ (final.progress 1).phase = .done (.ok 0) ∧
      (final.progress 2).phase = .done (.ok 10) ∧
      final.state.value counterPath = some (.bytes [1]) ∧
      ¬ Serializable calls counterPath freshCounter final := by
  intro calls final
  have h0 : (final.progress 0).phase = .done (.ok 1) := by decide +kernel
  have h1 : (final.progress 1).phase = .done (.ok 0) := by decide +kernel
  have h2 : (final.progress 2).phase = .done (.ok 10) := by decide +kernel
  have hvalue : final.state.value counterPath = some (.bytes [1]) := by decide +kernel
  refine ⟨?_, h0, h1, h2, hvalue, ?_⟩
  · intro caller
    fin_cases caller <;> exact onCounter_on _
  · rintro ⟨order, hnodup, hmem, hserves⟩
    have hperm : order.Perm [(0, 1), (1, 0), (2, 10)] := by
      refine (List.perm_ext_iff_of_nodup (List.Nodup.of_map _ hnodup) (by decide)).2 ?_
      rintro ⟨caller, outcome⟩
      rw [hmem]
      fin_cases caller <;> simp [h0, h1, h2, eq_comm]
    have hnone : ∀ order ∈ ([(0, 1), (1, 0), (2, 10)] : List (Fin 3 × ℕ)).permutations',
        ¬ Serves calls counterPath order freshCounter (some (.bytes [1])) := by decide +kernel
    exact hnone order (List.mem_permutations'.2 hperm) (hvalue ▸ hserves)

/-- Two increments that read the same version: the second write is refused and the call reads
again. -/
theorem racing_increments_serializable :
    let calls : Fin 2 → CasCall (Fin 256) ℕ Unit := ![increment, increment]
    Serializable calls counterPath freshCounter ((CasSystem.start freshCounter).run calls
      [.step 0, .step 1, .step 0, .step 1, .step 1, .step 1]) := by
  intro calls
  have hon : ∀ caller, (calls caller).On counterPath := by
    intro caller
    fin_cases caller <;> exact onCounter_on _
  have hkeep : ∀ caller, Keeping (calls caller) := by
    intro caller
    fin_cases caller <;>
    · intro current applied happly
      obtain rfl := Except.ok.inj happly
      cases current <;> simp
  have hroom : Headroom counterPath freshCounter 6 := by
    refine ⟨by decide, fun version hversion => ?_⟩
    obtain rfl := Option.some.inj hversion
    decide
  refine cas_update_serializable calls counterPath hon freshCounter _
    ((Fresh.start freshCounter).along hon hkeep hroom) fun caller => .inr ?_
  fin_cases caller
  · exact ⟨.ok 1, by decide +kernel⟩
  · exact ⟨.ok 2, by decide +kernel⟩

end Ironclaw.Filesystem
