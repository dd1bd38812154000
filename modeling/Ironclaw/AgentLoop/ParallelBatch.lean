import Ironclaw.AgentLoop.HostError
import Mathlib.Data.List.Range

/-! # The launch window of a parallel batch

`CapabilityStage::invoke_batch` keeps at most `maxParallelCapabilityInvocations` calls in flight and
launches the next call of the batch each time one completes, until a completion says to stop.
`LaunchWindow` is the state of that loop: the iterator over the batch, the indices in flight, the
slots of the outcomes and the two flags that stop the launches. The host completes the calls in
flight in any order and with any result; a run is the list of these completions.

* `LaunchWindow.Inv`: after any completions, the calls made are the first `launched` of the batch,
  the indices below `launched` are exactly those in flight and those completed, and the slot of a
  completed index holds its result.
* `run_of_stopped`: after a completion that stops the launches no call is made. -/

namespace Ironclaw.AgentLoop

variable {ι ρ : Type}

/-! ### Resolutions -/

inductive ToolVerdict (ρ : Type) where
  | success
  | recoverableFailure (errorKind : FailureKind) (diagnostic : ρ)
  | childSpawned (childRun : ρ)

structure Outcome (ρ : Type) where
  verdict : ToolVerdict ρ
  summary : String
  refs : ρ

/-- What a capability call comes to. `ρ` is the type of the references the loop hands on. -/
inductive Resolution (ρ : Type) where
  | done (outcome : Outcome ρ)
  | denied (denial : ρ)
  | blocked (gate : ρ)
  | suspended (suspension : ρ)

def Resolution.parks : Resolution ρ → Bool
  | .blocked _ | .suspended _ => true
  | .done _ | .denied _ => false

def resolutionStopsParallelLaunch (resolution : Resolution ρ) : Bool :=
  resolution.parks ||
    match resolution with
    | .done ⟨.recoverableFailure errorKind _, _, _⟩ => errorKind = .cancelled
    | _ => false

/-- The texts and references of a failed call, made by sanitizers that the batch does not see
into. -/
structure FailureRendering (ρ : Type) where
  sanitizeModelVisibleText : String → String
  modelFailureDiagnostic : String → ρ
  safeSummaryOrPlaceholder : String → String
  unstagedRefs : ρ

def recoverablePortErrorResolution (render : FailureRendering ρ) (error : AgentLoopHostError) :
    Resolution ρ :=
  let detail := error.detail.getD (render.sanitizeModelVisibleText error.safeSummary)
  .done
    { verdict := .recoverableFailure error.kind.failureKind (render.modelFailureDiagnostic detail)
      summary := render.safeSummaryOrPlaceholder error.safeSummary
      refs := render.unstagedRefs }

/-! ### The window -/

def maxParallelCapabilityInvocations : ℕ := 4

/-- What the host answers to one call. -/
abbrev CallResult (ρ : Type) := Except AgentLoopHostError (Resolution ρ)

structure LaunchWindow (ι ρ : Type) where
  /-- What the iterator over the batch has left. -/
  indexedInvocations : List (ι × ℕ)
  /-- The indices of the calls in flight. -/
  pending : List ℕ
  /-- The calls handed to the host so far. -/
  calls : List (ι × ℕ)
  launched : ℕ
  outcomes : List (Option (CallResult ρ))
  stopLaunching : Bool
  terminalErrorSeen : Bool

inductive InvokedCapabilityOutcome (ρ : Type) where
  | resolution (resolution : Resolution ρ)
  | terminalError (error : AgentLoopHostError)

structure InvokedCapabilityBatch (ρ : Type) where
  outcomes : List (InvokedCapabilityOutcome ρ)
  truncatedLaunchWindow : Bool

structure InvokedCapabilityBatchError where
  error : AgentLoopHostError
  launchedCount : ℕ

/-- Whether a completion stops the launches: parked, cancelled, or a terminal error. -/
def stopsLaunch : CallResult ρ → Bool
  | .ok resolution => resolutionStopsParallelLaunch resolution
  | .error error => capabilityPortErrorIsTerminal error.kind

namespace LaunchWindow

/-- Take the next call of the iterator, if there is one, and launch it. -/
def launch (w : LaunchWindow ι ρ) : LaunchWindow ι ρ :=
  match w.indexedInvocations with
  | [] => w
  | call :: rest =>
    { w with
      indexedInvocations := rest
      pending := w.pending ++ [call.2]
      calls := w.calls ++ [call]
      launched := w.launched + 1 }

def launchUpTo : ℕ → LaunchWindow ι ρ → LaunchWindow ι ρ
  | 0, w => w
  | n + 1, w => launchUpTo n w.launch

/-- The window before its first completion. -/
def start (invocations : List ι) : LaunchWindow ι ρ :=
  launchUpTo maxParallelCapabilityInvocations
    { indexedInvocations := invocations.zipIdx
      pending := []
      calls := []
      launched := 0
      outcomes := List.replicate invocations.length none
      stopLaunching := false
      terminalErrorSeen := false }

/-- The call at `index` leaves the pending set; its result is looked at and stored. -/
def settle (w : LaunchWindow ι ρ) (index : ℕ) (result : CallResult ρ) : LaunchWindow ι ρ :=
  { w with
    pending := w.pending.filter (· ≠ index)
    outcomes := w.outcomes.set index (some result)
    stopLaunching := w.stopLaunching ||
      match result with
      | .ok resolution => resolutionStopsParallelLaunch resolution
      | .error _ => false
    terminalErrorSeen := w.terminalErrorSeen ||
      match result with
      | .ok _ => false
      | .error error => capabilityPortErrorIsTerminal error.kind }

/-- One turn of the loop, for a completion of a call in flight. -/
def complete (w : LaunchWindow ι ρ) (index : ℕ) (result : CallResult ρ) :
    Option (LaunchWindow ι ρ) :=
  if index ∈ w.pending then
    let settled := w.settle index result
    some (if !settled.stopLaunching && !settled.terminalErrorSeen then settled.launch else settled)
  else none

/-- The window after a list of completions. -/
def run (w : LaunchWindow ι ρ) : List (ℕ × CallResult ρ) → Option (LaunchWindow ι ρ)
  | [] => some w
  | (index, result) :: rest => (w.complete index result).bind fun w' => w'.run rest

def normalize (render : FailureRendering ρ) : CallResult ρ → InvokedCapabilityOutcome ρ
  | .ok resolution => .resolution resolution
  | .error error =>
    if capabilityPortErrorIsTerminal error.kind then .terminalError error
    else .resolution (recoverablePortErrorResolution render error)

/-- The outcomes of the launched calls, once nothing is in flight. -/
def finish (render : FailureRendering ρ) (w : LaunchWindow ι ρ) :
    Except InvokedCapabilityBatchError (InvokedCapabilityBatch ρ) :=
  match (w.outcomes.take w.launched).mapM fun outcome => outcome.map (normalize render) with
  | some normalized =>
    .ok ⟨normalized, (w.stopLaunching || w.terminalErrorSeen) && w.launched < w.outcomes.length⟩
  | none =>
    .error ⟨.new .internal
      "parallel capability invocation completed without an indexed outcome", w.launched⟩

end LaunchWindow

inductive BatchPolicyKind where
  | sequential
  | parallel
deriving DecidableEq

structure LoopRequestBatch (ι : Type) where
  invocations : List ι
  stopOnFirstSuspension : Bool

/-- Where a batch goes: to the host as a whole, or through a window of its own. -/
inductive BatchDispatch (ι ρ : Type) where
  | host (batch : LoopRequestBatch ι)
  | window (w : LaunchWindow ι ρ)

/-- `invoke_batch` up to its first wait. -/
def invokeBatch (requiresOrderedBatchInvocation : List ι → Bool) (policy : BatchPolicyKind)
    (invocations : List ι) : BatchDispatch ι ρ :=
  let ordered := 2 ≤ invocations.length && policy = .parallel &&
    requiresOrderedBatchInvocation invocations
  if invocations.length < 2 || policy ≠ .parallel || ordered then
    .host ⟨invocations, policy = .sequential || ordered⟩
  else .window (.start invocations)

namespace LaunchWindow

/-! ### One completion -/

def Stopped (w : LaunchWindow ι ρ) : Prop := (w.stopLaunching || w.terminalErrorSeen) = true

variable {result : CallResult ρ} {index : ℕ}

theorem complete_cases {w w' : LaunchWindow ι ρ} (h : w.complete index result = some w') :
    index ∈ w.pending ∧ ((w.settle index result).Stopped ∧ w' = w.settle index result ∨
      ¬ (w.settle index result).Stopped ∧ w' = (w.settle index result).launch) := by
  unfold complete at h
  split at h
  next hmem =>
    refine ⟨hmem, ?_⟩
    unfold Stopped
    obtain rfl := Option.some.inj h
    cases (w.settle index result).stopLaunching <;>
      cases (w.settle index result).terminalErrorSeen <;> simp
  · cases h

/-- What holds of the window of `invocations` after the completions `events`. -/
structure Inv (invocations : List ι) (events : List (ℕ × CallResult ρ)) (w : LaunchWindow ι ρ) :
    Prop where
  rest : w.indexedInvocations = invocations.zipIdx.drop w.launched
  calls : w.calls = invocations.zipIdx.take w.launched
  launched_le : w.launched ≤ invocations.length
  slots : w.outcomes.length = invocations.length
  room : w.pending.length ≤ maxParallelCapabilityInvocations
  nodup : (w.pending ++ events.map Prod.fst).Nodup
  mem_iff : ∀ i, i ∈ w.pending ++ events.map Prod.fst ↔ i < w.launched
  stored : ∀ event ∈ events, w.outcomes[event.1]? = some (some event.2)

variable {invocations : List ι} {events : List (ℕ × CallResult ρ)} {w w' : LaunchWindow ι ρ}

/-- A launch takes the call at the index `launched`. -/
theorem Inv.launch (h : Inv invocations events w)
    (hroom : w.pending.length < maxParallelCapabilityInvocations) :
    Inv invocations events w.launch := by
  unfold LaunchWindow.launch
  split
  · exact h
  next call rest heq =>
    have hdrop : invocations.zipIdx.drop w.launched = call :: rest := h.rest ▸ heq
    have hlt : w.launched < invocations.zipIdx.length := by
      by_contra hge
      rw [List.drop_eq_nil_of_le (Nat.not_lt.1 hge)] at hdrop
      cases hdrop
    rw [List.drop_eq_getElem_cons hlt] at hdrop
    obtain ⟨rfl, rfl⟩ := List.cons.inj hdrop
    have hindex : (invocations.zipIdx[w.launched]).2 = w.launched := by simp
    have hfresh : w.launched ∉ w.pending ++ events.map Prod.fst := fun hmem =>
      Nat.lt_irrefl _ ((h.mem_iff _).1 hmem)
    exact
      { rest := rfl
        calls := by
          show w.calls ++ [invocations.zipIdx[w.launched]] = _
          rw [h.calls, List.take_append_getElem hlt]
        launched_le := by simpa [Nat.succ_le_iff] using hlt
        slots := h.slots
        room := by simpa [Nat.succ_le_iff] using hroom
        nodup := by
          have := h.nodup
          simp only [hindex, List.mem_append, List.append_assoc] at hfresh ⊢
          grind
        mem_iff := by
          intro i
          have := h.mem_iff i
          show i ∈ w.pending ++ [invocations.zipIdx[w.launched].2] ++ _ ↔ i < w.launched + 1
          rw [hindex]
          simp only [List.mem_append, List.mem_singleton] at this ⊢
          rw [Nat.lt_succ_iff_lt_or_eq, ← this]
          tauto
        stored := h.stored }

theorem Inv.launchUpTo (n : ℕ) : ∀ {w : LaunchWindow ι ρ}, Inv invocations events w →
    w.pending.length + n ≤ maxParallelCapabilityInvocations →
    Inv invocations events (launchUpTo n w) := by
  induction n with
  | zero =>
    intro w h _
    exact h
  | succ n ih =>
    intro w h hn
    refine ih (h.launch (by omega)) ?_
    have hone : w.launch.pending.length ≤ w.pending.length + 1 := by
      unfold LaunchWindow.launch
      split <;> simp
    omega

theorem inv_start (invocations : List ι) :
    Inv invocations [] (start invocations : LaunchWindow ι ρ) := by
  refine Inv.launchUpTo _ ?_ (Nat.le_refl _)
  exact
    { rest := rfl
      calls := rfl
      launched_le := Nat.zero_le _
      slots := List.length_replicate
      room := Nat.zero_le _
      nodup := List.nodup_nil
      mem_iff := by simp
      stored := by simp }

theorem length_settle_lt (hmem : index ∈ w.pending) (result : CallResult ρ) :
    (w.settle index result).pending.length < w.pending.length := by
  refine List.length_filter_lt_length_iff_exists.2 ⟨index, hmem, ?_⟩
  simp

theorem Inv.settle (h : Inv invocations events w) (hmem : index ∈ w.pending)
    (result : CallResult ρ) :
    Inv invocations (events ++ [(index, result)]) (w.settle index result) := by
  have hnodup := h.nodup
  have hlaunched : index < w.launched := (h.mem_iff index).1 (List.mem_append_left _ hmem)
  have hslot : index < w.outcomes.length := h.slots ▸ Nat.lt_of_lt_of_le hlaunched h.launched_le
  have hold : index ∉ events.map Prod.fst := fun hin =>
    (List.nodup_append.1 hnodup).2.2 index hmem index hin rfl
  exact
    { rest := h.rest
      calls := h.calls
      launched_le := h.launched_le
      slots := by simpa [LaunchWindow.settle] using h.slots
      room := Nat.le_trans (Nat.le_of_lt (length_settle_lt hmem result)) h.room
      nodup := by
        simp only [LaunchWindow.settle, List.map_append, List.map_cons, List.map_nil]
        grind
      mem_iff := by
        intro i
        have := h.mem_iff i
        by_cases hi : i = index
        · subst hi
          simpa [LaunchWindow.settle] using hlaunched
        · simpa [LaunchWindow.settle, hi] using this
      stored := by
        intro event hevent
        simp only [LaunchWindow.settle]
        obtain hprior | hnew := List.mem_append.1 hevent
        · have hne : index ≠ event.1 := by
            rintro rfl
            exact hold (List.mem_map_of_mem hprior)
          rw [List.getElem?_set_ne hne]
          exact h.stored event hprior
        · obtain rfl := List.mem_singleton.1 hnew
          exact List.getElem?_set_self hslot }

theorem Inv.complete (h : Inv invocations events w) (hstep : w.complete index result = some w') :
    Inv invocations (events ++ [(index, result)]) w' := by
  obtain ⟨hmem, ⟨-, rfl⟩ | ⟨-, rfl⟩⟩ := complete_cases hstep
  · exact h.settle hmem result
  · exact (h.settle hmem result).launch
      (Nat.lt_of_lt_of_le (length_settle_lt hmem result) h.room)

/-! ### Whole runs -/

theorem Inv.run (rest : List (ℕ × CallResult ρ)) :
    ∀ {events : List (ℕ × CallResult ρ)} {w : LaunchWindow ι ρ}, Inv invocations events w →
      w.run rest = some w' → Inv invocations (events ++ rest) w' := by
  induction rest with
  | nil =>
    intro events w h hrun
    obtain rfl := Option.some.inj hrun
    simpa using h
  | cons event rest ih =>
    intro events w h hrun
    obtain ⟨w₁, hstep, hrest⟩ := Option.bind_eq_some_iff.1 hrun
    simpa using ih (h.complete hstep) hrest

theorem stopped_settle (h : w.Stopped ∨ stopsLaunch result = true) (index : ℕ) :
    (w.settle index result).Stopped := by
  unfold Stopped at h ⊢
  cases result <;> simp only [settle, stopsLaunch, Bool.or_eq_true] at h ⊢ <;> tauto

/-- A completion after the launches have stopped, or one that stops them, makes no call. -/
theorem complete_of_stopped (h : w.Stopped ∨ stopsLaunch result = true)
    (hstep : w.complete index result = some w') :
    w'.Stopped ∧ w'.calls = w.calls := by
  have hstopped := stopped_settle h index
  obtain ⟨-, ⟨-, rfl⟩ | ⟨hgo, -⟩⟩ := complete_cases hstep
  · exact ⟨hstopped, rfl⟩
  · exact absurd hstopped hgo

theorem run_of_stopped (rest : List (ℕ × CallResult ρ)) :
    ∀ {w : LaunchWindow ι ρ}, w.Stopped → w.run rest = some w' → w'.calls = w.calls := by
  induction rest with
  | nil =>
    intro w _ hrun
    obtain rfl := Option.some.inj hrun
    rfl
  | cons event rest ih =>
    intro w h hrun
    obtain ⟨w₁, hstep, hrest⟩ := Option.bind_eq_some_iff.1 hrun
    obtain ⟨hstopped, hcalls⟩ := complete_of_stopped (.inl h) hstep
    exact (ih hstopped hrest).trans hcalls

theorem run_append (w : LaunchWindow ι ρ) (before after : List (ℕ × CallResult ρ)) :
    w.run (before ++ after) = (w.run before).bind fun w' => w'.run after := by
  induction before generalizing w with
  | nil => rfl
  | cons event before ih =>
    simp only [List.cons_append, LaunchWindow.run, ih, Option.bind_assoc]

/-! ### The outcomes -/

theorem exists_map_some {α : Type} {slots : List (Option α)} (h : ∀ slot ∈ slots, slot.isSome) :
    ∃ results : List α, slots = results.map some := by
  induction slots with
  | nil => exact ⟨[], rfl⟩
  | cons slot slots ih =>
    obtain ⟨results, rfl⟩ := ih fun o ho => h o (List.mem_cons_of_mem _ ho)
    obtain ⟨r, rfl⟩ := Option.isSome_iff_exists.1 (h slot List.mem_cons_self)
    exact ⟨r :: results, rfl⟩

theorem mapM_map_some {α β : Type} (f : α → β) (results : List α) :
    (results.map some).mapM (fun outcome => outcome.map f) = some (results.map f) := by
  induction results with
  | nil => rfl
  | cons r results ih => simp [ih]

/-- With nothing in flight every launched slot is filled, and the window returns those slots. -/
theorem Inv.finish (h : Inv invocations events w) (hdone : w.pending = [])
    (render : FailureRendering ρ) :
    ∃ batch, w.finish render = .ok batch ∧ batch.outcomes.length = w.launched ∧
      ∀ i < w.launched, ∃ result, (i, result) ∈ events ∧
        batch.outcomes[i]? = some (normalize render result) := by
  have hslot : ∀ i < w.launched, ∃ result, (i, result) ∈ events ∧
      w.outcomes[i]? = some (some result) := by
    intro i hi
    have hin : i ∈ events.map Prod.fst := by simpa [hdone] using (h.mem_iff i).2 hi
    obtain ⟨event, hevent, rfl⟩ := List.mem_map.1 hin
    exact ⟨event.2, hevent, h.stored event hevent⟩
  have hlength : (w.outcomes.take w.launched).length = w.launched := by
    rw [List.length_take, h.slots]
    exact Nat.min_eq_left h.launched_le
  obtain ⟨results, hresults⟩ : ∃ results : List (CallResult ρ),
      w.outcomes.take w.launched = results.map some := by
    refine exists_map_some fun slot hmem => ?_
    obtain ⟨i, hi, rfl⟩ := List.mem_iff_getElem.1 hmem
    rw [List.length_take] at hi
    obtain ⟨result, -, hi'⟩ := hslot i (by omega)
    obtain ⟨_, hget⟩ := List.getElem?_eq_some_iff.1 hi'
    rw [List.getElem_take, hget]
    rfl
  refine ⟨⟨results.map (normalize render),
    (w.stopLaunching || w.terminalErrorSeen) && w.launched < w.outcomes.length⟩, ?_, ?_, ?_⟩
  · unfold LaunchWindow.finish
    rw [hresults, mapM_map_some]
  · rw [hresults, List.length_map] at hlength
    simpa using hlength
  · intro i hi
    obtain ⟨result, hevent, hi'⟩ := hslot i hi
    refine ⟨result, hevent, ?_⟩
    have htake : (w.outcomes.take w.launched)[i]? = some (some result) := by
      rw [List.getElem?_take_of_lt hi, hi']
    rw [hresults] at htake
    simp only [List.getElem?_map, Option.map_eq_some_iff] at htake ⊢
    obtain ⟨r, hr, heq⟩ := htake
    obtain rfl := Option.some.inj heq
    exact ⟨r, hr, rfl⟩

end LaunchWindow

open LaunchWindow in
/-- The window of a parallel batch after any completions in any order. At most
`maxParallelCapabilityInvocations` calls are in flight; the calls made are the first ones of the
batch, each in flight or completed; none is made from the moment a parked, cancelled or terminal
completion is seen; and when nothing is in flight the window returns the results of exactly the
calls made, in the order of the batch. -/
theorem parallel_window_is_an_initial_part (requiresOrdered : List ι → Bool)
    (policy : BatchPolicyKind) (invocations : List ι) {w₀ w : LaunchWindow ι ρ}
    {events : List (ℕ × CallResult ρ)} (render : FailureRendering ρ)
    (hdispatch : invokeBatch requiresOrdered policy invocations = .window w₀)
    (hrun : w₀.run events = some w) :
    w.pending.length ≤ maxParallelCapabilityInvocations ∧
    w.calls.map Prod.fst = invocations.take w.launched ∧ w.calls.length = w.launched ∧
    (w.pending ++ events.map Prod.fst).Perm (List.range w.launched) ∧
    (∀ before index result after w₁, events = before ++ (index, result) :: after →
      stopsLaunch result = true → w₀.run before = some w₁ → w.calls = w₁.calls) ∧
    (w.pending = [] → ∃ batch, w.finish render = .ok batch ∧
      batch.outcomes.length = w.launched ∧
      ∀ i < w.launched, ∃ result, (i, result) ∈ events ∧
        batch.outcomes[i]? = some (normalize render result)) := by
  obtain rfl : start invocations = w₀ := by
    simp only [invokeBatch] at hdispatch
    split_ifs at hdispatch
    exact BatchDispatch.window.inj hdispatch
  have hinv : Inv invocations events w := by simpa using (inv_start invocations).run events hrun
  refine ⟨hinv.room, ?_, ?_, ?_, ?_, fun hdone => hinv.finish hdone render⟩
  · rw [hinv.calls, List.map_take, List.zipIdx_map_fst]
  · rw [hinv.calls, List.length_take, List.length_zipIdx]
    exact Nat.min_eq_left hinv.launched_le
  · refine (List.perm_ext_iff_of_nodup hinv.nodup List.nodup_range).2 fun i => ?_
    rw [hinv.mem_iff, List.mem_range]
  · rintro before index result after w₁ rfl hstop hbefore
    rw [run_append, hbefore, Option.bind_some] at hrun
    obtain ⟨w₂, hstep, hafter⟩ := Option.bind_eq_some_iff.1 hrun
    obtain ⟨hstopped, hcalls⟩ := complete_of_stopped (.inr hstop) hstep
    exact (run_of_stopped after hstopped hafter).trans hcalls

/-- Six calls: the second is parked after the third is denied, so the last one is never made, and the
window returns five outcomes. -/
theorem parked_call_closes_the_window :
    ∃ w : LaunchWindow ℕ Unit,
      (LaunchWindow.start [10, 11, 12, 13, 14, 15]).run
        [(2, .ok (.denied ())), (1, .ok (.blocked ())), (0, .ok (.denied ())), (4, .ok (.denied ())),
          (3, .ok (.denied ()))] = some w ∧
      w.calls.map Prod.fst = [10, 11, 12, 13, 14] ∧ w.pending = [] ∧
      ∃ batch, w.finish ⟨id, fun _ => (), id, ()⟩ = .ok batch ∧ batch.outcomes.length = 5 := by
  have hrun : (LaunchWindow.start [10, 11, 12, 13, 14, 15] : LaunchWindow ℕ Unit).run
      [(2, .ok (.denied ())), (1, .ok (.blocked ())), (0, .ok (.denied ())), (4, .ok (.denied ())),
        (3, .ok (.denied ()))] = some _ := rfl
  have h := parallel_window_is_an_initial_part (fun _ => false) .parallel
    [10, 11, 12, 13, 14, 15] ⟨id, fun _ => (), id, ()⟩ rfl hrun
  obtain ⟨-, hcalls, -, -, -, hreturns⟩ := h
  obtain ⟨batch, hfinish, hlength, -⟩ := hreturns rfl
  exact ⟨_, hrun, hcalls, rfl, batch, hfinish, hlength⟩

end Ironclaw.AgentLoop
