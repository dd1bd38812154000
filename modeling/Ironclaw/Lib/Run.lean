import Mathlib.Data.List.Induction

/-! # Runs of a machine whose commands may be rejected

A machine is a transition function `apply : σ → κ → Except ε (ω × σ)` on states `σ` and
commands `κ`. A rejected command leaves the state as it was (`advance`). Between two
commands the state may be replaced by one that is `same` as it: `same` is the part of the
state a program does not control, such as the enumeration order of a hash table.

`Run same apply init history s` says that `s` is reached from `init` through the steps
listed, oldest first, in `history`; each step records the state before, the command and the
state after. Statements about a whole run are statements about its history.

* `Run.induct_history` is the induction rule for a property of history and state, `Run.invariant`
  the one for a property of the states.
* `Run.split` and `Run.append` cut and join runs; `Run.of_commands` executes a list.

For a machine that rejects nothing, `Along next P s cs` says that `P` holds before every step when
`cs` is executed from `s`; `Along.invariant` is its invariant rule. -/

namespace Ironclaw

variable {σ κ ε ω : Type}

/-- The state after a command; a rejected command changes nothing. -/
def advance (apply : σ → κ → Except ε (ω × σ)) (s : σ) (c : κ) : σ :=
  match apply s c with
  | .ok r => r.2
  | .error _ => s

theorem advance_of_ok {apply : σ → κ → Except ε (ω × σ)} {s s' : σ} {c : κ} {o : ω}
    (h : apply s c = .ok (o, s')) : advance apply s c = s' := by
  simp [advance, h]

theorem advance_of_error {apply : σ → κ → Except ε (ω × σ)} {s : σ} {c : κ} {e : ε}
    (h : apply s c = .error e) : advance apply s c = s := by
  simp [advance, h]

/-- One step of a run. -/
structure Step (σ κ : Type) where
  pre : σ
  command : κ
  post : σ

/-- `Run same apply init history s`: the steps of `history` lead from `init` to `s`. -/
inductive Run (same : σ → σ → Prop) (apply : σ → κ → Except ε (ω × σ)) (init : σ) :
    List (Step σ κ) → σ → Prop
  | nil : Run same apply init [] init
  | snoc {history : List (Step σ κ)} {s s₀ : σ} (c : κ) :
      Run same apply init history s → same s s₀ →
      Run same apply init (history ++ [⟨s₀, c, advance apply s₀ c⟩]) (advance apply s₀ c)

namespace Run

variable {same : σ → σ → Prop} {apply : σ → κ → Except ε (ω × σ)} {init : σ}

variable {history : List (Step σ κ)}

/-- Induction on the history: `I` holds of the empty history, is unaffected by `same`, and is
preserved by every step whose command is in `A`. -/
theorem induct_history {I : List (Step σ κ) → σ → Prop} {A : κ → Prop}
    (hinit : I [] init) (hsame : ∀ h s t, same s t → I h s → I h t)
    (hstep : ∀ h s c, A c → I h s → I (h ++ [⟨s, c, advance apply s c⟩]) (advance apply s c))
    {s : σ} (run : Run same apply init history s)
    (hall : ∀ x ∈ history, A x.command) : I history s := by
  induction run with
  | nil => exact hinit
  | snoc c _ hs ih =>
    simp only [List.mem_append, List.mem_singleton] at hall
    exact hstep _ _ c (hall _ (.inr rfl)) (hsame _ _ _ hs (ih fun x hx => hall x (.inl hx)))

theorem invariant {I : σ → Prop} {A : κ → Prop} (hinit : I init)
    (hsame : ∀ s t, same s t → I s → I t) (hstep : ∀ s c, A c → I s → I (advance apply s c))
    {s : σ} (run : Run same apply init history s) (hall : ∀ x ∈ history, A x.command) : I s :=
  run.induct_history (I := fun _ s => I s) hinit (fun _ => hsame) (fun _ => hstep) hall

theorem nil_eq {t : σ} (run : Run same apply init [] t) : t = init := by
  generalize hh : ([] : List (Step σ κ)) = h at run
  cases run with
  | nil => rfl
  | snoc c _ _ => simp at hh

theorem append {h₁ h₂ : List (Step σ κ)} {s t : σ} (r₁ : Run same apply init h₁ s)
    (r₂ : Run same apply s h₂ t) : Run same apply init (h₁ ++ h₂) t := by
  induction r₂ with
  | nil => simpa using r₁
  | snoc c _ hs ih =>
    rw [← List.append_assoc]
    exact Run.snoc c ih hs

theorem split {h₁ h₂ : List (Step σ κ)} {t : σ} (run : Run same apply init (h₁ ++ h₂) t) :
    ∃ s, Run same apply init h₁ s ∧ Run same apply s h₂ t := by
  induction h₂ using List.reverseRecOn generalizing t with
  | nil => exact ⟨t, by simpa using run, Run.nil⟩
  | append_singleton h₂ x ih =>
    rw [← List.append_assoc] at run
    generalize hh : h₁ ++ h₂ ++ [x] = h at run
    cases run with
    | nil => simp at hh
    | snoc c hr hs =>
      obtain ⟨rfl, hx⟩ := List.append_inj' hh rfl
      rw [List.singleton_inj] at hx
      subst hx
      obtain ⟨s, r₁, r₂⟩ := ih hr
      exact ⟨s, r₁, r₂.snoc c hs⟩

/-- The one step of a run starts in a state that is `same` as the initial one. -/
theorem singleton {x : Step σ κ} {t : σ} (run : Run same apply init [x] t) :
    same init x.pre ∧ x.post = t := by
  rw [← List.nil_append [x]] at run
  generalize hh : [] ++ [x] = h at run
  cases run with
  | nil => simp at hh
  | @snoc h _ _ c hr hs =>
    obtain ⟨rfl, hx⟩ := List.append_inj' hh rfl
    rw [List.singleton_inj] at hx
    subst hx
    rw [hr.nil_eq] at hs
    exact ⟨hs, rfl⟩

def trace (apply : σ → κ → Except ε (ω × σ)) : σ → List κ → List (Step σ κ)
  | _, [] => []
  | s, c :: cs => ⟨s, c, advance apply s c⟩ :: trace apply (advance apply s c) cs

theorem trace_forall {A : κ → Prop} : ∀ (cs : List κ) (init : σ), (∀ c ∈ cs, A c) →
    ∀ x ∈ trace apply init cs, A x.command
  | [], _, _ => by simp [trace]
  | c :: cs, init, h => by
    rw [List.forall_mem_cons] at h
    rw [trace, List.forall_mem_cons]
    exact ⟨h.1, trace_forall cs _ h.2⟩

theorem of_commands (hrefl : ∀ s, same s s) : ∀ (cs : List κ) (init : σ),
    Run same apply init (trace apply init cs) (cs.foldl (advance apply) init)
  | [], init => Run.nil
  | c :: cs, init => by
    have first : Run same apply init [⟨init, c, advance apply init c⟩] (advance apply init c) :=
      Run.nil.snoc c (hrefl init)
    exact first.append (of_commands hrefl cs (advance apply init c))

/-- Each recorded step is a step of the machine. -/
theorem post_eq {s : σ} (run : Run same apply init history s) :
    ∀ x ∈ history, x.post = advance apply x.pre x.command := by
  induction run with
  | nil => simp
  | snoc c _ _ ih =>
    intro x hx
    rcases List.mem_append.mp hx with hx | hx
    · exact ih x hx
    · rw [List.mem_singleton.mp hx]

/-- What holds at the start and after every step holds at the end. -/
theorem of_forall_post {P : σ → Prop} {s : σ} (run : Run same apply init history s) (hinit : P init)
    (hposts : ∀ x ∈ history, P x.post) : P s := by
  cases run with
  | nil => exact hinit
  | snoc c _ _ => exact hposts _ (List.mem_append_right _ List.mem_cons_self)

end Run

/-! ### Machines that reject nothing -/

/-- `P` holds before each step of an execution. -/
def Along (next : σ → κ → σ) (P : σ → κ → Prop) : σ → List κ → Prop
  | _, [] => True
  | s, c :: cs => P s c ∧ Along next P (next s c) cs

instance Along.decidable (next : σ → κ → σ) (P : σ → κ → Prop) [∀ s c, Decidable (P s c)] :
    ∀ (s : σ) (cs : List κ), Decidable (Along next P s cs)
  | _, [] => isTrue trivial
  | s, c :: cs => @instDecidableAnd _ _ (inferInstanceAs (Decidable (P s c)))
      (Along.decidable next P (next s c) cs)

theorem Along.invariant {next : σ → κ → σ} {P : σ → κ → Prop} {I : σ → Prop}
    (hstep : ∀ s c, P s c → I s → I (next s c)) : ∀ {cs : List κ} {s : σ},
    Along next P s cs → I s → I (cs.foldl next s)
  | [], _, _, hinit => hinit
  | _ :: _, _, ⟨hfirst, hrest⟩, hinit => hrest.invariant hstep (hstep _ _ hfirst hinit)

end Ironclaw
