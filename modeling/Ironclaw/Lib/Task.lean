import Mathlib.Data.Nat.Notation
import Mathlib.Logic.Function.Basic
import Mathlib.Logic.Relation

/-! # Programs that share a state

`Task ans α` is a program with a result in `α`. It makes requests, and goes on with the answer it gets;
`ans r` is the type of the answers to the request `r`. What a request does is not part of the program:

* `Task.run` executes a program alone, with a function that answers its requests;
* `Shared.Step` is one step of a family of programs that share a state. Any of them may make its next
  request, and a program that has crashed is one that makes no more.

`Meets` is the triple of a program among others. A `Protocol` says what holds in every state and which
states may come later, whoever moves; a program that meets it keeps both with each of its requests, and
its result is right when it ends. A `Role` narrows this for one program: what the others do meanwhile, and
what its own requests do. `Shared.Sound` puts the programs together.

Where it matters which program made a request, `Task.tag` marks the requests of a program. -/

namespace Ironclaw

/-- A program that makes requests in `ρ`. -/
inductive Task {ρ : Type} (ans : ρ → Type) (α : Type) : Type
  | done (result : α)
  | ask (request : ρ) (next : ans request → Task ans α)

namespace Task

variable {ρ : Type} {ans : ρ → Type} {α β σ : Type}

def bind : Task ans α → (α → Task ans β) → Task ans β
  | done a, f => f a
  | ask r next, f => ask r fun a => (next a).bind f

instance : Monad (Task ans) where
  pure := done
  bind := bind

/-- The program that makes one request and returns the answer. -/
def request (r : ρ) : Task ans (ans r) := ask r done

/-- The program alone, with its requests answered by `serve`. -/
def run (serve : σ → (r : ρ) → ans r × σ) : Task ans α → σ → α × σ
  | done a, s => (a, s)
  | ask r next, s => (next (serve s r).1).run serve (serve s r).2

variable {serve : σ → (r : ρ) → ans r × σ}

@[simp] theorem run_bind (m : Task ans α) (f : α → Task ans β) (s : σ) :
    (m >>= f).run serve s = (f (m.run serve s).1).run serve (m.run serve s).2 := by
  show (m.bind f).run serve s = _
  induction m generalizing s with
  | done a => rfl
  | ask r next ih => exact ih _ _

/-- The program after its next `n` requests, and the state they leave. -/
def runFor (serve : σ → (r : ρ) → ans r × σ) : ℕ → Task ans α → σ → Task ans α × σ
  | 0, m, s => (m, s)
  | _ + 1, done a, s => (done a, s)
  | n + 1, ask r next, s => (next (serve s r).1).runFor serve n (serve s r).2

/-- The program with each of its requests marked. -/
def tag {ι : Type} (i : ι) : Task ans α → Task (fun r : ι × ρ => ans r.2) α
  | done a => done a
  | ask r next => ask (i, r) fun a => (next a).tag i

end Task

/-- What a family of programs keeps: `Inv` holds in every state, and `Later s t` says that `t` may come
after `s`. -/
structure Protocol (σ : Type) where
  Inv : σ → Prop
  Later : σ → σ → Prop
  refl : ∀ s, Later s s
  trans : ∀ {s t u}, Later s t → Later t u → Later s u

/-- The part of one program: `Rely` is what the others do while it waits for its turn, and `Own` what its
own requests do. -/
structure Protocol.Role {σ : Type} (protocol : Protocol σ) where
  Rely : σ → σ → Prop
  Own : σ → σ → Prop
  refl : ∀ s, Rely s s
  trans : ∀ {s t u}, Rely s t → Rely t u → Rely s u
  rely_later : ∀ {s t}, Rely s t → protocol.Later s t
  own_later : ∀ {s t}, Own s t → protocol.Later s t

/-- All that the protocol allows, for a program and for the others. -/
def Protocol.role {σ : Type} (protocol : Protocol σ) : protocol.Role where
  Rely := protocol.Later
  Own := protocol.Later
  refl := protocol.refl
  trans := protocol.trans
  rely_later h := h
  own_later h := h

section meets

variable {ρ : Type} {ans : ρ → Type} {α β σ : Type} (serve : σ → (r : ρ) → ans r → σ → Prop)
  {protocol : Protocol σ} (role : protocol.Role)

/-- From `s` on, with others moving as the role allows, each request of the program keeps the
protocol and the role, and when the program ends, its result and the state are in `Q`. -/
def Meets : Task ans α → σ → (α → σ → Prop) → Prop
  | .done a, s, Q => ∀ t, role.Rely s t → protocol.Inv t → Q a t
  | .ask r next, s, Q => ∀ t, role.Rely s t → protocol.Inv t → ∀ a t', serve t r a t' →
      protocol.Inv t' ∧ role.Own t t' ∧ Meets (next a) t' Q

variable {serve role} {m : Task ans α} {s t : σ} {Q : α → σ → Prop}

namespace Meets

protected theorem pure {a : α} (h : ∀ t, role.Rely s t → protocol.Inv t → Q a t) :
    Meets serve role (pure a : Task ans α) s Q :=
  h

theorem request {r : ρ} {Q : ans r → σ → Prop}
    (h : ∀ t, role.Rely s t → protocol.Inv t → ∀ a t', serve t r a t' →
      protocol.Inv t' ∧ role.Own t t' ∧ ∀ u, role.Rely t' u → protocol.Inv u → Q a u) :
    Meets serve role (Task.request r) s Q :=
  h

/-- A program that may start may also start later. -/
theorem later (h : Meets serve role m s Q) (hlater : role.Rely s t) : Meets serve role m t Q := by
  cases m with
  | done a => exact fun u hu => h u (role.trans hlater hu)
  | ask r next => exact fun u hu => h u (role.trans hlater hu)

theorem mono {Q' : α → σ → Prop} (h : Meets serve role m s Q)
    (hQ : ∀ a t, protocol.Inv t → Q a t → Q' a t) : Meets serve role m s Q' := by
  induction m generalizing s with
  | done a => exact fun t ht hinv => hQ a t hinv (h t ht hinv)
  | ask r next ih =>
    intro t ht hinv a t' hserve
    obtain ⟨hinv', hown, hnext⟩ := h t ht hinv a t' hserve
    exact ⟨hinv', hown, ih a hnext⟩

/-- It is enough to start from the states that may come later and in which the invariant holds. -/
theorem of_later (h : ∀ t, role.Rely s t → protocol.Inv t → Meets serve role m t Q) :
    Meets serve role m s Q := by
  cases m with
  | done a => exact fun t ht hinv => h t ht hinv t (role.refl t) hinv
  | ask r next => exact fun t ht hinv => h t ht hinv t (role.refl t) hinv

theorem bind {f : α → Task ans β} {Q : β → σ → Prop}
    (h : Meets serve role m s fun a t => Meets serve role (f a) t Q) : Meets serve role (m >>= f) s Q := by
  show Meets serve role (m.bind f) s Q
  induction m generalizing s with
  | done a => exact of_later h
  | ask r next ih =>
    intro t ht hinv a t' hserve
    obtain ⟨hinv', hown, hnext⟩ := h t ht hinv a t' hserve
    exact ⟨hinv', hown, ih a hnext⟩

/-- What is known when the program ends: its state may come after the one it started from. -/
theorem since (h : Meets serve role m s Q) :
    Meets serve role m s fun a t => protocol.Later s t ∧ Q a t := by
  have general : ∀ (p : Task ans α) (t : σ), protocol.Later s t → Meets serve role p t Q →
      Meets serve role p t fun a u => protocol.Later s u ∧ Q a u := by
    intro p
    induction p with
    | done a => exact fun t hst hp u hu hinv => ⟨protocol.trans hst (role.rely_later hu), hp u hu hinv⟩
    | ask r next ih =>
      intro t hst hp u hu hinv a u' hserve
      obtain ⟨hinv', hown, hnext⟩ := hp u hu hinv a u' hserve
      have hsu := protocol.trans hst (role.rely_later hu)
      exact ⟨hinv', hown, ih a u' (protocol.trans hsu (role.own_later hown)) hnext⟩
  exact general m s (protocol.refl s) h

/-- One program after another, when only the state matters. -/
theorem seq {f : α → Task ans β} {P : α → σ → Prop} {Q : β → σ → Prop} (h : Meets serve role m s P)
    (hf : ∀ a t, protocol.Later s t → protocol.Inv t → P a t → Meets serve role (f a) t Q) :
    Meets serve role (m >>= f) s Q :=
  bind (h.since.mono fun a t hinv hpost => hf a t hpost.1 hinv hpost.2)

/-- A program whose requests are marked, served by what answers the marked ones. -/
theorem tag {ι : Type} {i : ι} {serve : σ → (r : ι × ρ) → ans r.2 → σ → Prop}
    (h : Meets (fun s r => serve s (i, r)) role m s Q) : Meets serve role (m.tag i) s Q := by
  induction m generalizing s with
  | done a => exact h
  | ask r next ih =>
    intro t ht hinv a t' hserve
    obtain ⟨hinv', hown, hnext⟩ := h t ht hinv a t' hserve
    exact ⟨hinv', hown, ih a hnext⟩

end Meets

end meets

/-- Programs that share a state; the results of the program `i` are in `α i`. -/
structure Shared {ρ : Type} (ans : ρ → Type) (σ : Type) {ι : Type} (α : ι → Type) where
  state : σ
  task : (i : ι) → Task ans (α i)

namespace Shared

variable {ρ : Type} {ans : ρ → Type} {σ ι : Type} {α : ι → Type} [DecidableEq ι]
  (serve : σ → (r : ρ) → ans r → σ → Prop)

/-- One of the programs makes its next request. -/
inductive Step : Shared ans σ α → Shared ans σ α → Prop
  | ask {system : Shared ans σ α} (i : ι) {r : ρ} {next : ans r → Task ans (α i)} {a : ans r} {state : σ} :
      system.task i = .ask r next → serve system.state r a state →
      Step system ⟨state, Function.update system.task i (next a)⟩

/-- Any number of steps, in any order of the programs. -/
def Reach : Shared ans σ α → Shared ans σ α → Prop := Relation.ReflTransGen (Step serve)

variable {serve} {protocol : Protocol σ} {role : ι → protocol.Role} {Q : (i : ι) → α i → σ → Prop}
  {system system' : Shared ans σ α}

/-- The invariant holds, every program goes on meeting the protocol in its role, and no role is disturbed by
what another one does. -/
structure Sound (serve : σ → (r : ρ) → ans r → σ → Prop) {protocol : Protocol σ} (role : ι → protocol.Role)
    (Q : (i : ι) → α i → σ → Prop) (system : Shared ans σ α) : Prop where
  apart : ∀ {i j s t}, i ≠ j → (role i).Own s t → (role j).Rely s t
  inv : protocol.Inv system.state
  meets : ∀ i, Meets serve (role i) (system.task i) system.state (Q i)

theorem Sound.step (h : Sound serve role Q system) (hstep : Step serve system system') :
    Sound serve role Q system' ∧ protocol.Later system.state system'.state := by
  cases hstep with
  | ask i htask hserve =>
    have hi := h.meets i
    rw [htask] at hi
    obtain ⟨hinv, hown, hnext⟩ := hi system.state ((role i).refl _) h.inv _ _ hserve
    refine ⟨⟨h.apart, hinv, fun j => ?_⟩, (role i).own_later hown⟩
    show Meets serve (role j) (Function.update system.task i _ j) _ (Q j)
    by_cases hj : j = i
    · subst hj
      rw [Function.update_self]
      exact hnext
    · rw [Function.update_of_ne hj]
      exact (h.meets j).later (h.apart (Ne.symm hj) hown)

theorem Sound.reach (h : Sound serve role Q system) (hreach : Reach serve system system') :
    Sound serve role Q system' ∧ protocol.Later system.state system'.state := by
  induction hreach with
  | refl => exact ⟨h, protocol.refl _⟩
  | tail _ hstep ih =>
    obtain ⟨hsound, hlater⟩ := ih
    obtain ⟨hsound', hlater'⟩ := hsound.step hstep
    exact ⟨hsound', protocol.trans hlater hlater'⟩

variable {answer : σ → (r : ρ) → ans r × σ}

variable (hserve : ∀ s r, serve s r (answer s r).1 (answer s r).2)
include hserve

/-- One of the programs runs to its end while the others wait. -/
theorem Reach.run (system : Shared ans σ α) (i : ι) :
    Reach serve system ⟨((system.task i).run answer system.state).2,
      Function.update system.task i (.done ((system.task i).run answer system.state).1)⟩ := by
  have general : ∀ (p : Task ans (α i)) (system : Shared ans σ α), system.task i = p →
      Reach serve system ⟨(p.run answer system.state).2,
        Function.update system.task i (.done (p.run answer system.state).1)⟩ := by
    intro p
    induction p with
    | done a =>
      intro system htask
      have hsame : Function.update system.task i (.done a) = system.task := by
        rw [← htask]
        exact Function.update_eq_self i system.task
      show Reach serve system ⟨system.state, Function.update system.task i (.done a)⟩
      rw [hsame]
      exact Relation.ReflTransGen.refl
    | ask r next ih =>
      intro system htask
      have hstep := Step.ask i htask (hserve system.state r)
      have hrest := ih (answer system.state r).1
        ⟨(answer system.state r).2, Function.update system.task i (next (answer system.state r).1)⟩
        (Function.update_self i _ _)
      rw [Function.update_idem] at hrest
      exact Relation.ReflTransGen.head hstep hrest
  exact general _ system rfl

/-- The system after the program `i` ran to its end. -/
def after (answer : σ → (r : ρ) → ans r × σ) (system : Shared ans σ α) (i : ι) : Shared ans σ α :=
  ⟨((system.task i).run answer system.state).2,
    Function.update system.task i (.done ((system.task i).run answer system.state).1)⟩

theorem reach_after (system : Shared ans σ α) (i : ι) :
    Reach serve system (system.after answer i) :=
  Reach.run hserve system i

/-- The system after the program `i` made its next `n` requests. -/
def turn (answer : σ → (r : ρ) → ans r × σ) (n : ℕ) (system : Shared ans σ α) (i : ι) : Shared ans σ α :=
  ⟨((system.task i).runFor answer n system.state).2,
    Function.update system.task i ((system.task i).runFor answer n system.state).1⟩

theorem reach_turn (i : ι) (n : ℕ) :
    ∀ system : Shared ans σ α, Reach serve system (system.turn answer n i) := by
  induction n with
  | zero =>
    intro system
    unfold turn
    rw [Task.runFor, Function.update_eq_self]
    exact Relation.ReflTransGen.refl
  | succ n ih =>
    intro system
    unfold turn
    cases htask : system.task i with
    | done a =>
      rw [Task.runFor, ← htask, Function.update_eq_self]
      exact Relation.ReflTransGen.refl
    | ask r next =>
      have hrest := ih ⟨(answer system.state r).2,
        Function.update system.task i (next (answer system.state r).1)⟩
      simp only [turn, Function.update_self, Function.update_idem] at hrest
      exact Relation.ReflTransGen.head (Step.ask i htask (hserve system.state r)) hrest

omit hserve

omit [DecidableEq ι] in
theorem Sound.result (h : Sound serve role Q system) {i : ι} {a : α i}
    (hdone : system.task i = .done a) : Q i a system.state := by
  have hi := h.meets i
  rw [hdone] at hi
  exact hi system.state ((role i).refl _) h.inv

end Shared

end Ironclaw
