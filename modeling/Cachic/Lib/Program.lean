import Mathlib.Tactic

/-!
# Programs over atomic actions

A task of a concurrent service is sequential code that now and then touches
something outside itself: shared memory, a database, the network.  `Prog A R α`
is that code with the outside left open.  A program either has returned, or it
performs one action `a : A` and continues with whatever answer `R a` the outside
gives.  Everything between two actions is ordinary pure Lean, so a translation
into `Prog` reads like the code it comes from, while the places where another
task can run in between are exactly the `act` nodes.

The same program has two sequential readings here.

* `Prog.run` resolves every open choice by a strategy, and is a total function
  into `Option`: `none` is a task that blocks for ever.
* `Prog.Runs` is the relational reading, every choice left open, with the trace
  of the actions performed.

The concurrent reading, a pool of programs over one shared state, is
`Cachic.Lib.Interleaving`.
-/

namespace ActionLang

/-- Code that has returned, or performs one action and continues with its
answer. -/
inductive Prog (A : Type) (R : A → Type) (α : Type) : Type
  | ret (value : α)
  | act (a : A) (next : R a → Prog A R α)

/-- An action together with the answer it was given. -/
abbrev Event (A : Type) (R : A → Type) := (a : A) × R a

variable {A : Type} {R : A → Type} {S C α β : Type}

namespace Prog

/-- Sequencing: graft `f` onto every leaf. -/
def bind : Prog A R α → (α → Prog A R β) → Prog A R β
  | ret value, f => f value
  | act a next, f => act a fun r => (next r).bind f

instance : Monad (Prog A R) where
  pure := ret
  bind := bind

/-- A single action, returning its answer. -/
def perform (a : A) : Prog A R (R a) := act a ret

@[simp] theorem pure_eq_ret (value : α) : (pure value : Prog A R α) = ret value := rfl

@[simp] theorem ret_bind (value : α) (f : α → Prog A R β) :
    (ret value >>= f) = f value := rfl

@[simp] theorem act_bind (a : A) (next : R a → Prog A R α) (f : α → Prog A R β) :
    (act a next >>= f) = act a fun r => next r >>= f := rfl

@[simp] theorem perform_bind (a : A) (f : R a → Prog A R β) :
    (perform a >>= f) = act a f := rfl

theorem bind_assoc {γ : Type} (p : Prog A R α) (f : α → Prog A R β) (g : β → Prog A R γ) :
    (p >>= f >>= g) = (p >>= fun value => f value >>= g) := by
  induction p with
  | ret value => rfl
  | act a next ih =>
      show act a _ = act a _
      congr 1
      funext r
      exact ih r

/-! ## The actions a program can perform -/

/-- Every action the program can come to perform satisfies `P`. -/
def All (P : A → Prop) : Prog A R α → Prop
  | ret _ => True
  | act a next => P a ∧ ∀ r, (next r).All P

@[simp] theorem all_ret (P : A → Prop) (value : α) : (ret value : Prog A R α).All P := trivial

variable {P : A → Prop} {p : Prog A R α} {f : α → Prog A R β}

@[simp] theorem all_perform {a : A} :
    (perform a : Prog A R (R a)).All P ↔ P a := ⟨fun h => h.1, fun h => ⟨h, fun _ => trivial⟩⟩

theorem All.perform_bind {a : A} {next : R a → Prog A R α} (ha : P a)
    (hnext : ∀ r, (next r).All P) : (perform a >>= next).All P := ⟨ha, hnext⟩

theorem All.of_forall (h : ∀ a, P a) (p : Prog A R α) : p.All P := by
  induction p with
  | ret value => trivial
  | act a next ih => exact ⟨h a, ih⟩

theorem All.imp {P' : A → Prop} (hp : p.All P) (h : ∀ a, P a → P' a) :
    p.All P' := by
  induction p with
  | ret value => trivial
  | act a next ih => exact ⟨h a hp.1, fun r => ih r (hp.2 r)⟩

theorem All.bind (hp : p.All P) (hf : ∀ value, (f value).All P) : (p >>= f).All P := by
  induction p with
  | ret value => exact hf value
  | act a next ih => exact ⟨hp.1, fun r => ih r (hp.2 r)⟩

/-- Every value the program can come to return satisfies `Q`. -/
def Returns (Q : α → Prop) : Prog A R α → Prop
  | ret value => Q value
  | act _ next => ∀ r, (next r).Returns Q

/-- What follows a program decides what it returns. -/
theorem Returns.bind {Q : β → Prop} (p : Prog A R α) (hf : ∀ value, (f value).Returns Q) :
    (p >>= f).Returns Q := by
  induction p with
  | ret value => exact hf value
  | act a next ih => exact fun r => ih r

/-- Sequencing, where what follows is only given the values returned. -/
theorem Returns.bind_of_returns {Q : α → Prop} {Q' : β → Prop} (hp : p.Returns Q)
    (hf : ∀ value, Q value → (f value).Returns Q') :
    (p >>= f).Returns Q' := by
  induction p with
  | ret value => exact hf value hp
  | act a next ih => exact fun r => ih r (hp r)

/-- The same for a program that is only given answers satisfying `L`. -/
def Within (P : A → Prop) (L : (a : A) → R a → Prop) : Prog A R α → Prop
  | ret _ => True
  | act a next => P a ∧ ∀ r, L a r → (next r).Within P L

section Within

variable {P : A → Prop} {L : (a : A) → R a → Prop}

theorem Within.perform_bind {a : A} {next : R a → Prog A R α} (ha : P a)
    (hnext : ∀ r, L a r → (next r).Within P L) : (perform a >>= next).Within P L := ⟨ha, hnext⟩

theorem Within.bind {p : Prog A R α} {f : α → Prog A R β} (hp : p.Within P L)
    (hf : ∀ value, (f value).Within P L) : (p >>= f).Within P L := by
  induction p with
  | ret value => exact hf value
  | act a next ih => exact ⟨hp.1, fun r hr => ih r (hp.2 r hr)⟩

theorem All.within {P' : A → Prop} {p : Prog A R α} (hp : p.All P') (h : ∀ a, P' a → P a) :
    p.Within P L := by
  induction p with
  | ret value => trivial
  | act a next ih => exact ⟨h a hp.1, fun r _ => ih r (hp.2 r)⟩

end Within

/-! ## Running against a strategy -/

section Run

variable (exec : (a : A) → C → S → Option (R a × S))

/-- Run to completion, resolving every choice by `choose`.  `none` is a program
that reached an action `exec` does not enable. -/
def run (choose : (a : A) → S → C) : Prog A R α → S → Option (α × S)
  | ret value, s => some (value, s)
  | act a next, s =>
      (exec a (choose a s) s).bind fun p => (next p.1).run choose p.2

variable {choose : (a : A) → S → C}

@[simp] theorem run_ret (value : α) (s : S) :
    (ret value : Prog A R α).run exec choose s = some (value, s) := rfl

theorem run_act (a : A) (next : R a → Prog A R α) (s : S) :
    (act a next).run exec choose s =
      (exec a (choose a s) s).bind fun p => (next p.1).run exec choose p.2 := rfl

/-- Running a sequence is running its two halves in order. -/
theorem run_bind (p : Prog A R α) (f : α → Prog A R β) (s : S) :
    (p >>= f).run exec choose s =
      (p.run exec choose s).bind fun q => (f q.1).run exec choose q.2 := by
  induction p generalizing s with
  | ret value => rfl
  | act a next ih =>
      rw [act_bind, run_act, run_act]
      cases exec a (choose a s) s with
      | none => rfl
      | some q => exact ih q.1 q.2

/-- A sequence whose first half is known to finish continues from there. -/
theorem run_bind_of_eq {p : Prog A R α} {s s' : S} {value : α}
    (h : p.run exec choose s = some (value, s')) (f : α → Prog A R β) :
    (p >>= f).run exec choose s = (f value).run exec choose s' := by
  rw [run_bind, h]
  rfl

/-- One enabled action continues with its answer. -/
theorem run_act_of_eq {a : A} {s s' : S} {r : R a}
    (h : exec a (choose a s) s = some (r, s')) (next : R a → Prog A R α) :
    (act a next).run exec choose s = (next r).run exec choose s' := by
  rw [run_act, h]
  rfl

theorem run_perform_bind_of_eq {a : A} {s s' : S} {r : R a}
    (h : exec a (choose a s) s = some (r, s')) (next : R a → Prog A R α) :
    (perform a >>= next).run exec choose s = (next r).run exec choose s' :=
  run_act_of_eq exec h next

/-! ### Two programs a strategy cannot tell apart -/

/-- From every state the two programs end alike. -/
def Alike (choose : (a : A) → S → C) (p q : Prog A R α) : Prop :=
  ∀ s, p.run exec choose s = q.run exec choose s

variable {exec}

theorem Alike.refl (p : Prog A R α) : Alike exec choose p p := fun _ => rfl

theorem Alike.bind {p q : Prog A R α} {f g : α → Prog A R β} (hp : Alike exec choose p q)
    (hf : ∀ value, Alike exec choose (f value) (g value)) :
    Alike exec choose (p >>= f) (q >>= g) := by
  intro s
  rw [run_bind, run_bind, hp s]
  cases q.run exec choose s with
  | none => rfl
  | some r => exact hf r.1 r.2

theorem Alike.perform_bind {a : A} {f g : R a → Prog A R α}
    (hf : ∀ r, Alike exec choose (f r) (g r)) :
    Alike exec choose (perform a >>= f) (perform a >>= g) := (Alike.refl _).bind hf

end Run

/-! ## Running with every choice open -/

section Runs

variable (exec : (a : A) → C → S → Option (R a × S))

/-- `Runs exec p s trace value s'`: from `s` the program can finish in `s'`
with `value`, having performed exactly `trace`, oldest action first. -/
inductive Runs : Prog A R α → S → List (Event A R) → α → S → Prop
  | ret (value : α) (s : S) : Runs (ret value) s [] value s
  | act {a : A} {next : R a → Prog A R α} {choice : C} {s s₁ s' : S} {r : R a}
      {trace : List (Event A R)} {value : α} :
      exec a choice s = some (r, s₁) → Runs (next r) s₁ trace value s' →
      Runs (act a next) s (⟨a, r⟩ :: trace) value s'

variable {exec}

variable {p : Prog A R α} {s' s : S} {value : α} {trace : List (Event A R)} {a : A}
  {f : α → Prog A R β}

theorem runs_ret_iff {value' : α} :
    Runs exec (ret value : Prog A R α) s trace value' s' ↔
      trace = [] ∧ value' = value ∧ s' = s := by
  constructor
  · rintro ⟨⟩
    exact ⟨rfl, rfl, rfl⟩
  · rintro ⟨rfl, rfl, rfl⟩
    exact .ret _ _

/-- A program that has returned is run to what it returned. -/
theorem Runs.eq_of_ret {value' : α}
    (hrun : Runs exec (Prog.ret value : Prog A R α) s trace value' s') : value' = value :=
  (runs_ret_iff.mp hrun).2.1

theorem runs_act_iff {next : R a → Prog A R α} :
    Runs exec (act a next) s trace value s' ↔
      ∃ choice r s₁ rest, exec a choice s = some (r, s₁) ∧
        trace = ⟨a, r⟩ :: rest ∧ Runs exec (next r) s₁ rest value s' := by
  constructor
  · intro h
    cases h with
    | act hexec hrest => exact ⟨_, _, _, _, hexec, rfl, hrest⟩
  · rintro ⟨choice, r, s₁, rest, hexec, rfl, hrest⟩
    exact .act hexec hrest

theorem runs_perform_bind_iff {next : R a → Prog A R α} :
    Runs exec (perform a >>= next) s trace value s' ↔
      ∃ choice r s₁ rest, exec a choice s = some (r, s₁) ∧
        trace = ⟨a, r⟩ :: rest ∧ Runs exec (next r) s₁ rest value s' := runs_act_iff

/-- A run of a sequence splits at the point where the first half returned. -/
theorem runs_bind_iff {value : β} :
    Runs exec (p >>= f) s trace value s' ↔
      ∃ mid s₁ tr₁ tr₂, trace = tr₁ ++ tr₂ ∧ Runs exec p s tr₁ mid s₁ ∧
        Runs exec (f mid) s₁ tr₂ value s' := by
  induction p generalizing s trace with
  | ret v =>
      constructor
      · intro h
        exact ⟨v, s, [], trace, rfl, .ret v s, h⟩
      · rintro ⟨mid, s₁, tr₁, tr₂, rfl, hp, hf⟩
        obtain ⟨rfl, rfl, rfl⟩ := runs_ret_iff.mp hp
        exact hf
  | act a next ih =>
      rw [act_bind, runs_act_iff]
      constructor
      · rintro ⟨choice, r, s₁, rest, hexec, rfl, hrest⟩
        obtain ⟨mid, s₂, tr₁, tr₂, rfl, hp, hf⟩ := (ih r).mp hrest
        exact ⟨mid, s₂, ⟨a, r⟩ :: tr₁, tr₂, rfl, .act hexec hp, hf⟩
      · rintro ⟨mid, s₂, tr₁, tr₂, rfl, hp, hf⟩
        obtain ⟨choice, r, s₁, rest, hexec, rfl, hrest⟩ := runs_act_iff.mp hp
        exact ⟨choice, r, s₁, rest ++ tr₂, hexec, rfl,
          (ih r).mpr ⟨mid, s₂, rest, tr₂, rfl, hrest, hf⟩⟩

/-- A run performs no action but those its program can. -/
theorem All.of_mem {P : A → Prop} (hp : p.All P) (hrun : Runs exec p s trace value s')
    {e : Event A R} (he : e ∈ trace) :
    P e.1 := by
  induction hrun with
  | ret value s => cases he
  | act hexec hrest ih =>
      rcases List.mem_cons.mp he with rfl | he
      · exact hp.1
      · exact ih (hp.2 _) he

/-- What a strategy computes is one of the open runs. -/
theorem runs_of_run {choose : (a : A) → S → C} (h : p.run exec choose s = some (value, s')) :
    ∃ trace, Runs exec p s trace value s' := by
  induction p generalizing s with
  | ret v =>
      obtain ⟨rfl, rfl⟩ : v = value ∧ s = s' := by simpa using h
      exact ⟨[], .ret _ _⟩
  | act a next ih =>
      rw [run_act, Option.bind_eq_some_iff] at h
      obtain ⟨⟨r, s₁⟩, hexec, hrest⟩ := h
      obtain ⟨trace, htrace⟩ := ih r hrest
      exact ⟨⟨a, r⟩ :: trace, .act hexec htrace⟩

/-! ### Triples

Partial-correctness triples over the open runs, with the usual rules.  The
postcondition sees the state the run ends in and the value it returns. -/

variable (exec)

/-- Every run from a state satisfying `P` ends in one satisfying `Q`. -/
def Triple (P : S → Prop) (p : Prog A R α) (Q : α → S → Prop) : Prop :=
  ∀ s trace value s', P s → Runs exec p s trace value s' → Q value s'

variable {exec} {P P' : S → Prop} {Q Q' : α → S → Prop}

theorem Triple.ret (h : ∀ s, P s → Q value s) :
    Triple exec P (ret value) Q := by
  intro s trace v s' hP hrun
  obtain ⟨-, rfl, rfl⟩ := runs_ret_iff.mp hrun
  exact h _ hP

theorem Triple.act {next : R a → Prog A R α} (M : R a → S → Prop)
    (ha : ∀ s choice r s₁, P s → exec a choice s = some (r, s₁) → M r s₁)
    (hnext : ∀ r, Triple exec (M r) (next r) Q) :
    Triple exec P (act a next) Q := by
  intro s trace v s' hP hrun
  obtain ⟨choice, r, s₁, rest, hexec, rfl, hrest⟩ := runs_act_iff.mp hrun
  exact hnext r s₁ rest v s' (ha s choice r s₁ hP hexec) hrest

theorem Triple.perform_bind {next : R a → Prog A R α} (M : R a → S → Prop)
    (ha : ∀ s choice r s₁, P s → exec a choice s = some (r, s₁) → M r s₁)
    (hnext : ∀ r, Triple exec (M r) (next r) Q) :
    Triple exec P (perform a >>= next) Q := .act M ha hnext

theorem Triple.bind {Q : β → S → Prop} (M : α → S → Prop) (hp : Triple exec P p M)
    (hf : ∀ v, Triple exec (M v) (f v) Q) : Triple exec P (p >>= f) Q := by
  intro s trace v s' hP hrun
  obtain ⟨mid, s₁, tr₁, tr₂, rfl, hrunp, hrunf⟩ := runs_bind_iff.mp hrun
  exact hf mid s₁ tr₂ v s' (hp s tr₁ mid s₁ hP hrunp) hrunf

theorem Triple.conseq (h : Triple exec P p Q) (hP : ∀ s, P' s → P s) (hQ : ∀ v s, Q v s → Q' v s) :
    Triple exec P' p Q' :=
  fun s trace v s' hs hrun => hQ v s' (h s trace v s' (hP s hs) hrun)

/-- What no action of a program changes, the program does not change. -/
theorem Triple.within {N : A → Prop} {L : (a : A) → R a → Prop} (hp : p.Within N L)
    (hN : ∀ a choice s r s₁, N a → P s → exec a choice s = some (r, s₁) → P s₁ ∧ L a r) :
    Triple exec P p fun _ => P := by
  induction p with
  | ret value => exact .ret fun _ hs => hs
  | act a next ih =>
      intro s trace value s' hs hrun
      obtain ⟨choice, r, s₁, rest, hexec, -, hrest⟩ := runs_act_iff.mp hrun
      obtain ⟨hs₁, hlearn⟩ := hN a choice s r s₁ hp.1 hs hexec
      exact ih r (hp.2 r hlearn) s₁ rest value s' hs₁ hrest

theorem Triple.frame {N : A → Prop} (hp : p.All N)
    (hN : ∀ a choice s r s₁, N a → P s → exec a choice s = some (r, s₁) → P s₁) :
    Triple exec P p fun _ => P :=
  .within (L := fun _ _ => True) (hp.within fun _ h => h) fun a choice s r s₁ ha hs hexec =>
    ⟨hN a choice s r s₁ ha hs hexec, trivial⟩

/-! ### Programs that are sure to finish

A triple says nothing of a program that never gets an answer.  `Sure` adds that there is a run,
and is for code whose answers are settled, up to choices that make no difference. -/

variable (exec)

/-- The program can finish from `s`, and however it does, it is with `Q`. -/
structure Sure (p : Prog A R α) (s : S) (Q : α → S → Prop) : Prop where
  finishes : ∃ trace value s', Runs exec p s trace value s'
  every : ∀ {trace value s'}, Runs exec p s trace value s' → Q value s'

variable {exec} {s : S}

theorem Sure.ret (h : Q value s) : Sure exec (ret value) s Q where
  finishes := ⟨[], value, s, .ret value s⟩
  every := fun hrun => by
    obtain ⟨-, rfl, rfl⟩ := runs_ret_iff.mp hrun
    exact h

theorem Sure.bind {Q : β → S → Prop} {M : α → S → Prop} (hp : Sure exec p s M)
    (hf : ∀ value s₁, M value s₁ → Sure exec (f value) s₁ Q) :
    Sure exec (p >>= f) s Q where
  finishes := by
    obtain ⟨tr₁, mid, s₁, hrun₁⟩ := hp.finishes
    obtain ⟨tr₂, value, s', hrun₂⟩ := (hf mid s₁ (hp.every hrun₁)).finishes
    exact ⟨tr₁ ++ tr₂, value, s', runs_bind_iff.mpr ⟨mid, s₁, tr₁, tr₂, rfl, hrun₁, hrun₂⟩⟩
  every := fun hrun => by
    obtain ⟨mid, s₁, tr₁, tr₂, -, hrun₁, hrun₂⟩ := runs_bind_iff.mp hrun
    exact (hf mid s₁ (hp.every hrun₁)).every hrun₂

/-- An action that some choice answers, continued however it is answered. -/
theorem Sure.perform_bind {next : R a → Prog A R α}
    (henabled : ∃ choice, (exec a choice s).isSome)
    (hnext : ∀ choice r s₁, exec a choice s = some (r, s₁) → Sure exec (next r) s₁ Q) :
    Sure exec (perform a >>= next) s Q where
  finishes := by
    obtain ⟨choice, hsome⟩ := henabled
    obtain ⟨⟨r, s₁⟩, hexec⟩ := Option.isSome_iff_exists.mp hsome
    obtain ⟨trace, value, s', hrun⟩ := (hnext choice r s₁ hexec).finishes
    exact ⟨⟨a, r⟩ :: trace, value, s', .act hexec hrun⟩
  every := fun hrun => by
    obtain ⟨choice, r, s₁, rest, hexec, -, hrest⟩ := runs_perform_bind_iff.mp hrun
    exact (hnext choice r s₁ hexec).every hrest

theorem Sure.imp (hp : Sure exec p s Q) (h : ∀ value s', Q value s' → Q' value s') :
    Sure exec p s Q' :=
  ⟨hp.finishes, fun hrun => h _ _ (hp.every hrun)⟩

/-! ### Some choices ruled out -/

/-- The same actions, answered only by the choices of `ok`. -/
def restrict (ok : C → Bool) (exec : (a : A) → C → S → Option (R a × S)) (a : A) (choice : C)
    (s : S) : Option (R a × S) :=
  if ok choice then exec a choice s else none

theorem restrict_eq_some_iff {ok : C → Bool} {choice : C} {r : R a × S} :
    restrict ok exec a choice s = some r ↔ ok choice = true ∧ exec a choice s = some r := by
  unfold restrict
  split
  case isTrue hok => simp [hok]
  case isFalse hok => simp [hok]

/-- A run with fewer choices is a run. -/
theorem Runs.of_restrict {ok : C → Bool} (hrun : Runs (restrict ok exec) p s trace value s') :
    Runs exec p s trace value s' := by
  induction hrun with
  | ret value s => exact .ret value s
  | act hexec hrest ih => exact .act (restrict_eq_some_iff.mp hexec).2 ih

theorem restrict_of_ok {ok : C → Bool} {choice : C} (hok : ok choice = true) (a : A) :
    restrict ok exec a choice s = exec a choice s := if_pos hok

/-! ### Operations one after another -/

variable (exec)

/-- Operations run to completion one after another, each under a condition on the
states before and after it. -/
inductive Sequence {O : Type} (task : O → Prog A R Unit) (C : S → O → S → Prop) :
    S → List O → S → Prop
  | nil (s : S) : Sequence task C s [] s
  | cons {s s₁ s' : S} {op : O} {ops : List O} {trace : List (Event A R)} :
      Runs exec (task op) s trace () s₁ → C s op s₁ → Sequence task C s₁ ops s' →
      Sequence task C s (op :: ops) s'

variable {exec}

/-- What each operation keeps, every sequence keeps. -/
theorem Sequence.induct {O : Type} {task : O → Prog A R Unit} {C : S → O → S → Prop}
    {I : S → Prop} {ops : List O} (hseq : Sequence exec task C s ops s')
    (hstep : ∀ op ∈ ops, ∀ s trace s₁, I s → Runs exec (task op) s trace () s₁ → C s op s₁ → I s₁)
    (hs : I s) : I s' := by
  induction hseq with
  | nil s => exact hs
  | cons hrun hC _ ih =>
      exact ih (fun op hop => hstep op (List.mem_cons_of_mem _ hop))
        (hstep _ List.mem_cons_self _ _ _ hs hrun hC)

/-- A run of a discarded result is a run of the program. -/
theorem runs_discard (h : Runs exec (do let _ ← p) s trace () s') :
    ∃ trace value, Runs exec p s trace value s' := by
  obtain ⟨value, s₁, tr₁, tr₂, -, hp, hret⟩ := runs_bind_iff.mp h
  obtain ⟨-, -, rfl⟩ := runs_ret_iff.mp hret
  exact ⟨tr₁, value, hp⟩

end Runs

end Prog

end ActionLang
