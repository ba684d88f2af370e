import Cachic.Lib.Program

/-!
# Interleaved programs and the knowledge they share

A `Pool` is a shared state, the programs that run over it, and the history of
every action performed so far, newest first.  `Pool.sched` lets one chosen
program perform its next action; any schedule of any number of programs is a
sequence of such steps, so an invariant of `sched` is an invariant of every
interleaving.

The programs of a pool interfere with one another, so what a program may rely on
between two of its own actions has to survive the others' actions.  The one
thing no action can retract is the history.  A `Protocol` is built on that: its
assertions are predicates of the history that may only become *truer* as it
grows.

* `inv` ties the shared state to the history;
* `pre` is what a program must know before it may perform an action;
* `post` is what it learns from the answer;
* `admits` restricts the answers considered, so that an assumption on the
  outside world is an assumption on the events of the run.

`Protocol.wp` is the weakest precondition of a program in that logic, and
`Pool.Holds.sched` says that a pool all of whose programs have one keeps it,
whichever program moves.
-/

namespace ActionLang

variable {A : Type} {R : A → Type} {S C O α β : Type}

/-- A shared state, the history of the actions performed on it (newest first),
and the programs running over it. -/
structure Pool (A : Type) (R : A → Type) (S O : Type) where
  shared : S
  hist : List (Event A R)
  threads : List (Prog A R O)

namespace Pool

/-- What the programs that have returned have returned. -/
def results (pool : Pool A R S O) : List O :=
  pool.threads.filterMap fun
    | .ret value => some value
    | .act _ _ => none

theorem mem_results {pool : Pool A R S O} {value : O} :
    value ∈ pool.results ↔ Prog.ret value ∈ pool.threads := by
  unfold results
  rw [List.mem_filterMap]
  constructor
  · rintro ⟨thread, hmem, hthread⟩
    cases thread with
    | ret v =>
        obtain rfl : v = value := by simpa using hthread
        exact hmem
    | act a next => simp at hthread
  · intro hmem
    exact ⟨_, hmem, rfl⟩

/-- Start one more program. -/
def spawn (pool : Pool A R S O) (p : Prog A R O) : Pool A R S O :=
  { pool with threads := pool.threads ++ [p] }

/-- Let program `tid` perform its next action, under the given choice.  `none`
when there is no such program, when it has returned, or when its action is not
enabled. -/
def sched (exec : (a : A) → C → S → Option (R a × S)) (pool : Pool A R S O)
    (tid : ℕ) (choice : C) : Option (Pool A R S O) :=
  match pool.threads[tid]? with
  | some (.act a next) =>
      (exec a choice pool.shared).map fun p =>
        { shared := p.2
          hist := ⟨a, p.1⟩ :: pool.hist
          threads := pool.threads.set tid (next p.1) }
  | _ => none

/-- What one scheduled step can do, guards included. -/
theorem sched_eq_some_iff {exec : (a : A) → C → S → Option (R a × S)}
    {pool pool' : Pool A R S O} {tid : ℕ} {choice : C} :
    pool.sched exec tid choice = some pool' ↔
      ∃ a next r s', pool.threads[tid]? = some (.act a next) ∧
        exec a choice pool.shared = some (r, s') ∧
        pool' = { shared := s', hist := ⟨a, r⟩ :: pool.hist,
                  threads := pool.threads.set tid (next r) } := by
  unfold sched
  constructor
  · intro h
    split at h
    · rename_i a next hthread
      rw [Option.map_eq_some_iff] at h
      obtain ⟨⟨r, s'⟩, hexec, rfl⟩ := h
      exact ⟨a, next, r, s', hthread, hexec, rfl⟩
    · cases h
  · rintro ⟨a, next, r, s', hthread, hexec, rfl⟩
    rw [hthread]
    simp [hexec]

end Pool

/-- Assertions about the history of a pool, and what each action needs and
gives.  See the module comment. -/
structure Protocol (exec : (a : A) → C → S → Option (R a × S)) where
  /-- How the shared state is tied to the history. -/
  inv : List (Event A R) → S → Prop
  /-- What a program must know before it may perform an action. -/
  pre : List (Event A R) → A → Prop
  /-- What it learns from the answer. -/
  post : List (Event A R) → (a : A) → R a → Prop
  /-- The answers under consideration. -/
  admits : Event A R → Prop
  /-- Knowledge is not lost as the history grows. -/
  pre_mono : ∀ {h h' : List (Event A R)} {a : A}, h ⊆ h' → pre h a → pre h' a
  /-- An action performed with its precondition known keeps the invariant and
  establishes its postcondition. -/
  step : ∀ {h : List (Event A R)} {s s' : S} {a : A} {choice : C} {r : R a},
    inv h s → pre h a → admits ⟨a, r⟩ → exec a choice s = some (r, s') →
      inv (⟨a, r⟩ :: h) s' ∧ post (⟨a, r⟩ :: h) a r

namespace Protocol

variable {exec : (a : A) → C → S → Option (R a × S)} (P : Protocol exec)

/-- The weakest precondition of a program: each action's `pre` is known when the
action is reached, and the rest is safe in every later history in which the
action has been performed with that answer. -/
def wp : Prog A R α → (List (Event A R) → α → Prop) → List (Event A R) → Prop
  | .ret value, Q, h => Q h value
  | .act a next, Q, h =>
      P.pre h a ∧ ∀ h' r, h ⊆ h' → ⟨a, r⟩ ∈ h' → P.admits ⟨a, r⟩ →
        P.post h' a r → wp (next r) Q h'

/-- A postcondition that survives the growth of the history. -/
def Stable (Q : List (Event A R) → α → Prop) : Prop :=
  ∀ ⦃h h' : List (Event A R)⦄ ⦃value : α⦄, h ⊆ h' → Q h value → Q h' value

variable {P}

@[simp] theorem wp_ret (value : α) (Q : List (Event A R) → α → Prop)
    (h : List (Event A R)) : P.wp (.ret value) Q h ↔ Q h value := Iff.rfl

@[simp] theorem wp_pure (value : α) (Q : List (Event A R) → α → Prop)
    (h : List (Event A R)) : P.wp (pure value) Q h ↔ Q h value := Iff.rfl

theorem wp_act (a : A) (next : R a → Prog A R α)
    (Q : List (Event A R) → α → Prop) (h : List (Event A R)) :
    P.wp (.act a next) Q h ↔
      P.pre h a ∧ ∀ h' r, h ⊆ h' → ⟨a, r⟩ ∈ h' → P.admits ⟨a, r⟩ →
        P.post h' a r → P.wp (next r) Q h' := Iff.rfl

/-- The sequencing rule. -/
theorem wp_bind (p : Prog A R α) (f : α → Prog A R β)
    (Q : List (Event A R) → β → Prop) (h : List (Event A R)) :
    P.wp (p >>= f) Q h ↔ P.wp p (fun h' value => P.wp (f value) Q h') h := by
  induction p generalizing h with
  | ret value => rfl
  | act a next ih =>
      rw [Prog.act_bind, wp_act, wp_act]
      constructor
      · rintro ⟨hpre, hnext⟩
        exact ⟨hpre, fun h' r hsub hmem hadm hpost =>
          (ih r h').mp (hnext h' r hsub hmem hadm hpost)⟩
      · rintro ⟨hpre, hnext⟩
        exact ⟨hpre, fun h' r hsub hmem hadm hpost =>
          (ih r h').mpr (hnext h' r hsub hmem hadm hpost)⟩

variable {p : Prog A R α} {h : List (Event A R)}

/-- The consequence rule; the new postcondition may use that the history only
grew on the way. -/
theorem wp_conseq {Q Q' : List (Event A R) → α → Prop} (hp : P.wp p Q h)
    (hQ : ∀ h' value, h ⊆ h' → Q h' value → Q' h' value) : P.wp p Q' h := by
  induction p generalizing h with
  | ret value => exact hQ h value (List.Subset.refl h) hp
  | act a next ih =>
      obtain ⟨hpre, hnext⟩ := hp
      refine ⟨hpre, fun h' r hsub hmem hadm hpost =>
        ih r (hnext h' r hsub hmem hadm hpost) fun h'' value hsub' hval =>
          hQ h'' value (List.Subset.trans hsub hsub') hval⟩

/-- Sequencing, in the form proofs apply: a specification of the first half, and
the second half from there. -/
theorem wp_bind_of {f : α → Prog A R β} {M : List (Event A R) → α → Prop}
    {Q : List (Event A R) → β → Prop} (hp : P.wp p M h)
    (hf : ∀ h' value, h ⊆ h' → M h' value → P.wp (f value) Q h') :
    P.wp (p >>= f) Q h :=
  (wp_bind p f Q h).mpr (wp_conseq hp hf)

/-- One action at the head of a program. -/
theorem wp_perform_bind {a : A} {f : R a → Prog A R β} {Q : List (Event A R) → β → Prop}
    (hpre : P.pre h a)
    (hnext : ∀ h' r, h ⊆ h' → (⟨a, r⟩ : Event A R) ∈ h' → P.post h' a r → P.wp (f r) Q h') :
    P.wp (.perform a >>= f) Q h :=
  ⟨hpre, fun h' r hsub hmem _ hpost => hnext h' r hsub hmem hpost⟩

/-- A program whose actions need no knowledge is safe. -/
theorem wp_of_all (hp : p.All fun a => ∀ h, P.pre h a) (h : List (Event A R)) :
    P.wp p (fun _ _ => True) h := by
  induction p generalizing h with
  | ret value => trivial
  | act a next ih => exact ⟨hp.1 h, fun h' r _ _ _ _ => ih r (hp.2 r) h'⟩

/-- It returns what it can. -/
theorem wp_of_all_returns {Q : α → Prop} (hp : p.All fun a => ∀ h, P.pre h a) (hret : p.Returns Q)
    (h : List (Event A R)) : P.wp p (fun _ value => Q value) h := by
  induction p generalizing h with
  | ret value => exact hret
  | act a next ih => exact ⟨hp.1 h, fun h' r _ _ _ _ => ih r (hp.2 r) (hret r) h'⟩

/-- A program that was safe stays safe as the history grows under it. -/
theorem wp_mono {Q : List (Event A R) → α → Prop} (hQ : Stable Q) {h' : List (Event A R)}
    (hsub : h ⊆ h') (hp : P.wp p Q h) : P.wp p Q h' := by
  cases p with
  | ret value => exact hQ hsub hp
  | act a next =>
      obtain ⟨hpre, hnext⟩ := hp
      exact ⟨P.pre_mono hsub hpre, fun h'' r hsub' hmem hadm hpost =>
        hnext h'' r (List.Subset.trans hsub hsub') hmem hadm hpost⟩

end Protocol

namespace Pool

variable {exec : (a : A) → C → S → Option (R a × S)} {P : Protocol exec}
variable {Q : List (Event A R) → O → Prop}

/-- The state of a pool that follows the protocol: the invariant holds, and
every program, wherever it stands, is safe for the postcondition `Q`. -/
structure Holds (P : Protocol exec) (Q : List (Event A R) → O → Prop)
    (pool : Pool A R S O) : Prop where
  inv : P.inv pool.hist pool.shared
  safe : ∀ thread ∈ pool.threads, P.wp thread Q pool.hist

/-- Whatever has been returned satisfies the postcondition. -/
theorem Holds.result {pool : Pool A R S O} (hpool : pool.Holds P Q) {value : O}
    (hmem : value ∈ pool.results) : Q pool.hist value :=
  hpool.safe _ (mem_results.mp hmem)

/-- **One scheduled step, of whichever program, keeps the protocol**, as long as
the answer it got is among those considered. -/
theorem Holds.sched {pool pool' : Pool A R S O} {tid : ℕ} {choice : C}
    (hQ : Protocol.Stable Q) (hpool : pool.Holds P Q)
    (hstep : pool.sched exec tid choice = some pool')
    (hadm : ∀ e ∈ pool'.hist, P.admits e) : pool'.Holds P Q := by
  obtain ⟨a, next, r, s', hthread, hexec, rfl⟩ := sched_eq_some_iff.mp hstep
  have hwp := hpool.safe _ (List.mem_of_getElem? hthread)
  have hnew : P.admits ⟨a, r⟩ := hadm _ List.mem_cons_self
  obtain ⟨hinv, hpost⟩ := P.step hpool.inv hwp.1 hnew hexec
  refine ⟨hinv, fun thread hmem => ?_⟩
  -- the thread that moved continues from the answer; the others only see the
  -- history grow by one event
  rcases List.mem_or_eq_of_mem_set hmem with hold | rfl
  · exact Protocol.wp_mono hQ (List.subset_cons_self _ _) (hpool.safe _ hold)
  · exact hwp.2 _ r (List.subset_cons_self _ _) List.mem_cons_self hnew hpost

/-- Starting a program that is safe in the current history keeps the
protocol. -/
theorem Holds.spawn {pool : Pool A R S O} {p : Prog A R O}
    (hpool : pool.Holds P Q) (hp : P.wp p Q pool.hist) :
    (pool.spawn p).Holds P Q := by
  refine ⟨hpool.inv, fun thread hmem => ?_⟩
  rcases List.mem_append.mp hmem with hold | hnew
  · exact hpool.safe _ hold
  · obtain rfl := List.mem_singleton.mp hnew
    exact hp

/-- A change of the shared state from outside keeps the protocol when it keeps
the invariant: no program's safety mentions the state. -/
theorem Holds.outside {pool : Pool A R S O} {s' : S}
    (hpool : pool.Holds P Q) (hinv : P.inv pool.hist s') :
    ({ pool with shared := s' } : Pool A R S O).Holds P Q :=
  ⟨hinv, hpool.safe⟩

end Pool

end ActionLang
