import Mathlib.Tactic

/-!
# Threads with a state of their own

`Cachic.Lib.Interleaving` runs programs whose position is a continuation, which nothing can
look into.  Some protocols are about positions: how many threads are between two of their
steps, or which thread owns a resource.  For those a thread is a value of its own type `T`,
and a `Machine` says what a thread in a given position can do next.

A team is a shared state and a list of threads; a thread's identity is its place in the
list.  In one step a new thread starts or one thread moves, so an invariant of `step` is an
invariant of every interleaving.  Five ways to find one:

* `Machine.run_induct` for any predicate of the team, and `Machine.run_induct_past` where it is
  about the moments before as well;
* `Machine.Account` for a number in the shared state that counts the threads in some
  positions, and what one thread has done to it (`Machine.ownChange`);
* `Machine.Modular` for an invariant of the shared state together with an assertion for
  each thread, which its own moves establish and the others' moves do not disturb;
* `Machine.Register` for a list of thread ids in the shared state, which has to name exactly
  the threads in some positions;
* `Machine.Simulation` to take one over from a machine that does less.

`Machine.length_add_potential_le` bounds the length of a run, where every move uses up
something of its thread.
-/

namespace ThreadTeam

/-- A shared state and the threads over it. -/
structure Team (S T : Type) where
  shared : S
  threads : List T

/-- How threads start and move.  `move tid t c s` is the next step of thread `tid` in
position `t`, under the choice `c`; `none` is a thread that has to wait or has ended. -/
structure Machine (S T C : Type) where
  start : T → Bool
  move : ℕ → T → C → S → Option (T × S)

/-- One step of a team. -/
inductive Step (T C : Type)
  | spawn (t : T)
  | go (tid : ℕ) (choice : C)

/-- The thread that moves in a step. -/
def Step.mover {T C : Type} : Step T C → Option ℕ
  | .spawn _ => none
  | .go tid _ => some tid

namespace Machine

variable {S T C : Type} (m : Machine S T C)

def step (team : Team S T) : Step T C → Option (Team S T)
  | .spawn t => if m.start t then some { team with threads := team.threads ++ [t] } else none
  | .go tid choice =>
      match team.threads[tid]? with
      | none => none
      | some t => (m.move tid t choice team.shared).map fun r =>
          { shared := r.2, threads := team.threads.set tid r.1 }

/-- Any sequence of steps. -/
def run : Team S T → List (Step T C) → Option (Team S T)
  | team, [] => some team
  | team, st :: rest => (m.step team st).bind fun team' => run team' rest

variable {m} {team team' : Team S T}

variable {steps : List (Step T C)} {t t' : T} {tid : ℕ} {threads : List T} {I : S → Prop}
  {choice : C} {st : Step T C} {p : T → Bool}

theorem step_spawn_iff :
    m.step team (.spawn t) = some team' ↔
      m.start t = true ∧ team' = { team with threads := team.threads ++ [t] } := by
  simp only [step]
  split
  · next h => simp [h, eq_comm]
  · next h => simp [h]

/-- What a move can do, guards included. -/
theorem step_go_iff :
    m.step team (.go tid choice) = some team' ↔
      ∃ t t' s', team.threads[tid]? = some t ∧ m.move tid t choice team.shared = some (t', s') ∧
        team' = { shared := s', threads := team.threads.set tid t' } := by
  simp only [step]
  constructor
  · intro h
    split at h
    · cases h
    · next t ht =>
        rw [Option.map_eq_some_iff] at h
        obtain ⟨⟨t', s'⟩, hmove, rfl⟩ := h
        exact ⟨t, t', s', ht, hmove, rfl⟩
  · rintro ⟨t, t', s', ht, hmove, rfl⟩
    simp [ht, hmove]

/-- Where the mover is afterwards. -/
theorem eq_of_getElem?_set {u : T} (ht : threads[tid]? = some t)
    (hu : (threads.set tid t')[tid]? = some u) : t' = u := by
  obtain ⟨hlt, -⟩ := List.getElem?_eq_some_iff.mp ht
  rw [List.getElem?_set_self hlt] at hu
  exact Option.some.inj hu

/-- A thread in another position than the one that moved is where it was. -/
theorem mem_set_of_ne {u : T} (ht : threads[tid]? = some t) (hu : u ∈ threads) (hne : u ≠ t) :
    u ∈ threads.set tid t' := by
  obtain ⟨k, hk⟩ := List.getElem?_of_mem hu
  have hother : tid ≠ k := by
    rintro rfl
    exact hne (Option.some.inj (hk.symm.trans ht))
  exact List.mem_of_getElem? (by rw [List.getElem?_set_ne hother, hk])

theorem run_one (hstep : m.step team st = some team') :
    m.run team [st] = some team' := by
  simp [run, hstep]

/-- One enabled move is a run. -/
theorem run_go {s' : S} (ht : team.threads[tid]? = some t)
    (hmove : m.move tid t choice team.shared = some (t', s')) :
    m.run team [.go tid choice] = some { shared := s', threads := team.threads.set tid t' } :=
  run_one (step_go_iff.mpr ⟨t, t', s', ht, hmove, rfl⟩)

/-- A run that starts with a move of the thread started last. -/
theorem run_last {s s' : S} {rest : List (Step T C)}
    (hmove : m.move threads.length t choice s = some (t', s')) :
    m.run ⟨s, threads ++ [t]⟩ (.go threads.length choice :: rest) =
      m.run ⟨s', threads ++ [t']⟩ rest := by
  have hget : (threads ++ [t])[threads.length]? = some t := List.getElem?_concat_length
  have hset : (threads ++ [t]).set threads.length t' = threads ++ [t'] := by simp
  rw [run, step_go_iff.mpr ⟨t, t', s', hget, hmove, rfl⟩, Option.bind_some, hset]

theorem run_append (steps steps' : List (Step T C)) :
    m.run team (steps ++ steps') = (m.run team steps).bind fun mid => m.run mid steps' := by
  induction steps generalizing team with
  | nil => rfl
  | cons st rest ih =>
      rw [List.cons_append, run, run]
      cases m.step team st with
      | none => rfl
      | some next => exact ih

theorem run_append_of_eq {mid : Team S T} {r : Option (Team S T)} {steps' : List (Step T C)}
    (h : m.run team steps = some mid) (h' : m.run mid steps' = r) :
    m.run team (steps ++ steps') = r := by
  rw [run_append, h, Option.bind_some, h']

/-- Evaluate a run and test where it ends. -/
theorem exists_run (m : Machine S T C) (team : Team S T) (steps : List (Step T C))
    (P : Team S T → Prop) [DecidablePred P]
    (h : ((m.run team steps).map fun team' => decide (P team')) = some true) :
    ∃ team', m.run team steps = some team' ∧ P team' := by
  rw [Option.map_eq_some_iff] at h
  obtain ⟨team', hrun, hP⟩ := h
  exact ⟨team', hrun, of_decide_eq_true hP⟩

/-! ## Invariants -/

/-- What each step keeps, every run keeps. -/
theorem run_induct {I : Team S T → Prop}
    (hstep : ∀ team st team', I team → m.step team st = some team' → I team') (hteam : I team)
    (hrun : m.run team steps = some team') :
    I team' := by
  induction steps generalizing team with
  | nil =>
      obtain rfl : team = team' := by simpa [run] using hrun
      exact hteam
  | cons st rest ih =>
      rw [run, Option.bind_eq_some_iff] at hrun
      obtain ⟨next, hnext, hrest⟩ := hrun
      exact ih (hstep team st next hteam hnext) hrest

/-- At some moment of a run, its beginning and its end included. -/
def Sometime (m : Machine S T C) (P : Team S T → Prop) (team : Team S T) (steps : List (Step T C)) :
    Prop :=
  ∃ k mid, m.run team (steps.take k) = some mid ∧ P mid

theorem sometime_last {P : Team S T → Prop} (hrun : m.run team steps = some team') (h : P team') :
    m.Sometime P team steps :=
  ⟨steps.length, team', by rw [List.take_length, hrun], h⟩

theorem Sometime.append {P : Team S T → Prop} (h : m.Sometime P team steps)
    (more : List (Step T C)) : m.Sometime P team (steps ++ more) := by
  obtain ⟨k, mid, hrun, hP⟩ := h
  refine ⟨min k steps.length, mid, ?_, hP⟩
  rw [List.take_append_of_le_length (Nat.min_le_right _ _), ← List.take_take, List.take_length,
    hrun]

/-- An invariant of the run so far, and not only of where it has come to. -/
theorem run_induct_past {I : List (Step T C) → Team S T → Prop}
    (hstep : ∀ done now st next, m.run team done = some now → I done now →
      m.step now st = some next → I (done ++ [st]) next)
    (hteam : I [] team) (hrun : m.run team steps = some team') :
    I steps team' := by
  induction steps using List.reverseRecOn generalizing team' with
  | nil =>
      obtain rfl : team = team' := by simpa [run] using hrun
      exact hteam
  | append_singleton done st ih =>
      rw [run_append, Option.bind_eq_some_iff] at hrun
      obtain ⟨now, hnow, hlast⟩ := hrun
      rw [run, Option.bind_eq_some_iff] at hlast
      obtain ⟨next, hnext, hend⟩ := hlast
      obtain rfl : next = team' := by simpa [run] using hend
      exact hstep done now st next hnow (ih hnow) hnext

/-- Counting threads across a move: the mover leaves one position and takes another. -/
theorem countP_set (ht : threads[tid]? = some t) (t' : T) :
    (threads.set tid t').countP p + (if p t then 1 else 0) =
      threads.countP p + (if p t' then 1 else 0) := by
  obtain ⟨hlt, rfl⟩ := List.getElem?_eq_some_iff.mp ht
  rw [List.countP_set hlt]
  have hpos : p threads[tid] = true → 0 < threads.countP p :=
    fun h => List.countP_pos_iff.mpr ⟨_, List.getElem_mem hlt, h⟩
  split
  · next h =>
      have := hpos h
      omega
  · omega

/-- `A s n` says that the shared state accounts for `n` threads in the positions `p`, and
every move changes the account as it changes the mover's position. -/
structure Account (m : Machine S T C) (A : S → ℕ → Prop) (p : T → Bool) : Prop where
  start : ∀ {t}, m.start t = true → p t = false
  move : ∀ {tid t choice s t' s' n}, A s n → (p t = true → 0 < n) →
    m.move tid t choice s = some (t', s') →
    ∃ n', A s' n' ∧ n' + (if p t then 1 else 0) = n + (if p t' then 1 else 0)

/-- **The counting rule**: such an account is right in every run. -/
theorem Account.run {A : S → ℕ → Prop} (hA : m.Account A p)
    (hteam : A team.shared (team.threads.countP p)) (hrun : m.run team steps = some team') :
    A team'.shared (team'.threads.countP p) := by
  refine run_induct (I := fun team : Team S T => A team.shared (team.threads.countP p)) ?_
    hteam hrun
  intro now st next hnow hstep
  cases st with
  | spawn t =>
      obtain ⟨hs, rfl⟩ := step_spawn_iff.mp hstep
      show A now.shared ((now.threads ++ [t]).countP p)
      rw [List.countP_append, List.countP_singleton, hA.start hs]
      exact hnow
  | go tid choice =>
      obtain ⟨t, t', s', ht, hgo, rfl⟩ := step_go_iff.mp hstep
      have hpos : p t = true → 0 < now.threads.countP p :=
        fun h => List.countP_pos_iff.mpr ⟨t, List.mem_of_getElem? ht, h⟩
      obtain ⟨n', hn', hcount⟩ := hA.move hnow hpos hgo
      have hset := countP_set (p := p) ht t'
      obtain rfl : n' = (now.threads.set tid t').countP p := by omega
      exact hn'

/-- What the moves of thread `tid` alone have changed of `f`, over a run. -/
def ownChange (m : Machine S T C) (f : S → ℤ) (tid : ℕ) : Team S T → List (Step T C) → ℤ
  | _, [] => 0
  | team, st :: rest =>
      match m.step team st with
      | none => 0
      | some next =>
          (if st.mover = some tid then f next.shared - f team.shared else 0) +
            ownChange m f tid next rest

/-- **What a thread's moves change is what its position is worth.**  If each of its moves
changes `f` by the difference in worth of its positions, so does all it does in a run. -/
theorem ownChange_eq {I : Team S T → Prop} {f : S → ℤ} {g : T → ℤ}
    (hstep : ∀ {team st team'}, I team → m.step team st = some team' → I team')
    (hmove : ∀ {team t choice t' s'}, I team → team.threads[tid]? = some t →
      m.move tid t choice team.shared = some (t', s') → f s' - f team.shared = g t' - g t)
    (hteam : I team) (ht : team.threads[tid]? = some t) (hrun : m.run team steps = some team')
    (ht' : team'.threads[tid]? = some t') :
    m.ownChange f tid team steps = g t' - g t := by
  induction steps generalizing team t with
  | nil =>
      obtain rfl : team = team' := by simpa [run] using hrun
      obtain rfl : t = t' := Option.some.inj (ht.symm.trans ht')
      simp [ownChange]
  | cons st rest ih =>
      rw [run, Option.bind_eq_some_iff] at hrun
      obtain ⟨next, hnext, hrest⟩ := hrun
      have hlater := hstep hteam hnext
      simp only [ownChange, hnext]
      cases st with
      | spawn u =>
          obtain ⟨-, rfl⟩ := step_spawn_iff.mp hnext
          have hkept : (team.threads ++ [u])[tid]? = some t := by
            rw [List.getElem?_append_left (List.getElem?_eq_some_iff.mp ht).1]
            exact ht
          rw [if_neg nofun, zero_add]
          exact ih hlater hkept hrest
      | go mover choice =>
          obtain ⟨u, u', s', hu, hgo, rfl⟩ := step_go_iff.mp hnext
          by_cases hmine : mover = tid
          · subst hmine
            obtain rfl : t = u := Option.some.inj (ht.symm.trans hu)
            have hkept : (team.threads.set mover u')[mover]? = some u' := by
              rw [List.getElem?_set_self (List.getElem?_eq_some_iff.mp ht).1]
            have hown := hmove hteam ht hgo
            have hrest' := ih hlater hkept hrest
            simp only [Step.mover, if_true]
            omega
          · have hkept : (team.threads.set mover u')[tid]? = some t := by
              rw [List.getElem?_set_ne hmine]
              exact ht
            have hnot : (Step.go mover choice : Step T C).mover ≠ some tid :=
              fun h => hmine (Option.some.inj h)
            rw [if_neg hnot, zero_add]
            exact ih hlater hkept hrest

/-- Of what is accounted for, a thread's moves change what its position says. -/
theorem Account.ownChange {A : S → ℕ → Prop} {f : S → ℕ} (hA : m.Account A p)
    (hf : ∀ {s n}, A s n → f s = n) (hteam : A team.shared (team.threads.countP p))
    (ht : team.threads[tid]? = some t) (hrun : m.run team steps = some team')
    (ht' : team'.threads[tid]? = some t') :
    m.ownChange (fun s => f s) tid team steps =
      (if p t' then 1 else 0) - (if p t then 1 else 0) := by
  refine ownChange_eq (I := fun team : Team S T => A team.shared (team.threads.countP p))
    (g := fun t => if p t then 1 else 0) (fun h hstep => hA.run h (run_one hstep)) ?_ hteam ht
    hrun ht'
  intro now u choice u' s' hnow hu hmove
  obtain ⟨n', hn', hsum⟩ := hA.move hnow
    (fun h => List.countP_pos_iff.mpr ⟨u, List.mem_of_getElem? hu, h⟩) hmove
  rw [hf hn', hf hnow]
  zify at hsum
  linarith

/-- An invariant `I` of the shared state with an assertion `J` for each thread: a thread
starts with it, a move keeps the invariant and gives the mover its next assertion, and does
not disturb those of the others. -/
structure Modular (m : Machine S T C) (I : S → Prop) (J : S → ℕ → T → Prop) : Prop where
  start : ∀ {s tid t}, I s → m.start t = true → J s tid t
  own : ∀ {s s' tid t t' choice}, I s → J s tid t → m.move tid t choice s = some (t', s') →
    I s' ∧ J s' tid t'
  others : ∀ {s s' tid t t' choice other u}, I s → J s tid t →
    m.move tid t choice s = some (t', s') → other ≠ tid → J s other u → J s' other u

/-- The invariant and every thread's assertion. -/
structure Holds (I : S → Prop) (J : S → ℕ → T → Prop) (team : Team S T) : Prop where
  shared : I team.shared
  thread : ∀ {tid t}, team.threads[tid]? = some t → J team.shared tid t

theorem Modular.step {J : S → ℕ → T → Prop} (hm : m.Modular I J) (hteam : Holds I J team)
    (hstep : m.step team st = some team') :
    Holds I J team' := by
  cases st with
  | spawn t =>
      obtain ⟨hstart, rfl⟩ := step_spawn_iff.mp hstep
      refine ⟨hteam.shared, fun {tid u} hu => ?_⟩
      rw [List.getElem?_append] at hu
      split at hu
      · exact hteam.thread hu
      · obtain rfl : t = u := by
          have := List.mem_of_getElem? hu
          simpa [eq_comm] using this
        exact hm.start hteam.shared hstart
  | go tid choice =>
      obtain ⟨t, t', s', ht, hmove, rfl⟩ := step_go_iff.mp hstep
      have hown := hteam.thread ht
      obtain ⟨hshared, hnext⟩ := hm.own hteam.shared hown hmove
      refine ⟨hshared, fun {other u} hu => ?_⟩
      rw [List.getElem?_set] at hu
      split at hu
      · next heq =>
          subst heq
          split at hu
          · cases hu
            exact hnext
          · cases hu
      · next hne =>
          exact hm.others hteam.shared hown hmove (fun heq => hne heq.symm) (hteam.thread hu)

/-- **The thread-modular rule**: what is kept by each move in that sense is kept by every
run. -/
theorem Modular.run {J : S → ℕ → T → Prop} (hm : m.Modular I J) (hteam : Holds I J team)
    (hrun : m.run team steps = some team') :
    Holds I J team' :=
  run_induct (fun _ _ _ hteam hstep => hm.step hteam hstep) hteam hrun

/-- Nothing is asserted, so nothing is disturbed. -/
theorem Modular.trivial : m.Modular (fun _ => True) fun _ _ _ => True :=
  ⟨fun _ _ => True.intro, fun _ _ _ => ⟨True.intro, True.intro⟩, fun _ _ _ _ _ => True.intro⟩

/-- The shared state says something about each thread id: `entry s tid`, which has to be what
the thread's position says, and `blank` for an id no thread has. -/
structure Register {K : Type} (m : Machine S T C) (I : S → Prop) (entry : S → ℕ → K)
    (due : T → K) (blank : K) : Prop where
  start : ∀ {t}, m.start t = true → due t = blank
  own : ∀ {s s' tid t t' choice}, I s → entry s tid = due t →
    m.move tid t choice s = some (t', s') → I s' ∧ entry s' tid = due t'
  others : ∀ {s s' tid t t' choice other}, I s → entry s tid = due t →
    m.move tid t choice s = some (t', s') → other ≠ tid → entry s' other = entry s other

/-- The register is right about every id. -/
structure Registered {K : Type} (I : S → Prop) (entry : S → ℕ → K) (due : T → K) (blank : K)
    (team : Team S T) : Prop where
  shared : I team.shared
  entries : ∀ tid, entry team.shared tid = (team.threads[tid]?).elim blank due

theorem Register.step {K : Type} {entry : S → ℕ → K} {due : T → K} {blank : K}
    (hm : m.Register I entry due blank) (hteam : Registered I entry due blank team)
    (hstep : m.step team st = some team') :
    Registered I entry due blank team' := by
  cases st with
  | spawn t =>
      obtain ⟨hstart, rfl⟩ := step_spawn_iff.mp hstep
      refine ⟨hteam.shared, fun tid => (hteam.entries tid).trans ?_⟩
      show _ = ((team.threads ++ [t])[tid]?).elim blank due
      rcases lt_trichotomy tid team.threads.length with hold | rfl | hnew
      · rw [List.getElem?_append_left hold]
      · -- the id of the new thread was nobody's
        rw [List.getElem?_eq_none le_rfl, List.getElem?_concat_length]
        exact (hm.start hstart).symm
      · have hlen : (team.threads ++ [t]).length ≤ tid := by
          rw [List.length_append, List.length_singleton]
          exact hnew
        rw [List.getElem?_eq_none hnew.le, List.getElem?_eq_none hlen]
  | go tid choice =>
      obtain ⟨t, t', s', ht, hmove, rfl⟩ := step_go_iff.mp hstep
      have hentry : entry team.shared tid = due t := by rw [hteam.entries tid, ht]; rfl
      obtain ⟨hshared, hown⟩ := hm.own hteam.shared hentry hmove
      refine ⟨hshared, fun other => ?_⟩
      by_cases hsame : other = tid
      · subst hsame
        obtain ⟨hlt, -⟩ := List.getElem?_eq_some_iff.mp ht
        rw [List.getElem?_set_self hlt]
        exact hown
      · rw [List.getElem?_set_ne (Ne.symm hsame)]
        exact (hm.others hteam.shared hentry hmove hsame).trans (hteam.entries other)

/-- **The register rule**: what every move writes for its own thread, and for no other, is
right in every run. -/
theorem Register.run {K : Type} {entry : S → ℕ → K} {due : T → K} {blank : K}
    (hm : m.Register I entry due blank) (hteam : Registered I entry due blank team)
    (hrun : m.run team steps = some team') :
    Registered I entry due blank team' :=
  run_induct (fun _ _ _ hteam hstep => hm.step hteam hstep) hteam hrun

/-! ## Ledgers -/

/-- What the shared state has on its books is what the threads' positions say they have
paid in: each move books what it adds to its thread's share. -/
structure Ledger {M : Type} [AddCommMonoid M] (m : Machine S T C) (value : S → M)
    (due : T → M) : Prop where
  start : ∀ {t}, m.start t = true → due t = 0
  move : ∀ {tid t choice s t' s'}, m.move tid t choice s = some (t', s') →
    value s' + due t = value s + due t'

/-- Replacing one share in the sum of all. -/
theorem sum_map_set {M : Type} [AddCommMonoid M] (due : T → M) (ht : threads[tid]? = some t)
    (t' : T) :
    ((threads.set tid t').map due).sum + due t = (threads.map due).sum + due t' := by
  induction threads generalizing tid with
  | nil => simp at ht
  | cons u rest ih =>
      cases tid with
      | zero =>
          obtain rfl : u = t := by simpa using ht
          simp only [List.set_cons_zero, List.map_cons, List.sum_cons]
          abel
      | succ k =>
          have hrest := ih (by simpa using ht)
          simp only [List.set_cons_succ, List.map_cons, List.sum_cons]
          rw [add_assoc, hrest, add_assoc]

/-- **The books are right in every run.** -/
theorem Ledger.run {M : Type} [AddCancelCommMonoid M] {value : S → M} {due : T → M}
    (hm : m.Ledger value due) (hteam : value team.shared = (team.threads.map due).sum)
    (hrun : m.run team steps = some team') :
    value team'.shared = (team'.threads.map due).sum := by
  refine run_induct (I := fun team : Team S T => value team.shared = (team.threads.map due).sum)
    ?_ hteam hrun
  intro now st next hnow hstep
  cases st with
  | spawn t =>
      obtain ⟨hstart, rfl⟩ := step_spawn_iff.mp hstep
      simp [hnow, hm.start hstart]
  | go tid choice =>
      obtain ⟨t, t', s', ht, hmove, rfl⟩ := step_go_iff.mp hstep
      have hbooked := hm.move hmove
      have hshares := sum_map_set due ht t'
      rw [hnow, ← hshares] at hbooked
      exact add_right_cancel hbooked

/-! ## The length of a run -/

/-- What the threads still have to use up. -/
def potential (f : T → ℕ) (threads : List T) : ℕ := (threads.map f).sum

theorem potential_set {f : T → ℕ} (ht : threads[tid]? = some t) (t' : T) :
    potential f (threads.set tid t') + f t = potential f threads + f t' :=
  sum_map_set f ht t'

/-- A run that starts nobody is no longer than what its threads can use up. -/
theorem length_add_potential_le {f : T → ℕ}
    (hmove : ∀ {tid t choice s t' s'}, m.move tid t choice s = some (t', s') → f t' < f t)
    (hgo : ∀ st ∈ steps, st.mover ≠ none) (hrun : m.run team steps = some team') :
    steps.length + potential f team'.threads ≤ potential f team.threads := by
  induction steps generalizing team with
  | nil =>
      obtain rfl : team = team' := by simpa [run] using hrun
      simp
  | cons st rest ih =>
      rw [run, Option.bind_eq_some_iff] at hrun
      obtain ⟨next, hnext, hrest⟩ := hrun
      have hlater := ih (fun st' hst' => hgo st' (List.mem_cons_of_mem _ hst')) hrest
      cases st with
      | spawn t => exact absurd rfl (hgo _ List.mem_cons_self)
      | go tid choice =>
          obtain ⟨t, t', s', ht, hgo', rfl⟩ := step_go_iff.mp hnext
          have hset := potential_set (f := f) ht t'
          have hless := hmove hgo'
          rw [List.length_cons]
          dsimp only at hlater
          omega

/-! ## Simulation -/

variable {S' T' C' : Type} {m' : Machine S' T' C'}

/-- Where the invariant `I` and the assertions `J` hold, `m` does what `m'` does, as seen
through `shared` and `thread`, and sometimes nothing. -/
structure Simulation (m : Machine S T C) (m' : Machine S' T' C') (I : S → Prop)
    (J : S → ℕ → T → Prop) (shared : S → S') (thread : T → T') : Prop where
  start : ∀ {t}, m.start t = true → m'.start (thread t) = true
  move : ∀ {tid t choice s t' s'}, I s → J s tid t → m.move tid t choice s = some (t', s') →
    (thread t' = thread t ∧ shared s' = shared s) ∨
      ∃ choice', m'.move tid (thread t) choice' (shared s) = some (thread t', shared s')

/-- A team as the simulated machine sees it. -/
def view (shared : S → S') (thread : T → T') (team : Team S T) : Team S' T' where
  shared := shared team.shared
  threads := team.threads.map thread

/-- Steps that start nothing but what `m` starts, as `thread` sees it. -/
def Mirrors (m : Machine S T C) (thread : T → T') (steps : List (Step T' C')) : Prop :=
  ∀ t', .spawn t' ∈ steps → ∃ t, m.start t = true ∧ thread t = t'

theorem Mirrors.append {thread : T → T'} {steps steps' : List (Step T' C')}
    (h : m.Mirrors thread steps) (h' : m.Mirrors thread steps') :
    m.Mirrors thread (steps ++ steps') := by
  intro t' ht'
  rcases List.mem_append.mp ht' with hfirst | hsecond
  · exact h t' hfirst
  · exact h' t' hsecond

section Simulation

variable {I : S → Prop} {J : S → ℕ → T → Prop} {shared : S → S'} {thread : T → T'}

theorem Simulation.step (hsim : Simulation m m' I J shared thread) (hteam : Holds I J team)
    {st : Step T C} (hstep : m.step team st = some team') :
    ∃ steps, m.Mirrors thread steps ∧
      m'.run (view shared thread team) steps = some (view shared thread team') := by
  cases st with
  | spawn t =>
      obtain ⟨hstart, rfl⟩ := step_spawn_iff.mp hstep
      have hspawn : m'.step (view shared thread team) (.spawn (thread t)) =
          some (view shared thread { team with threads := team.threads ++ [t] }) := by
        rw [step_spawn_iff]
        exact ⟨hsim.start hstart, by simp [view]⟩
      refine ⟨[.spawn (thread t)], fun t' ht' => ⟨t, hstart, ?_⟩, run_one hspawn⟩
      cases List.mem_singleton.mp ht'
      rfl
  | go tid choice =>
      obtain ⟨t, t', s', ht, hmove, rfl⟩ := step_go_iff.mp hstep
      have ht' : (view shared thread team).threads[tid]? = some (thread t) := by
        simp [view, ht]
      rcases hsim.move hteam.shared (hteam.thread ht) hmove with
        ⟨hsame, hshared⟩ | ⟨choice', hmove'⟩
      · refine ⟨[], nofun, ?_⟩
        have hset : (team.threads.map thread).set tid (thread t) = team.threads.map thread := by
          obtain ⟨hlt, hget⟩ := List.getElem?_eq_some_iff.mp ht'
          rw [← hget]
          exact List.set_getElem_self hlt
        simp only [Machine.run, view, List.map_set, hsame, hshared, hset]
      · refine ⟨[.go tid choice'], fun u hu => (by cases List.mem_singleton.mp hu), ?_⟩
        rw [run_go ht' hmove']
        simp only [view, List.map_set]

/-- **Every run is one of the simulated machine**, as that machine sees it. -/
theorem Simulation.run (hsim : Simulation m m' I J shared thread) (hm : m.Modular I J)
    (hteam : Holds I J team) {steps : List (Step T C)} (hrun : m.run team steps = some team') :
    ∃ steps', m.Mirrors thread steps' ∧
      m'.run (view shared thread team) steps' = some (view shared thread team') := by
  suffices h : Holds I J team' ∧ ∃ steps', m.Mirrors thread steps' ∧
      m'.run (view shared thread team) steps' = some (view shared thread team') from h.2
  refine run_induct (I := fun now => Holds I J now ∧ ∃ steps', m.Mirrors thread steps' ∧
    m'.run (view shared thread team) steps' = some (view shared thread now)) ?_
    ⟨hteam, [], nofun, rfl⟩ hrun
  rintro now st next ⟨hnow, steps', hmirrors, hsteps'⟩ hstep
  obtain ⟨more, hmore, hrunmore⟩ := hsim.step hnow hstep
  exact ⟨hm.step hnow hstep, steps' ++ more, hmirrors.append hmore,
    run_append_of_eq hsteps' hrunmore⟩

end Simulation

end Machine

end ThreadTeam
