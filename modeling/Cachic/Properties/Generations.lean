import Cachic.Orchestrator.Process

/-!
# Generations do not go back

Slices of an invalidated generation stay in the store.  They are out of reach
because the next probe assigns a higher generation, and it knows that generation
from the object's index entry alone.

This file follows one object through operations performed one after another.
`probes_after_invalidate` says that a probe after an invalidation assigns a higher
generation as long as the entry is there when it is invalidated and is not removed
afterwards.  `probe_after_remove` is what a removal does: the counter starts over
at 0, and the slices of the invalidated generation are addressed again.
-/

namespace Cachic

open Range ActionLang Prog

/-! ## Operations on the index -/

/-- The operations that read or change the index. -/
inductive IndexOp
  | probe (key : CacheKey) (url : String) (headers : HeaderMap) (index : ℕ)
  | invalidate (id : ObjectId)
  | touch (id : ObjectId)
  | put (id : ObjectId) (info : ObjectMeta)
  | remove (id : ObjectId)
  | prune (maxAge : ℕ)
  | purge (start : String)

def IndexOp.task (cfg : Config) : IndexOp → Task Unit
  | .probe key url headers index => do
      let _ ← Cachic.probe cfg key (cfg.objectId key) url headers index
  | .invalidate id => do
      let _ ← Cachic.invalidate id
  | .touch id => do
      let _ ← Cachic.touch id
  | .put id info => do
      let _ ← ask (.indexPut id info .direct)
  | .remove id => ask (.indexRemove [id])
  | .prune maxAge => do
      let _ ← Cachic.prune maxAge
  | .purge start => do
      let _ ← Cachic.purge cfg start

/-- The generation a probe of the object would assign. -/
def live (id : ObjectId) (s : Shared) : ℕ := generationOf (s.index.get id)

section

variable {id : ObjectId} {s s' : Shared} {info : ObjectMeta}

theorem live_of_get (h : s.index.get id = some info) : live id s = info.generation := by
  simp [live, generationOf, h]

/-- The live generation after a write. -/
theorem live_put {object : ObjectId} (h : s'.index = s.index.put object info) :
    live id s' = if id = object then info.generation else live id s := by
  rw [live, h, ObjectIndex.get_put]
  split <;> rfl

/-! ## What each operation does to the live generation -/

section Steps

variable {id object : ObjectId} {g : ℕ}

variable {found : Option ObjectMeta} {s : Shared} {α : Type}

/-- The live generation depends on the index alone. -/
theorem live_step {a : Act} {choice : Choice} {s' : Shared} {r : a.Res}
    (ha : a.writesIndex = false) (h : exec a choice s = some (r, s')) : live id s' = live id s := by
  rw [live, live, exec_index ha h]

/-- An operation that has read the object's entry and not yet written it, while the
live generation of `id` is `g`. -/
structure Between (id : ObjectId) (g : ℕ) (object : ObjectId) (found : Option ObjectMeta)
    (s : Shared) : Prop where
  entry : s.index.get object = found
  live : live id s = g

theorem Between.step {a : Act} {choice : Choice} {s' : Shared} {r : a.Res}
    (ha : a.writesIndex = false) (hs : Between id g object found s)
    (h : exec a choice s = some (r, s')) : Between id g object found s' :=
  ⟨by rw [exec_index ha h, hs.entry], (live_step ha h).trans hs.live⟩

/-- What was read of the object itself is the live generation. -/
theorem Between.generation (hs : Between id g object found s) (heq : object = id) :
    generationOf found = g := by
  rw [← hs.live, ← hs.entry, heq]
  rfl

/-- The read that starts an operation. -/
theorem between_read {site : ReadSite} {next : Option ObjectMeta → Task α} {Q : α → Shared → Prop}
    (hnext : ∀ found, Triple exec (Between id g object found) (next found) Q) :
    Triple exec (fun s => Cachic.live id s = g) (ask (.indexGet object site) >>= next) Q := by
  refine .act (fun found => Between id g object found) ?_ hnext
  intro s choice found s₁ hs hexec
  cases hexec
  exact ⟨rfl, hs⟩

/-- Another step of the operation. -/
theorem between_step {a : Act} {next : a.Res → Task α} {Q : α → Shared → Prop}
    (ha : a.writesIndex = false) (hnext : ∀ r, Triple exec (Between id g object found) (next r) Q) :
    Triple exec (Between id g object found) (ask a >>= next) Q :=
  .act (fun _ => Between id g object found) (fun _ _ _ _ hs hexec => hs.step ha hexec) hnext

/-- The write that ends it.  If it writes the object followed, its entry's
generation is the live one afterwards. -/
theorem between_write {info : ObjectMeta} {site : WriteSite} {value : α} :
    Triple exec (Between id g object found)
      (do let _ ← ask (.indexPut object info site); return value)
      fun result s => result = value ∧
        Cachic.live id s = if object = id then info.generation else g := by
  refine .act (fun _ s => Cachic.live id s = if object = id then info.generation else g) ?_
    fun _ => .ret fun s hs => ⟨rfl, hs⟩
  intro s choice replaced s₁ hs hexec
  cases hexec
  rw [live_put rfl, hs.live]
  simp only [eq_comm]

/-- A touch keeps the live generation. -/
theorem touch_live (object : ObjectId) :
    Triple exec (fun s => live id s = g) (touch object) fun _ s => live id s = g := by
  refine between_read fun found => ?_
  cases found with
  | none => exact .ret fun s hs => hs.live
  | some info =>
      refine between_step rfl fun now => ?_
      split
      · exact .ret fun s hs => hs.live
      · intro s trace wrote s' hs hrun
        obtain ⟨-, hlive⟩ := between_write s trace wrote s' hs hrun
        rw [hlive]
        split
        · rename_i heq
          exact hs.generation heq
        · rfl

/-- An invalidation of a known object increments it, as a 32-bit word. -/
theorem invalidate_known {old : ObjectMeta} :
    Triple exec (fun s => s.index.get id = some old) (invalidate id)
      fun _ s => live id s = wrapAdd 32 old.generation 1 := by
  refine .act (fun found _ => found = some old) ?_ fun found => ?_
  · intro s choice found s₁ hs hexec
    cases hexec
    exact hs
  cases found with
  | none => exact .ret fun s hs => by cases hs
  | some info =>
      refine .act (fun _ s => live id s = wrapAdd 32 old.generation 1) ?_
        fun _ => .ret fun s hs => hs
      intro s choice replaced s₁ hs hexec
      cases hs
      cases hexec
      rw [live_put rfl, if_pos rfl]

/-- An invalidation of any object keeps it or, without a wrap, raises it. -/
theorem invalidate_live (object : ObjectId) (hwrap : object = id → g + 1 < 2 ^ 32) :
    Triple exec (fun s => live id s = g) (invalidate object) fun _ s => g ≤ live id s := by
  refine between_read fun found => ?_
  cases found with
  | none => exact .ret fun s hs => hs.live.ge
  | some info =>
      intro s trace next s' hs hrun
      obtain ⟨-, hlive⟩ := between_write s trace next s' hs hrun
      rw [hlive]
      split
      · rename_i heq
        have hgen : info.generation = g := hs.generation heq
        calc g ≤ g + 1 := Nat.le_succ g
          _ = wrapAdd 32 info.generation 1 := by rw [hgen, wrapAdd_of_lt (hwrap heq)]
      · rfl

/-- A probe keeps it and assigns it. -/
theorem probe_live (cfg : Config) (key : CacheKey) (object : ObjectId) (url : String)
    (headers : HeaderMap) (index : ℕ) :
    Triple exec (fun s => live id s = g) (probe cfg key object url headers index)
      fun result s => live id s = g ∧ ∀ info, result = .ok info → object = id →
        info.generation = g := by
  have hfail : ∀ e, Triple exec (fun s => live id s = g)
      (.ret (.error e) : Task (Except OrchestratorError ObjectMeta))
      fun result s => live id s = g ∧ ∀ info, result = .ok info → object = id →
        info.generation = g := fun e => .ret fun s hs => ⟨hs, fun info hok => by cases hok⟩
  -- the entry a probe writes carries the generation it read
  have hwrite : ∀ previous (info : ObjectMeta), info.generation = generationOf previous →
      Triple exec (Between id g object previous)
        (do let _ ← ask (.indexPut object info (.probe previous)); return .ok info)
        fun (result : Except OrchestratorError ObjectMeta) s => live id s = g ∧
          ∀ info, result = .ok info → object = id → info.generation = g := by
    intro previous info hinfo s trace result s' hs hrun
    obtain ⟨rfl, hlive⟩ := between_write s trace result s' hs hrun
    have hgen : object = id → info.generation = g := fun heq => hinfo.trans (hs.generation heq)
    refine ⟨?_, fun info' hok => by cases hok; exact hgen⟩
    rw [hlive]
    split
    · rename_i heq
      exact hgen heq
    · rfl
  refine .bind (fun _ s => live id s = g)
    (.frame (fetchRange_network _ _ _ _ _ _) fun a choice s r s₁ ha hs hexec =>
      exec_network ha hexec ▸ hs) fun answer => ?_
  cases answer with
  | error e => exact hfail _
  | ok response =>
      cases hshape : shape url response with
      | error e =>
          simp only [hshape]
          exact hfail _
      | ok parts =>
          simp only [hshape]
          refine between_read fun previous => between_step rfl fun now => ?_
          split
          · exact hwrite previous _ rfl
          · exact between_step rfl fun _ => hwrite previous _ rfl

end Steps

/-! ### Removals -/

/-- An operation that only removes can only lose entries. -/
theorem entries_of_removes {α : Type} {p : Task α} (hp : p.All fun a => a.removes = true)
    {trace : List (Event Act Act.Res)} {value : α} (hrun : Runs exec p s trace value s')
    (hget : s'.index.get id = some info) : s.index.get id = some info := by
  have hframe : Triple exec (fun t => ∀ info, t.index.get id = some info →
      s.index.get id = some info) p fun _ t => ∀ info, t.index.get id = some info →
        s.index.get id = some info := by
    refine .frame hp fun a choice t r t₁ ha ht hexec => ?_
    by_cases hwrites : a.writesIndex = false
    · rw [exec_index hwrites hexec]
      exact ht
    · cases a with
      | indexRemove ids =>
          cases hexec
          intro info hinfo
          rw [ObjectIndex.get_removeAll] at hinfo
          split at hinfo
          · cases hinfo
          · exact ht info hinfo
      | indexPut object info site => cases ha
      | _ => exact absurd rfl hwrites
  exact hframe s trace value s' (fun _ h => h) hrun info hget

/-! ## Sequences -/

/-- The operation does not take the counter back: a written entry does not lower
it, an increment does not wrap, and a removal does not drop the object's entry once
it has been incremented. -/
def KeepsCounter (id : ObjectId) (s : Shared) (op : IndexOp) (s' : Shared) : Prop :=
  match op with
  | .put object info => object = id → live id s ≤ info.generation
  | .invalidate object => object = id → live id s + 1 < 2 ^ 32
  | .remove _ => 0 < live id s → s'.index.get id ≠ none
  | .prune _ => 0 < live id s → s'.index.get id ≠ none
  | .purge _ => 0 < live id s → s'.index.get id ≠ none
  | _ => True

/-- Losing other entries keeps the live generation. -/
theorem live_le_of_entries
    (hentries : ∀ info, s'.index.get id = some info → s.index.get id = some info)
    (hkeep : 0 < live id s → s'.index.get id ≠ none) : live id s ≤ live id s' := by
  cases hget : s'.index.get id with
  | some info => rw [live_of_get hget, live_of_get (hentries info hget)]
  | none =>
      have hzero : ¬ 0 < live id s := fun hpos => hkeep hpos hget
      omega

/-- One operation does not lower the live generation. -/
theorem live_le_of_op {cfg : Config} {op : IndexOp} {trace : List (Event Act Act.Res)}
    (hrun : Runs exec (op.task cfg) s trace () s') (hkeep : KeepsCounter id s op s') :
    live id s ≤ live id s' := by
  cases op with
  | probe key url headers index =>
      obtain ⟨trace, result, hrun⟩ := runs_discard hrun
      exact ((probe_live cfg key _ url headers index) s trace result s' rfl hrun).1.ge
  | invalidate object =>
      obtain ⟨trace, next, hrun⟩ := runs_discard hrun
      exact invalidate_live object hkeep s trace next s' rfl hrun
  | touch object =>
      obtain ⟨trace, wrote, hrun⟩ := runs_discard hrun
      exact (touch_live object s trace wrote s' rfl hrun).ge
  | put object info =>
      obtain ⟨trace, replaced, hrun⟩ := runs_discard hrun
      obtain ⟨choice, r, s₁, rest, hexec, -, hret⟩ := runs_act_iff.mp hrun
      obtain ⟨-, -, rfl⟩ := runs_ret_iff.mp hret
      have hput : s'.index = s.index.put object info := by
        cases hexec
        rfl
      rw [live_put hput]
      split
      · rename_i heq
        exact hkeep heq.symm
      · exact le_refl _
  | remove object =>
      have hall : (ask (.indexRemove [object])).All fun a => a.removes = true :=
        all_perform.mpr rfl
      exact live_le_of_entries (fun _ => entries_of_removes hall hrun) hkeep
  | prune maxAge =>
      obtain ⟨trace, removed, hrun⟩ := runs_discard hrun
      exact live_le_of_entries (fun _ => entries_of_removes (prune_removes maxAge) hrun) hkeep
  | purge start =>
      obtain ⟨trace, counts, hrun⟩ := runs_discard hrun
      exact live_le_of_entries (fun _ => entries_of_removes (purge_removes cfg start) hrun) hkeep

/-- Neither does a sequence. -/
theorem live_le_of_sequence {cfg : Config} {ops : List IndexOp}
    (h : Sequence exec (IndexOp.task cfg) (KeepsCounter id) s ops s') :
    live id s ≤ live id s' :=
  h.induct (I := fun t => live id s ≤ live id t)
    (fun _ _ _ _ _ hle hrun hkeep => le_trans hle (live_le_of_op hrun hkeep)) (le_refl _)

/-- **A probe after an invalidation assigns a higher generation**, if the object was
in the index when it was invalidated and no operation in between took its counter
back. -/
theorem probes_after_invalidate {cfg : Config} {id : ObjectId} {old info : ObjectMeta}
    {s₁ s₂ s₃ s₄ : Shared} {tr₁ tr₂ : List (Event Act Act.Res)} {next index : ℕ}
    {ops : List IndexOp} {key : CacheKey} {url : String} {headers : HeaderMap}
    (hold : s₁.index.get id = some old) (hwrap : old.generation + 1 < 2 ^ 32)
    (hinvalidate : Runs exec (invalidate id) s₁ tr₁ next s₂)
    (hops : Sequence exec (IndexOp.task cfg) (KeepsCounter id) s₂ ops s₃)
    (hprobe : Runs exec (probe cfg key id url headers index) s₃ tr₂ (.ok info) s₄) :
    old.generation < info.generation := by
  have hbumped := invalidate_known s₁ tr₁ next s₂ hold hinvalidate
  have hassigned := (probe_live cfg key id url headers index s₃ tr₂ _ s₄ rfl hprobe).2 info rfl rfl
  calc old.generation < old.generation + 1 := Nat.lt_succ_self _
    _ = live id s₂ := by rw [hbumped, wrapAdd_of_lt hwrap]
    _ ≤ live id s₃ := live_le_of_sequence hops
    _ = info.generation := hassigned.symm

end

namespace Scenario

/-- Probe a one-byte object. -/
def probeOnce : Task (Except OrchestratorError ObjectMeta) := probe config key object url [] 0

/-- Probe, look at the entry, invalidate, perform one more operation, probe again. -/
def reprobe (op : IndexOp) :
    Task (Except OrchestratorError ObjectMeta × Option ObjectMeta × ℕ ×
      Except OrchestratorError ObjectMeta) := do
  let first ← probeOnce
  let entry ← ask (.indexGet object .metadata)
  let next ← invalidate object
  let _ ← op.task config
  let second ← probeOnce
  return (first, entry, next, second)

/-- The states such a run goes through. -/
theorem reprobe_states {op : IndexOp} {first second : Except OrchestratorError ObjectMeta}
    {entry : Option ObjectMeta} {next : ℕ} {s s₄ : Shared} {trace : List (Event Act Act.Res)}
    (h : Runs exec (reprobe op) s trace (first, entry, next, second) s₄) :
    ∃ s₁ s₂ s₃ tr₀ tr₁ tr₂ tr₃, Runs exec probeOnce s tr₀ first s₁ ∧
      s₁.index.get object = entry ∧ Runs exec (invalidate object) s₁ tr₁ next s₂ ∧
      Runs exec (op.task config) s₂ tr₂ () s₃ ∧ Runs exec probeOnce s₃ tr₃ second s₄ := by
  obtain ⟨first', s₁, tr₀, _, -, hfirst, h⟩ := runs_bind_iff.mp h
  obtain ⟨choice, entry', s₁', _, hexec, -, h⟩ := runs_perform_bind_iff.mp h
  cases hexec
  obtain ⟨next', s₂, tr₁, _, -, hnext, h⟩ := runs_bind_iff.mp h
  obtain ⟨_, s₃, tr₂, _, -, hop, h⟩ := runs_bind_iff.mp h
  obtain ⟨second', s₄', tr₃, _, -, hsecond, h⟩ := runs_bind_iff.mp h
  obtain ⟨-, hvalue, rfl⟩ := runs_ret_iff.mp h
  cases hvalue
  exact ⟨s₁, s₂, s₃, tr₀, tr₁, tr₂, tr₃, hfirst, rfl, hnext, hop, hsecond⟩

/-- With a touch in between, the second probe assigns generation 1. -/
theorem probes_after_invalidate_touch :
    ∃ s₁ s₂ s₃ s₄ tr₁ tr₂, s₁.index.get object = some (info "\"v1\"" 1 0) ∧
      Runs exec (invalidate object) s₁ tr₁ 1 s₂ ∧
      Sequence exec (IndexOp.task config) (KeepsCounter object) s₂ [.touch object] s₃ ∧
      Runs exec (probe config key object url [] 0) s₃ tr₂ (.ok (info "\"v1\"" 1 1)) s₄ ∧
      (info "\"v1\"" 1 0).generation < (info "\"v1\"" 1 1).generation := by
  obtain ⟨_, s₄, trace, rfl, hrun⟩ := exists_runs (steady (raw "\"v1\"" "bytes 0-0/1" [1]))
    (reprobe (.touch object)) Shared.init
    (fun value _ => value = (.ok (info "\"v1\"" 1 0), some (info "\"v1\"" 1 0), 1,
      .ok (info "\"v1\"" 1 1))) (by decide +kernel)
  obtain ⟨s₁, s₂, s₃, -, tr₁, tr₂, tr₃, -, hentry, hnext, hop, hsecond⟩ := reprobe_states hrun
  have hseq : Sequence exec (IndexOp.task config) (KeepsCounter object) s₂ [.touch object] s₃ :=
    .cons hop trivial (.nil s₃)
  exact ⟨s₁, s₂, s₃, s₄, tr₁, tr₃, hentry, hnext, hseq, hsecond,
    probes_after_invalidate hentry (by decide) hnext hseq hsecond⟩

/-- The object is probed and invalidated at generation 0 and its entry removed; the
next probe assigns generation 0 again. -/
theorem probe_after_remove :
    ∃ s₁ s₂ s₃ s₄ tr₀ tr₁ tr₂ tr₃,
      Runs exec probeOnce Shared.init tr₀ (.ok (info "\"v1\"" 1 0)) s₁ ∧
      s₁.index.get object = some (info "\"v1\"" 1 0) ∧
      Runs exec (invalidate object) s₁ tr₁ 1 s₂ ∧
      Runs exec ((IndexOp.remove object).task config) s₂ tr₂ () s₃ ∧
      Runs exec probeOnce s₃ tr₃ (.ok (info "\"v1\"" 1 0)) s₄ := by
  obtain ⟨_, s₄, trace, rfl, hrun⟩ := exists_runs (steady (raw "\"v1\"" "bytes 0-0/1" [1]))
    (reprobe (.remove object)) Shared.init
    (fun value _ => value = (.ok (info "\"v1\"" 1 0), some (info "\"v1\"" 1 0), 1,
      .ok (info "\"v1\"" 1 0))) (by decide +kernel)
  obtain ⟨s₁, s₂, s₃, tr₀, tr₁, tr₂, tr₃, hfirst, hentry, hnext, hop, hsecond⟩ :=
    reprobe_states hrun
  exact ⟨s₁, s₂, s₃, s₄, tr₀, tr₁, tr₂, tr₃, hfirst, hentry, hnext, hop, hsecond⟩

end Scenario

end Cachic
