import Cachic.Orchestrator.Cutting
import Cachic.Properties.RangedPath

/-!
# Serving an object whose origin ignored a range

An object that was learnt from a 200 is never asked for by range again: the first
request that misses a slice streams all of it and cuts it up.  Here that path runs
alone, against an origin that now answers correctly.  `Filled` is the loop invariant of
the stream: every slice below the next index is in the store, and exact.  The rest of
the object is then what the buffer and the chunks to come hold.

A slice the fill has just stored may be dropped before it is read back, and the request
then fails, so the store has to keep what it is asked for (`KeepsReads`).
-/

namespace Cachic

open Range Tiling ActionLang

/-- No slice is dropped at the moment it is read. -/
def KeepsReads (choose : Act → Shared → Choice) : Prop :=
  ∀ key s, choose (.storeGet key) s ≠ .evicted

section Fill

variable {choose : Act → Shared → Choice} {cfg : Config} {plan : Plan} {content : List UInt8}
  {s s₀ : Shared} {index : ℕ} {v : Validators} {among : ℕ → Prop}

/-- A fill that has stored the slices below `count`: what is stored is exact, and nothing
has been learnt since `s₀`. -/
structure Filled (among : ℕ → Prop) (cfg : Config) (plan : Plan) (content : List UInt8)
    (s₀ : Shared) (count : ℕ) (s : Shared) : Prop where
  resident : ResidentOn among cfg.sliceSize content plan.object plan.info.generation s
  stocked : ∀ i < count, (s.store (plan.sliceKey i)).isSome = true
  same : SameKnowledge s₀ s

namespace Filled

/-- It is not about the fills that are registered or how far they say they are. -/
theorem of_eq (h : Filled among cfg plan content s₀ index s) {s' : Shared}
    (hstore : s'.store = s.store) (hflight : s'.flightOf = s.flightOf)
    (hsame : SameKnowledge s s') :
    Filled among cfg plan content s₀ index s' :=
  ⟨h.resident.of_eq hstore hflight, fun i hi => by rw [hstore, h.stocked i hi],
    h.same.trans hsame⟩

/-- The next slice is stored. -/
theorem inserted (h : Filled among cfg plan content s₀ index s) {value : SliceValue}
    (hvalue : value.payload = tile content cfg.sliceSize index) :
    Filled among cfg plan content s₀ (index + 1) (s.land (plan.sliceKey index) value) where
  resident := h.resident.stored hvalue rfl rfl
  stocked := by
    intro i hi
    show (Function.update s.store (plan.sliceKey index) (some value)
      (plan.sliceKey i)).isSome = true
    by_cases hlast : i = index
    · rw [hlast, Function.update_self]
      rfl
    · have hother : plan.sliceKey i ≠ plan.sliceKey index := by simp [Plan.sliceKey, hlast]
      rw [Function.update_of_ne hother]
      exact h.stocked i (by omega)
  same := h.same.trans ⟨rfl, rfl, rfl⟩

/-- Storing the slices from the next on. -/
theorem run_storeTiles (h : Filled among cfg plan content s₀ index s)
    (choose : Act → Shared → Choice) (fill : FillId) (count : ℕ) :
    ∃ s', (storeTiles cfg plan fill content count index).run exec choose s = some ((), s') ∧
      Filled among cfg plan content s₀ (index + count) s' := by
  induction count generalizing index s with
  | zero => exact ⟨s, rfl, h⟩
  | succ count ih =>
      let value : SliceValue :=
        { header := headerFor plan.info cfg.sliceSize
          payload := tile content cfg.sliceSize index }
      have hnext : Filled among cfg plan content s₀ (index + 1)
          { s.land (plan.sliceKey index) value with
            fills := Function.update s.fills fill (.ready (index + 1)) } :=
        (h.inserted rfl).of_eq rfl rfl ⟨rfl, rfl, rfl⟩
      obtain ⟨s', hrun, h'⟩ := ih hnext
      refine ⟨s', ?_, by rwa [Nat.add_comm count 1, ← Nat.add_assoc]⟩
      rw [storeTiles,
        Prog.run_perform_bind_of_eq exec (a := .storeInsert (plan.sliceKey index) value .fill) rfl,
        Prog.run_perform_bind_of_eq exec (a := .fillPublish fill (.ready (index + 1))) rfl]
      exact hrun

/-- **A fill from a correct origin** stores every slice of the object. -/
theorem run_runFill (h : Filled among cfg plan content s₀ 0 s)
    (hsolo : Solo (AnswersCorrectly content v) choose)
    (haddressable : content.length ≤ (2 ^ 32 - 1) * cfg.sliceSize) (url : String)
    (headers : HeaderMap) (fill : FillId) :
    ∃ n s', (runFill cfg plan url headers fill).run exec choose s = some (.ok n, s') ∧
      content.length ≤ n * cfg.sliceSize ∧ Filled among cfg plan content s₀ n s' := by
  obtain ⟨raw, ⟨hstatus, hfailure, rfl, -⟩, hfetch⟩ := hsolo.run_fetchStream
    (.fill plan.object (headerFor plan.info cfg.sliceSize)) url headers s
  have hrefusal : refusal url raw = none := by
    simp [refusal, hstatus, isRedirection, isSuccess]
  simp only [hrefusal, hfailure] at hfetch
  obtain ⟨s', hrun, h'⟩ := h.run_storeTiles choose fill (storedCount cfg raw.chunks.flatten none)
  rw [Nat.zero_add] at h'
  refine ⟨_, s', ?_, length_le_storedCount cfg raw.chunks.flatten, h'⟩
  rw [runFill_eq_bind, Prog.run_bind_of_eq exec hfetch]
  simp only
  rw [cutStream_eq haddressable, Prog.run_bind_of_eq exec hrun]
  rfl

end Filled

/-- A state in which an object can be filled: what is stored of it is exact, and nobody
is filling it. -/
structure Fillable (among : ℕ → Prop) (cfg : Config) (content : List UInt8)
    (object : ObjectId) (generation : ℕ) (s₀ s : Shared) : Prop where
  resident : ResidentOn among cfg.sliceSize content object generation s
  vacant : s.fillOf object = none
  same : SameKnowledge s₀ s

theorem Fillable.evicted {object : ObjectId} {generation : ℕ} {s' : Shared}
    (h : Fillable among cfg content object generation s₀ s) (hevicted : Evicted s s') :
    Fillable among cfg content object generation s₀ s' where
  resident := h.resident.evicted hevicted
  vacant := by rw [hevicted.rest, h.vacant]
  same := h.same.trans hevicted.same

/-- **A slice of the object is made readable**: it is there, or a fill stores it. -/
theorem Fillable.run_ensureFilled
    (h : Fillable among cfg content plan.object plan.info.generation s₀ s)
    (hsolo : Solo (AnswersCorrectly content v) choose)
    (haddressable : content.length ≤ (2 ^ 32 - 1) * cfg.sliceSize) {i : ℕ}
    (hi : i * cfg.sliceSize < content.length) (url : String) (headers : HeaderMap) :
    ∃ s', (ensureFilled cfg plan url headers i).run exec choose s = some (.ok (), s') ∧
      (s'.store (plan.sliceKey i)).isSome = true ∧
      Fillable among cfg content plan.object plan.info.generation s₀ s' := by
  have h₁ := h.evicted (Evicted.settle s (plan.sliceKey i)
    (choose (.storeContains (plan.sliceKey i)) s))
  rw [ensureFilled, Prog.run_perform_bind_of_eq exec (a := .storeContains (plan.sliceKey i)) rfl]
  generalize s.settle (plan.sliceKey i) (choose (.storeContains (plan.sliceKey i)) s) = s₁ at h₁
  cases hstored : (s₁.store (plan.sliceKey i)).isSome with
  | true => exact ⟨s₁, rfl, hstored, h₁⟩
  | false =>
      let fill : FillId := { object := plan.object, serial := s₁.fresh }
      let s₂ : Shared := { s₁ with
        fillOf := Function.update s₁.fillOf plan.object (some fill)
        fresh := s₁.fresh + 1 }
      have hclaim : exec (.fillClaim plan.object) (choose (.fillClaim plan.object) s₁) s₁ =
          some (.filler fill, s₂) := by simp only [exec, h₁.vacant, fill, s₂]
      have hfilled : Filled among cfg plan content s₀ 0 s₂ :=
        ⟨h₁.resident.of_eq rfl rfl, fun i hi => absurd hi (Nat.not_lt_zero i),
          h₁.same.trans ⟨rfl, rfl, rfl⟩⟩
      obtain ⟨n, s₃, hrun, hn, h₃⟩ := hfilled.run_runFill hsolo haddressable url headers fill
      have hin : i < n := Nat.lt_of_mul_lt_mul_right (lt_of_lt_of_le hi hn)
      refine ⟨{ s₃ with
        fillOf := Function.update s₃.fillOf plan.object none
        fills := Function.update s₃.fills fill (.complete n) }, ?_, h₃.stocked i hin,
        h₃.resident.of_eq rfl rfl, Function.update_self _ _ _, h₃.same.trans ⟨rfl, rfl, rfl⟩⟩
      simp only [Bool.false_eq_true, if_false]
      rw [Prog.run_perform_bind_of_eq exec hclaim]
      simp only
      rw [Prog.run_bind_of_eq exec hrun,
        Prog.run_perform_bind_of_eq exec (a := .fillRelease plan.object) rfl]
      simp only
      rw [Prog.run_perform_bind_of_eq exec (a := .fillPublish fill (.complete n)) rfl, if_pos hin]
      rfl

/-- And then it is read back. -/
theorem Fillable.run_slice (h : Fillable among cfg content plan.object plan.info.generation s₀ s)
    (hsolo : Solo (AnswersCorrectly content v) choose) (hworks : StoreWorks choose)
    (hkeeps : KeepsReads choose) (hignored : plan.info.noRanges = true)
    (haddressable : content.length ≤ (2 ^ 32 - 1) * cfg.sliceSize) {i : ℕ}
    (hi : i * cfg.sliceSize < content.length) (hamong : among i) (url : String)
    (headers : HeaderMap) :
    ∃ value s', (slice cfg plan url headers i).run exec choose s = some (.ok value, s') ∧
      value.payload = tile content cfg.sliceSize i ∧
      Fillable among cfg content plan.object plan.info.generation s₀ s' := by
  obtain ⟨s', hfilled, hstored, h'⟩ := h.run_ensureFilled hsolo haddressable hi url headers
  obtain ⟨value, hvalue⟩ := Option.isSome_iff_exists.mp hstored
  have hget : exec (.storeGet (plan.sliceKey i)) (choose (.storeGet (plan.sliceKey i)) s') s' =
      some (.ok (some value), s') := by
    cases hchoice : choose (.storeGet (plan.sliceKey i)) s' with
    | storeFails text => exact absurd hchoice (hworks _ _ _)
    | evicted => exact absurd hchoice (hkeeps _ _)
    | _ => simp only [exec, Shared.settle, hvalue]
  refine ⟨value, s', ?_, h'.resident.exact i value hamong hvalue, h'⟩
  rw [slice, hignored]
  simp only [if_true]
  rw [Prog.run_bind_of_eq exec hfilled]
  exact Prog.run_perform_bind_of_eq exec hget _

/-- An object whose origin once ignored a range can be served, if its length was reported
right. -/
theorem servable_of_fillable {key : CacheKey} {info : ObjectMeta}
    (hsolo : Solo (AnswersCorrectly content v) choose) (hworks : StoreWorks choose)
    (hkeeps : KeepsReads choose) (hignored : info.noRanges = true)
    (htotal : info.totalLen = content.length) (hnonempty : 0 < content.length)
    (haddressable : content.length ≤ (2 ^ 32 - 1) * cfg.sliceSize) (url : String)
    (forwarded : HeaderMap) (s₀ : Shared) :
    Servable among cfg key info content choose url forwarded
      (Fillable among cfg content (cfg.objectId key) info.generation s₀) where
  slices := fun spec wanted status i s hamong _ hi h =>
    @Fillable.run_slice choose cfg (knownPlan cfg key info spec wanted status) content s s₀ v among
      h hsolo hworks hkeeps hignored haddressable i hi hamong url forwarded
  evicted := Fillable.evicted
  total := htotal
  nonempty := hnonempty
  addressable := haddressable

end Fill

end Cachic
