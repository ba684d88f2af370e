import Cachic.Properties.Arithmetic
import Cachic.Properties.SliceSize
import Cachic.Proxy.Stream

/-!
# What a client is streamed

The slices of a response are fetched by tasks of their own, up to a window of them at
once, in any order and among everything else the process does.  None of that shows in the
body.  It is the wanted bytes of an object that does not change (`streamed_body_exact`); and
whatever the origin does, it has the announced length unless the stream breaks off, and then
it is shorter (`streamed_body_announced`).

Both are about objects whose slices can be numbered: of at most `2 ^ 32` slices
(`maxAddressableLen`).  The indices of a longer object wrap, and its body ends short without
an error.
-/

namespace Cachic

open Range Tiling ActionLang Buffered

section

variable {cfg : Config} {plan : Plan} {url : String} {forwarded : HeaderMap} {configured : ℕ}
  {S : ℕ → Prop} {p₀ p : Process} {steps : List Process.Step}
  {moves : List (Move Process.Step)} {stream : BodyStream}

/-- What was sent of a slice is what its task came out with. -/
theorem came_of_sent (hordered : stream.Ordered (bodyDiscipline S cfg plan url forwarded)
      (readahead configured) (indices cfg plan) p) :
    ∀ t ∈ stream.sent, ∃ result, Outcome.sliced plan t.1 result ∈ p.pool.results ∧
      result.bind (piece cfg plan url t.1) = .ok t.2 := by
  intro t ht
  obtain ⟨tid, htask, hresult⟩ := hordered.taken t ht
  obtain ⟨-, rfl, -⟩ := hordered.sound
  exact htask.result hresult

/-! ## An object that does not change -/

/-- The wanted bytes that lie in one slice of `content`. -/
def Plan.cut (cfg : Config) (content : List UInt8) (plan : Plan) (index : ℕ) : List UInt8 :=
  Tiling.window (tile content cfg.sliceSize index) (plan.window cfg index).1
    (plan.window cfg index).2

/-- The wanted bytes end before a 64-bit word does. -/
theorem Plan.stop_lt (haddr : plan.totalLen ≤ maxAddressableLen cfg.sliceSize)
    (hstop : plan.wanted.stop < plan.totalLen) : plan.wanted.stop + 1 < 2 ^ 64 := by
  have hmax := Nat.mul_le_mul_left (2 ^ 32) cfg.sliceSize_valid.atMost
  simp only [maxAddressableLen] at haddr
  omega

/-- Slice by slice, that is all of them. -/
theorem flatten_cuts {content : List UInt8} {h : Hist} (hplan : PlanOk h plan)
    (hunchanging : Unchanging content plan.object h)
    (haddr : plan.totalLen ≤ maxAddressableLen cfg.sliceSize) :
    ((indices cfg plan).map (plan.cut cfg content)).flatten =
      window content plan.wanted.start (plan.wanted.stop + 1) := by
  by_cases hempty : plan.totalLen = 0
  · have hnil : content = [] := by
      rw [← List.length_eq_zero_iff, ← hplan.recorded.length hunchanging, ← hplan.totalLen]
      exact hempty
    simp [indices, hempty, hnil, window]
  · obtain ⟨horder, hstop⟩ := hplan.wanted hempty
    rw [indices, if_neg hempty]
    exact flatten_payloadWindows cfg.sliceSize_pos horder (index_lt_of_addressable haddr hstop)
      (Plan.stop_lt haddr hstop)

/-- A slice of a plan has its piece, whichever task fetched it. -/
theorem piece_of_sliced {content : List UInt8} (url : String)
    (hfollows : p.Follows fun s => s = p.cfg.sliceSize)
    (hunchanging : Unchanging content plan.object p.pool.hist)
    (haddr : plan.totalLen ≤ maxAddressableLen p.cfg.sliceSize) {index : ℕ} {value : SliceValue}
    (hindex : index ∈ indices p.cfg plan)
    (hsliced : Outcome.sliced plan index (.ok value) ∈ p.pool.results) :
    piece p.cfg plan url index value = .ok (plan.cut p.cfg content index) := by
  obtain ⟨hplan, hsize, writer, hprov⟩ := hfollows.pool.result hsliced
  have htotal : plan.totalLen = content.length :=
    hplan.totalLen.trans (hplan.recorded.length hunchanging)
  obtain ⟨-, hlo, hhi, horder, hstop⟩ := mem_indices_bounds hplan haddr hindex
  have hcount : content.length ≤ 2 ^ 32 * value.header.sliceSize := by
    rw [hsize, ← htotal]
    exact haddr
  have hpayload := hprov.tile hunchanging rfl hcount
  rw [hsize] at hpayload
  exact piece_of_tile hpayload hlo hhi (htotal ▸ hstop) (Plan.stop_lt haddr hstop) horder

/-- **A streamed body is the wanted bytes.**  For an object that never changes, over any
process lifetimes that keep the slice size: at every moment the client has the first of the
bytes its range names, in order and each once; it has all of them when the body ends; and
the body breaks off only where the task of a slice returned an error. -/
theorem streamed_body_exact {content : List UInt8}
    (hkeep : Process.Along Process.KeepsSize (Process.first cfg) steps)
    (hrun : (Process.first cfg).run steps = some p₀)
    (hplanned : Outcome.planned (.ok plan) ∈ p₀.pool.results)
    (haddr : plan.totalLen ≤ maxAddressableLen p₀.cfg.sliceSize)
    (hstream : streamBody configured plan url forwarded p₀ moves = some (stream, p))
    (hunchanging : Unchanging content plan.object p.pool.hist) :
    stream.bytes <+: window content plan.wanted.start (plan.wanted.stop + 1) ∧
      (stream.ending = some .complete →
        stream.bytes = window content plan.wanted.start (plan.wanted.stop + 1)) ∧
      ∀ e, stream.ending = some (.failed e) →
        ∃ index ∈ indices p.cfg plan, Outcome.sliced plan index (.error e) ∈ p.pool.results := by
  have hordered := streamBody_ordered (Process.sound_run hkeep hrun).follows hplanned haddr hstream
  have hsent := came_of_sent hordered
  obtain ⟨hfollows, hcfg, hplanned'⟩ := hordered.sound
  rw [← hcfg] at hordered haddr hfollows hsent
  have hplan : PlanOk p.pool.hist plan := hfollows.pool.result hplanned'
  have hmem : ∀ t ∈ stream.sent, t.1 ∈ indices p.cfg plan := by
    intro t ht
    rw [← hordered.items, List.append_assoc]
    exact List.mem_append_left _ (List.mem_map_of_mem ht)
  have hpieces : ∀ t ∈ stream.sent, t.2 = plan.cut p.cfg content t.1 := by
    intro t ht
    obtain ⟨result, hcame, hbind⟩ := hsent t ht
    cases result with
    | error e => cases hbind
    | ok value =>
        have hpiece := piece_of_sliced url hfollows hunchanging haddr (hmem t ht) hcame
        exact Except.ok.inj (hbind.symm.trans hpiece)
  have hsplit := congrArg List.flatten (hordered.map_sent hpieces)
  rw [flatten_cuts hplan hunchanging haddr, List.flatten_append] at hsplit
  refine ⟨⟨_, hsplit.symm⟩, fun hcomplete => ?_, fun e hfailed => ?_⟩
  · obtain ⟨hwindow, htodo⟩ := hordered.complete hcomplete
    simpa [BodyStream.bytes, hwindow, htodo] using hsplit.symm
  · obtain ⟨index, tid, rest, hwindow, hresult⟩ := hordered.failed e hfailed
    have hindex : index ∈ indices p.cfg plan := by
      rw [← hordered.items, hwindow]
      simp
    obtain ⟨result, hcame, hbind⟩ :=
      (hordered.running (index, tid) (by rw [hwindow]; exact List.mem_cons_self)).result hresult
    refine ⟨index, hindex, ?_⟩
    cases result with
    | error e' =>
        cases hbind
        exact hcame
    | ok value =>
        -- the slice was fetched, and a slice that was fetched has its piece
        have hpiece := piece_of_sliced url hfollows hunchanging haddr hindex hcame
        exact absurd (hpiece.symm.trans hbind) (fun h => by cases h)

/-- A one-byte object, from the answer of the origin to the end of the body. -/
theorem Scenario.streamed_body_exact_byte : ∃ p₀ stream p,
    (Process.first config).run (coldRequest 0 "bytes=0-"
        (reply "\"v1\"" "bytes 0-0/1" [1]) 1) = some p₀ ∧
      streamBody 0 (Scenario.plan "\"v1\"" 1 0 0 0 .miss) Scenario.url [] p₀
        [.poll, .world (.task 1 .go), .poll, .poll] = some (stream, p) ∧
      (Outcome.planned (.ok (Scenario.plan "\"v1\"" 1 0 0 0 .miss)) ∈ p₀.pool.results ∧
        (Scenario.plan "\"v1\"" 1 0 0 0 .miss).totalLen ≤ maxAddressableLen p₀.cfg.sliceSize ∧
        Unchanging [1] object p.pool.hist ∧ stream.ending = some .complete) ∧
      stream.bytes = window [1] 0 1 := by
  obtain ⟨p₀, stream, p, hrun, hstream, hall⟩ := exists_streamed (Process.first config)
    (coldRequest 0 "bytes=0-" (reply "\"v1\"" "bytes 0-0/1" [1]) 1) 0
    (Scenario.plan "\"v1\"" 1 0 0 0 .miss) [.poll, .world (.task 1 .go), .poll, .poll]
    (fun p₀ stream p =>
      Outcome.planned (.ok (Scenario.plan "\"v1\"" 1 0 0 0 .miss)) ∈ p₀.pool.results ∧
      (Scenario.plan "\"v1\"" 1 0 0 0 .miss).totalLen ≤ maxAddressableLen p₀.cfg.sliceSize ∧
      Unchanging [1] object p.pool.hist ∧ stream.ending = some .complete) (by decide +kernel)
  exact ⟨p₀, stream, p, hrun, hstream, hall,
    (streamed_body_exact (Process.along_keepsSize (by decide)) hrun hall.1 hall.2.1 hstream
      hall.2.2.1).2.1 hall.2.2.2⟩

/-! ## Any origin -/

/-- The part of the body that one slice has. -/
def Plan.share (cfg : Config) (plan : Plan) (index : ℕ) : ℕ :=
  (plan.window cfg index).2 - (plan.window cfg index).1

/-- A piece is as long as the window it fills. -/
theorem length_of_piece {index : ℕ} {value : SliceValue} {bytes : List UInt8}
    (h : piece cfg plan url index value = .ok bytes) :
    bytes.length = plan.share cfg index := by
  simp only [piece, SliceValue.payloadWindow] at h
  split at h
  · next hwindow =>
      cases h
      split at hwindow
      · cases hwindow
      · next hfits =>
          cases hwindow
          simp only [gt_iff_lt, Bool.or_eq_true, decide_eq_true_eq, not_or, not_lt] at hfits
          rw [length_window, Nat.min_eq_left hfits.2, Plan.share]
  · cases h

/-- The windows of a plan are together as long as the body it announces. -/
theorem sum_shares {h : Hist} (hplan : PlanOk h plan)
    (haddr : plan.totalLen ≤ maxAddressableLen cfg.sliceSize) :
    ((indices cfg plan).map (plan.share cfg)).sum = plan.bodyLen := by
  by_cases hempty : plan.totalLen = 0
  · simp [indices, Plan.bodyLen, hempty]
  · obtain ⟨horder, hstop⟩ := hplan.wanted hempty
    rw [indices, Plan.bodyLen, if_neg hempty, if_neg hempty]
    exact sum_payloadWindows horder (index_lt_of_addressable haddr hstop)
      (Plan.stop_lt haddr hstop)

/-- Every slice of a plan has a part of the body. -/
theorem share_pos {h : Hist} (hplan : PlanOk h plan)
    (haddr : plan.totalLen ≤ maxAddressableLen cfg.sliceSize) {index : ℕ}
    (hindex : index ∈ indices cfg plan) :
    0 < plan.share cfg index := by
  obtain ⟨-, hlo, hhi, horder, hstop⟩ := mem_indices_bounds hplan haddr hindex
  have hwindow : plan.window cfg index = (plan.wanted.start - index * cfg.sliceSize,
      min (plan.wanted.stop + 1 - index * cfg.sliceSize) cfg.sliceSize) :=
    payloadWindow_eq hhi (Plan.stop_lt haddr hstop)
  have hpos := cfg.sliceSize_pos
  rw [add_mul, one_mul] at hlo
  rw [Plan.share, hwindow]
  dsimp only
  omega

/-- **A body has the announced length, or breaks off short of it.**  Whatever the origin
answers and the process does, the client is never sent more than `Content-Length` says; a
body that ends without an error has exactly that length; and one that breaks off has
less. -/
theorem streamed_body_announced (hrun : (Process.first cfg).run steps = some p₀)
    (hplanned : Outcome.planned (.ok plan) ∈ p₀.pool.results)
    (haddr : plan.totalLen ≤ maxAddressableLen p₀.cfg.sliceSize)
    (hstream : streamBody configured plan url forwarded p₀ moves = some (stream, p)) :
    stream.bytes.length ≤ plan.bodyLen ∧
      (stream.ending = some .complete → stream.bytes.length = plan.bodyLen) ∧
      ∀ e, stream.ending = some (.failed e) → stream.bytes.length < plan.bodyLen := by
  have hordered := streamBody_ordered (Process.follows_run hrun) hplanned haddr hstream
  have hsent := came_of_sent hordered
  obtain ⟨hfollows, hcfg, hplanned'⟩ := hordered.sound
  have hplan : PlanOk p.pool.hist plan := hfollows.pool.result hplanned'
  have hbytes : stream.bytes.length = ((stream.sent.map Prod.fst).map (plan.share p₀.cfg)).sum := by
    rw [BodyStream.bytes, List.length_flatten, List.map_map, List.map_map]
    congr 1
    refine List.map_congr_left fun t ht => ?_
    obtain ⟨result, -, hbind⟩ := hsent t ht
    cases result with
    | error e => cases hbind
    | ok value => exact length_of_piece hbind
  have htotal : stream.bytes.length +
      ((stream.window.map Prod.fst ++ stream.todo).map (plan.share p₀.cfg)).sum =
        plan.bodyLen := by
    rw [← sum_shares hplan haddr, ← hordered.items, hbytes, List.append_assoc,
      ← List.sum_append, ← List.map_append]
  refine ⟨by omega, fun hcomplete => ?_, fun e hfailed => ?_⟩
  · obtain ⟨hwindow, htodo⟩ := hordered.complete hcomplete
    simpa [hwindow, htodo] using htotal
  · obtain ⟨index, tid, rest, hwindow, -⟩ := hordered.failed e hfailed
    have hindex : index ∈ indices p₀.cfg plan := by
      rw [← hordered.items, hwindow]
      simp
    have hpos := share_pos hplan haddr hindex
    rw [hwindow, List.map_cons, List.cons_append, List.map_cons, List.sum_cons] at htotal
    dsimp only at htotal
    omega

/-- Two slices of a byte each, and the two bytes that were announced. -/
theorem Scenario.streamed_body_announced_split : ∃ p₀ stream p,
    (Process.first config).run splitRequest = some p₀ ∧
      streamBody 2 splitPlan Scenario.url [] p₀ outOfOrder = some (stream, p) ∧
      (Outcome.planned (.ok splitPlan) ∈ p₀.pool.results ∧
        splitPlan.totalLen ≤ maxAddressableLen p₀.cfg.sliceSize ∧
        stream.ending = some .complete) ∧
      stream.bytes.length = splitPlan.bodyLen := by
  obtain ⟨p₀, stream, p, hrun, hstream, hall⟩ := exists_streamed (Process.first config)
    splitRequest 2 splitPlan outOfOrder
    (fun p₀ stream _ => Outcome.planned (.ok splitPlan) ∈ p₀.pool.results ∧
      splitPlan.totalLen ≤ maxAddressableLen p₀.cfg.sliceSize ∧
      stream.ending = some .complete) (by decide +kernel)
  exact ⟨p₀, stream, p, hrun, hstream, hall,
    (streamed_body_announced hrun hall.1 hall.2.1 hstream).2.1 hall.2.2⟩

end

end Cachic
