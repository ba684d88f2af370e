import Cachic.Orchestrator.Process
import Cachic.Proxy.Server

/-!
# Changing the slice size over stored slices

A slice is found by its object, its generation and its index.  The slice size is
not part of the key, so what index 1 means depends on the size the slice was
stored at.  The guard file keeps one data directory to one size, and a forced
start is the way around it.

`responses_exact` follows an object that never changes over any number of process
lifetimes: as long as no forced start changes the size over stored slices, every
response whose slices all arrived carries exactly the bytes it announces.
`response_after_forced_start` is what a forced start over a stored slice does.
-/

namespace Cachic

open Range Tiling ActionLang

/-- An answer of an origin whose object is `content`.  A 206 names the object's length
and carries the bytes that were asked for, unless it breaks off; another success to a
ranged request names the length too, if it names one; a stream is the content, or the
start of it when it breaks off. -/
def Faithful (content : List UInt8) (x : Exchange) : Prop :=
  isSuccess x.raw.status = true →
    match x.request.range with
    | some (start, stop) =>
        if x.raw.status = 206 then
          x.raw.head.contentRangeTotal = some content.length ∧
            (x.raw.failure = none → x.raw.chunks.flatten = window content start (stop + 1))
        else ∀ n ∈ x.raw.head.contentLength, n = content.length
    | none =>
        x.raw.chunks.flatten <+: content ∧
          (x.raw.failure = none → x.raw.chunks.flatten = content)

instance (content : List UInt8) (x : Exchange) : Decidable (Faithful content x) := by
  unfold Faithful
  split <;> infer_instance

/-- Every answer about the object was `Faithful` to one content. -/
def Unchanging (content : List UInt8) (object : ObjectId) (h : Hist) : Prop :=
  ∀ x ∈ exchanges h, x.purpose.object = object → Faithful content x

instance (content : List UInt8) (object : ObjectId) (h : Hist) :
    Decidable (Unchanging content object h) :=
  inferInstanceAs (Decidable (∀ x ∈ exchanges h, _ → _))

section

variable {content : List UInt8} {object : ObjectId} {h : Hist}

/-- What a ranged request was answered with. -/
theorem Unchanging.answered (hu : Unchanging content object h) {purpose : Purpose}
    {url : String} {start stop : ℕ} {response : UpstreamResponse}
    (ha : Answered h purpose url start stop response) (hobject : purpose.object = object) :
    (response.status = 206 ∧ response.contentRangeTotal = some content.length ∧
        response.body = window content start (stop + 1)) ∨
      (response.status ≠ 206 ∧ response.body = [] ∧
        ∀ n ∈ response.contentLength, n = content.length) := by
  obtain ⟨client, headers, raw, hmem, hrecv⟩ := ha
  obtain ⟨hstatus, hheaders, hsuccess, hbody⟩ := receive_ok hrecv
  have hfaithful := hu _ (mem_exchanges hmem) hobject hsuccess
  simp only [contentRangeTotal_head hheaders, contentLength_head hheaders] at hfaithful
  by_cases h206 : raw.status = 206
  · rw [if_pos h206] at hfaithful hbody
    have hwhole := failure_of_receive_ok hrecv h206
    exact .inl ⟨hstatus.trans h206, hfaithful.1, hbody.trans (hfaithful.2 hwhole)⟩
  · rw [if_neg h206] at hfaithful hbody
    exact .inr ⟨hstatus ▸ h206, hbody, hfaithful⟩

/-- Metadata in use has the object's length. -/
theorem Recorded.length (hu : Unchanging content object h) {info : ObjectMeta}
    (hr : Recorded h object info) : info.totalLen = content.length := by
  obtain ⟨c, -, ⟨-, -, url, hanswered, hshape⟩, hobject, now, seen, rfl⟩ := hr
  cases hranges : c.probed.noRanges with
  | true =>
      rw [hranges] at hshape
      obtain ⟨hstatus, hlen⟩ := shape_noRanges hshape
      rcases hu.answered hanswered hobject with ⟨h206, -⟩ | ⟨-, -, hlength⟩
      · exact absurd h206 hstatus
      · exact hlength _ hlen
  | false =>
      rw [hranges] at hshape
      obtain ⟨hstatus, hlen⟩ := shape_ranges hshape
      rcases hu.answered hanswered hobject with ⟨-, htotal, -⟩ | ⟨hnot, -⟩
      · exact Option.some.inj (hlen.symm.trans htotal)
      · exact absurd hstatus hnot

/-- A stored slice is the content's tile at the size it was stored at. -/
theorem Provenance.tile (hu : Unchanging content object h) {key : SliceKey} {value : SliceValue}
    {writer : Writer} (hp : Provenance h key value writer) (hobject : key.object = object)
    (hcount : content.length ≤ 2 ^ 32 * value.header.sliceSize) :
    value.payload = Tiling.tile content value.header.sliceSize key.index := by
  cases hp with
  | @probe c now hc hjust hranges =>
      obtain ⟨hvalid, -, url, hanswered, hshape⟩ := hjust
      rw [hranges] at hshape
      rcases hu.answered hanswered hobject with ⟨-, -, hbody⟩ | ⟨hnot, -⟩
      · exact hbody.trans (window_slice _ hvalid.pos _)
      · exact absurd (shape_ranges hshape).1 hnot
  | @fetch object' info sliceSize index url response hrec hranges hvalid hindex hin ha hmatch
      hlen =>
      subst hobject
      have htotal := hrec.length hu
      rw [htotal] at hin hlen ha
      rcases hu.answered ha rfl with ⟨-, -, hbody⟩ | ⟨-, hnil, -⟩
      · exact hbody.trans (window_sliceExtent hvalid.pos (hvalid.offset_lt hindex) hin)
      · -- a slice inside the object is not empty, so no other answer passes the length check
        rw [hnil, sliceExtent_len hvalid.pos (hvalid.offset_lt hindex) hin, add_mul] at hlen
        have hpos := hvalid.pos
        simp only [List.length_nil] at hlen
        omega
  | @fill object' info sliceSize piece raw hrec hranges hvalid hstreamed hin hpiece =>
      subst hobject
      obtain ⟨url, headers, hmem, hrefusal⟩ := hstreamed
      have hsuccess : isSuccess raw.status = true := by
        unfold refusal at hrefusal
        grind
      obtain ⟨hstart, hwhole⟩ := hu _ (mem_exchanges hmem) rfl hsuccess
      have hpiece_lt : piece < 2 ^ 32 :=
        Nat.lt_of_mul_lt_mul_right (lt_of_lt_of_le hin (le_trans hstart.length_le hcount))
      simp only [headerFor, Nat.mod_eq_of_lt hpiece_lt]
      rcases hpiece with hreceived | hcomplete
      · obtain ⟨rest, hcontent⟩ := hstart
        rw [← hcontent, tile_append_left hreceived]
      · rw [hwhole hcomplete]

end

/-- **One slice size for each data directory keeps responses exact.**  For an object
that never changes and any sequence of process lifetimes: a slice returned for a
plan was stored at the running size, and a response whose slices all arrived
carries exactly the bytes its range names. -/
theorem responses_exact {content : List UInt8} {object : ObjectId} {cfg : Config} {p : Process}
    {steps : List Process.Step}
    (hkeep : Process.Along Process.KeepsSize (Process.first cfg) steps)
    (hrun : (Process.first cfg).run steps = some p)
    (hunchanging : Unchanging content object p.pool.hist)
    (hcount : content.length ≤ 2 ^ 32 * p.cfg.sliceSize) {plan : Plan}
    (hplanned : Outcome.planned (.ok plan) ∈ p.pool.results) (hobject : plan.object = object) :
    (∀ index value, Outcome.sliced plan index (.ok value) ∈ p.pool.results →
      value.header.sliceSize = p.cfg.sliceSize) ∧
    ∀ url value, (∀ index ∈ indices p.cfg plan,
        Outcome.sliced plan index (.ok (value index)) ∈ p.pool.results) →
      Body.ofSlices p.cfg plan url value (indices p.cfg plan) =
        { sent := window content plan.wanted.start (plan.wanted.stop + 1), failure := none } := by
  have hsound := Process.sound_run hkeep hrun
  have hplan : PlanOk p.pool.hist plan := hsound.follows.pool.result hplanned
  have htotal : plan.totalLen = content.length :=
    hplan.totalLen.trans ((hobject ▸ hplan.recorded).length hunchanging)
  refine ⟨fun index value hslice => (hsound.follows.pool.result hslice).2.1, ?_⟩
  intro url value hslices
  refine Body.ofSlices_exact htotal hplan.wanted hcount fun index hindex => ?_
  obtain ⟨-, hsize, writer, hprov⟩ := hsound.follows.pool.result (hslices index hindex)
  have hpayload := hprov.tile hunchanging hobject (hsize ▸ hcount)
  rw [hsize] at hpayload
  exact hpayload

namespace Scenario

open Process

/-- A one-byte object is stored, the process is started again at the same size, and
the slice is returned. -/
def sameSize : List Step :=
  coldRequest 0 "bytes=0-" (reply "\"v1\"" "bytes 0-0/1" [1]) 1 ++
    [.restart config false [(⟨object, 0, 0⟩, stored "\"v1\"" 1 0 [1])]] ++
    warmRequest 0 "bytes=0-" 1 ++ fetch 1 (plan "\"v1\"" 1 0 0 0 .hit) 0 [.go]

theorem responses_exact_sameSize :
    ∃ p, (first config).run sameSize = some p ∧
      (Unchanging [1] object p.pool.hist ∧ [(1 : UInt8)].length ≤ 2 ^ 32 * p.cfg.sliceSize ∧
        Outcome.planned (.ok (plan "\"v1\"" 1 0 0 0 .hit)) ∈ p.pool.results ∧
        ∀ index ∈ indices p.cfg (plan "\"v1\"" 1 0 0 0 .hit),
          Outcome.sliced (plan "\"v1\"" 1 0 0 0 .hit) index
            (.ok (stored "\"v1\"" 1 0 [1])) ∈ p.pool.results) ∧
      Body.ofSlices p.cfg (plan "\"v1\"" 1 0 0 0 .hit) url (fun _ => stored "\"v1\"" 1 0 [1])
          (indices p.cfg (plan "\"v1\"" 1 0 0 0 .hit)) =
        { sent := window [1] 0 1, failure := none } := by
  obtain ⟨p, hrun, hunchanging, hcount, hplanned, hslices⟩ := exists_run (first config) sameSize
    (fun p => Unchanging [1] object p.pool.hist ∧
      [(1 : UInt8)].length ≤ 2 ^ 32 * p.cfg.sliceSize ∧
      Outcome.planned (.ok (plan "\"v1\"" 1 0 0 0 .hit)) ∈ p.pool.results ∧
      ∀ index ∈ indices p.cfg (plan "\"v1\"" 1 0 0 0 .hit),
        Outcome.sliced (plan "\"v1\"" 1 0 0 0 .hit) index
          (.ok (stored "\"v1\"" 1 0 [1])) ∈ p.pool.results) (by decide +kernel)
  exact ⟨p, hrun, ⟨hunchanging, hcount, hplanned, hslices⟩,
    (responses_exact (along_keepsSize (by decide)) hrun hunchanging hcount hplanned rfl).2 url
      (fun _ => stored "\"v1\"" 1 0 [1]) hslices⟩

/-- The same settings at a slice size of 8 KiB. -/
def wideConfig : Config :=
  { config with sliceSize := 8192, sliceSize_valid := ⟨by decide, ⟨13, rfl⟩, by decide⟩ }

/-- An object of 8193 bytes, all zero but the last. -/
def zeros : List UInt8 := List.replicate 8192 0 ++ [1]

/-- The answer to a request for the last byte. -/
def lastByte : RawResponse := raw "\"v1\"" "bytes 8192-8192/8193" [1]

/-- Slice 1 as it is stored at 8 KiB. -/
def wideSlice : SliceValue where
  header := headerFor (info "\"v1\"" 8193 0) 8192
  payload := [1]

/-- The last byte is fetched at 8 KiB.  A forced start then goes on at 4 KiB, and a
client asks for the byte at 4096. -/
def forcedStart : List Step :=
  coldRequest 0 "bytes=8192-8192" (.reply (.ok lastByte)) 1 ++
    [.restart config true [(⟨object, 0, 1⟩, wideSlice)]] ++
    warmRequest 0 "bytes=4096-4096" 1 ++ fetch 1 (plan "\"v1\"" 8193 0 4096 4096 .hit) 1 [.go]

/-- The client is sent the last byte instead. -/
theorem response_after_forced_start :
    ∃ p, (first wideConfig).run forcedStart = some p ∧ Unchanging zeros object p.pool.hist ∧
      Outcome.planned (.ok (plan "\"v1\"" 8193 0 4096 4096 .hit)) ∈ p.pool.results ∧
      Outcome.sliced (plan "\"v1\"" 8193 0 4096 4096 .hit) 1 (.ok wideSlice) ∈ p.pool.results ∧
      Body.ofSlices p.cfg (plan "\"v1\"" 8193 0 4096 4096 .hit) url (fun _ => wideSlice)
          (indices p.cfg (plan "\"v1\"" 8193 0 4096 4096 .hit)) =
        { sent := [1], failure := none } ∧
      window zeros 4096 4097 = [0] := by
  obtain ⟨p, hrun, hexchanges, hplanned, hslice, hbody⟩ := exists_run (first wideConfig) forcedStart
    (fun p => exchanges p.pool.hist = [⟨.probe object 1,
        { url := url, range := some (8192, 16383), headers := [] }, lastByte⟩] ∧
      Outcome.planned (.ok (plan "\"v1\"" 8193 0 4096 4096 .hit)) ∈ p.pool.results ∧
      Outcome.sliced (plan "\"v1\"" 8193 0 4096 4096 .hit) 1 (.ok wideSlice) ∈ p.pool.results ∧
      Body.ofSlices p.cfg (plan "\"v1\"" 8193 0 4096 4096 .hit) url (fun _ => wideSlice)
          (indices p.cfg (plan "\"v1\"" 8193 0 4096 4096 .hit)) =
        { sent := [1], failure := none }) (by decide +kernel)
  have hrep : (List.replicate 8192 (0 : UInt8)).length = 8192 := List.length_replicate
  have hlen : zeros.length = 8193 := by rw [zeros, List.length_append, hrep]; rfl
  have htotal : lastByte.head.contentRangeTotal = some 8193 := by decide +kernel
  have hlast : window zeros 8192 16384 = [1] := by
    rw [window_of_length_le (by omega), zeros, List.drop_left' hrep]
  have hfirst : window zeros 4096 4097 = [0] := by
    rw [window, zeros, List.take_append_of_le_length (by omega), List.take_replicate,
      List.drop_replicate]
    rfl
  refine ⟨p, hrun, ?_, hplanned, hslice, hbody, hfirst⟩
  rw [Unchanging, hexchanges]
  intro x hx _ _
  obtain rfl := List.mem_singleton.mp hx
  exact ⟨hlen ▸ htotal, fun _ => hlast.symm⟩

end Scenario

end Cachic
