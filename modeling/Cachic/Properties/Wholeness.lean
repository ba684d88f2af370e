import Cachic.Orchestrator.Process

/-!
# Whole slices

A slice that was stored short is never fetched again: later reads find it.  Of the
three writers only the fetch behind `slice` compares the body with the slice's
extent, and none of them looks at the first byte a `Content-Range` names.  So
whether a stored slice is whole is decided by the answers alone:
`stored_slices_whole` says which answers keep every slice whole, and
`probe_stores_short_slice` is an answer that does not.
-/

namespace Cachic

open Range Tiling CharText ActionLang

/-- The first byte a `Content-Range: bytes a-b/total` names. -/
def UpstreamResponse.contentRangeStart (response : UpstreamResponse) : Option ℕ := do
  let value ← response.header "content-range"
  let span ← stripStart "bytes ".toList (trim value.toList)
  let (first, _) ← splitOnce '-' span
  parseUnsigned (2 ^ 64) (trim first)

/-- The number of bytes received. -/
def RawResponse.length (raw : RawResponse) : ℕ := raw.chunks.flatten.length

/-- The answers that keep slices whole.

* A 206 to a probe names the first byte asked for and carries the slice's whole
  extent, by the length it reports.
* A 206 to a slice fetch names the first byte asked for.
* A stream for a fill has the object's length, or less when it breaks off, and the
  object has no more than `2 ^ 32` slices. -/
def wholeAnswer : Event Act Act.Res → Bool
  | ⟨.send (.probe _ index) request, .ok raw⟩ =>
      match request.range, raw.head.contentRangeTotal with
      | some (start, stop), some total =>
          raw.status ≠ 206 || (raw.head.contentRangeStart = some start &&
            raw.length = (sliceExtent index (stop + 1 - start) total).len)
      | _, _ => true
  | ⟨.send (.slice _) request, .ok raw⟩ =>
      match request.range with
      | some (start, _) => raw.status ≠ 206 || raw.head.contentRangeStart = some start
      | none => true
  | ⟨.send (.fill _ header) _, .ok raw⟩ =>
      !isSuccess raw.status || (raw.length ≤ header.totalLen &&
        (raw.failure.isSome || raw.length = header.totalLen) &&
        header.totalLen ≤ 2 ^ 32 * header.sliceSize)
  | _ => true

/-- The response a slice was written from. -/
def Writer.response : Writer → Option UpstreamResponse
  | .probe response => some response
  | .fetch response => some response
  | .fill => none

/-- A stored slice has the length of its extent, and a 206 it was written from
starts where the extent starts. -/
structure WholeSlice (key : SliceKey) (value : SliceValue) (writer : Writer) : Prop where
  length : value.payload.length =
    (sliceExtent key.index value.header.sliceSize value.header.totalLen).len
  start : ∀ response, writer.response = some response → response.status = 206 →
    response.contentRangeStart =
      some (sliceExtent key.index value.header.sliceSize value.header.totalLen).start

theorem contentRangeStart_head {raw : RawResponse} {response : UpstreamResponse}
    (h : response.headers = raw.headers) :
    raw.head.contentRangeStart = response.contentRangeStart := by
  simp only [UpstreamResponse.contentRangeStart, UpstreamResponse.header, RawResponse.head, h]

/-- The slice a probe stores from a whole answer is whole. -/
theorem wholeSlice_probe {h : Hist} (hwhole : ∀ e ∈ h, wholeAnswer e = true) {c : Commit}
    (now : ℕ) (hjust : c.Justified h) (hranges : c.probed.noRanges = false) :
    WholeSlice { object := c.object, generation := c.generation, index := c.probed.index }
      { header := headerFor (c.probed.info c.generation now) c.probed.sliceSize
        payload := c.probed.response.body }
      (.probe c.probed.response) := by
  obtain ⟨hvalid, hindex, url, ⟨client, headers, raw, hmem, hrecv⟩, hshape⟩ := hjust
  rw [hranges] at hshape
  obtain ⟨hstatus, htotal⟩ := shape_ranges hshape
  obtain ⟨hstatus', hheaders, -, hbody⟩ := receive_ok hrecv
  have hraw : raw.status = 206 := hstatus'.symm.trans hstatus
  have hpos := hvalid.atLeast
  have hsize : c.probed.index * c.probed.sliceSize + c.probed.sliceSize - 1 + 1 -
      c.probed.index * c.probed.sliceSize = c.probed.sliceSize := by omega
  have hanswer := hwhole _ hmem
  simp only [wholeAnswer, contentRangeTotal_head hheaders, htotal, hraw, ne_eq, not_true_eq_false,
    decide_false, Bool.false_or, hsize, Bool.and_eq_true, decide_eq_true_eq,
    contentRangeStart_head hheaders] at hanswer
  obtain ⟨hstart, hlen⟩ := hanswer
  refine ⟨?_, ?_⟩
  · rw [hbody, if_pos hraw]
    exact hlen
  · rintro response hresponse -
    cases hresponse
    exact hstart

/-- The slice a fetch stores is of the right length whatever was answered, and
starts where it should when the answer says so. -/
theorem wholeSlice_fetch {h : Hist} (hwhole : ∀ e ∈ h, wholeAnswer e = true) {key : SliceKey}
    {info : ObjectMeta} {sliceSize : ℕ} {url : String} {response : UpstreamResponse}
    (hanswered : Answered h (.slice key) url (sliceExtent key.index sliceSize info.totalLen).start
      (sliceExtent key.index sliceSize info.totalLen).stop response)
    (hlen : response.body.length = (sliceExtent key.index sliceSize info.totalLen).len) :
    WholeSlice key { header := headerFor info sliceSize, payload := response.body }
      (.fetch response) := by
  obtain ⟨client, headers, raw, hmem, hrecv⟩ := hanswered
  obtain ⟨hstatus, hheaders, -, -⟩ := receive_ok hrecv
  refine ⟨hlen, ?_⟩
  rintro response' hresponse h206
  cases hresponse
  have hanswer := hwhole _ hmem
  simp only [wholeAnswer, ← hstatus, h206, ne_eq, not_true_eq_false, decide_false,
    Bool.false_or, decide_eq_true_eq, contentRangeStart_head hheaders] at hanswer
  exact hanswer

/-- The pieces a fill cuts off a stream of the right length are whole. -/
theorem wholeSlice_fill {h : Hist} (hwhole : ∀ e ∈ h, wholeAnswer e = true) {object : ObjectId}
    {info : ObjectMeta} {sliceSize piece : ℕ} {raw : RawResponse}
    (hvalid : ValidSliceSize sliceSize)
    (hstreamed : Streamed h object (headerFor info sliceSize) raw)
    (hin : piece * sliceSize < raw.chunks.flatten.length)
    (hpiece : (piece + 1) * sliceSize ≤ raw.chunks.flatten.length ∨ raw.failure = none) :
    WholeSlice { object := object, generation := info.generation, index := piece % 2 ^ 32 }
      { header := headerFor info sliceSize, payload := tile raw.chunks.flatten sliceSize piece }
      .fill := by
  obtain ⟨url, headers, hmem, hrefusal⟩ := hstreamed
  have hsuccess : isSuccess raw.status = true := by
    unfold refusal at hrefusal
    grind
  have hanswer := hwhole _ hmem
  simp only [wholeAnswer, hsuccess, Bool.not_true, Bool.false_or, Bool.and_eq_true,
    Bool.or_eq_true, decide_eq_true_eq] at hanswer
  obtain ⟨⟨hle, hend⟩, hcount⟩ := hanswer
  simp only [headerFor, RawResponse.length] at hle hend hcount
  have hpiece_lt : piece < 2 ^ 32 :=
    Nat.lt_of_mul_lt_mul_right (lt_of_lt_of_le hin (le_trans hle hcount))
  have hmul : (piece + 1) * sliceSize = piece * sliceSize + sliceSize := by ring
  -- a stream that broke off stored only slices it had received whole
  have hsame : min ((piece + 1) * sliceSize) info.totalLen =
      min ((piece + 1) * sliceSize) raw.chunks.flatten.length := by
    rcases hpiece with hreceived | hcomplete
    · omega
    · rcases hend with hbroken | heq
      · simp [hcomplete] at hbroken
      · rw [heq]
  refine ⟨?_, fun response hresponse => by cases hresponse⟩
  simp only [headerFor, Nat.mod_eq_of_lt hpiece_lt]
  rw [sliceExtent_len hvalid.pos (hvalid.offset_lt hpiece_lt) (by omega), hsame, tile,
    length_window]

/-- **Whole answers keep every stored slice whole**, whichever of the three writers
stored it, in every run. -/
theorem stored_slices_whole {cfg : Config} {p : Process} {steps : List Process.Step}
    (hrun : (Process.first cfg).run steps = some p)
    (hwhole : ∀ e ∈ p.pool.hist, wholeAnswer e = true) :
    ∀ e ∈ p.pool.hist, ∀ key value writer, storedBy e = some (key, value, writer) →
      WholeSlice key value writer := by
  intro e he key value writer hstored
  have hprov := ((Process.follows_run hrun).pool.inv.stored e he key value writer hstored).2
  cases hprov with
  | probe now hc hjust hranges => exact wholeSlice_probe hwhole now hjust hranges
  | fetch hrec hranges hvalid hindex hinObj hanswered hmatch hlen =>
      exact wholeSlice_fetch hwhole hanswered hlen
  | fill hrec hranges hvalid hstreamed hin hpiece =>
      exact wholeSlice_fill hwhole hvalid hstreamed hin hpiece

namespace Scenario

open Process

/-- A probe answered with the one byte its slice has. -/
theorem stored_slices_whole_probe :
    ∃ p, (first config).run
        (coldRequest 0 "bytes=4096-" (reply "\"v1\"" "bytes 4096-4096/4097" [1]) 1) = some p ∧
      ((∀ e ∈ p.pool.hist, wholeAnswer e = true) ∧
        ∃ e ∈ p.pool.hist, (storedBy e).isSome = true) ∧
      ∀ e ∈ p.pool.hist, ∀ key value writer, storedBy e = some (key, value, writer) →
        WholeSlice key value writer := by
  obtain ⟨p, hrun, hwhole, hstored⟩ := exists_run (first config)
    (coldRequest 0 "bytes=4096-" (reply "\"v1\"" "bytes 4096-4096/4097" [1]) 1)
    (fun p => (∀ e ∈ p.pool.hist, wholeAnswer e = true) ∧
      ∃ e ∈ p.pool.hist, (storedBy e).isSome = true) (by decide +kernel)
  exact ⟨p, hrun, ⟨hwhole, hstored⟩, stored_slices_whole hrun hwhole⟩

/-- The origin answers a probe of slice 0 of an 8 KiB object with a single byte, and
the probe stores it as the slice. -/
theorem probe_stores_short_slice :
    ∃ p, (first config).run
        (coldRequest 0 "bytes=0-4095" (reply "\"v1\"" "bytes 0-4095/8192" [7]) 1) = some p ∧
      ∃ e ∈ p.pool.hist, ∃ writer,
        storedBy e = some (⟨object, 0, 0⟩, stored "\"v1\"" 8192 0 [7], writer) ∧
        ¬ WholeSlice ⟨object, 0, 0⟩ (stored "\"v1\"" 8192 0 [7]) writer := by
  obtain ⟨p, hrun, e, he, hkey⟩ := exists_run (first config)
    (coldRequest 0 "bytes=0-4095" (reply "\"v1\"" "bytes 0-4095/8192" [7]) 1)
    (fun p => ∃ e ∈ p.pool.hist, (storedBy e).map (fun x => (x.1, x.2.1)) =
      some (⟨object, 0, 0⟩, stored "\"v1\"" 8192 0 [7])) (by decide +kernel)
  rw [Option.map_eq_some_iff] at hkey
  obtain ⟨⟨key, value, writer⟩, hstored, hparts⟩ := hkey
  simp only [Prod.mk.injEq] at hparts
  obtain ⟨rfl, rfl⟩ := hparts
  refine ⟨p, hrun, e, he, writer, hstored, fun hwhole => ?_⟩
  have hlen : (1 : ℕ) = 4096 := hwhole.length
  omega

end Scenario

end Cachic
