import Cachic.Orchestrator.Cutting
import Cachic.Orchestrator.Process

/-!
# The slices of a stream

A fill asks for the stream, and what it then stores and publishes is decided by the body that
arrives, chunk by chunk in whatever chunks.  A whole body is stored in pieces of a slice each
and a shorter last one; of a body that breaks off, only the whole slices are
(`fill_cuts_stream`).
-/

namespace Cachic

open Range Tiling ActionLang ActionLang.Prog

variable {cfg : Config} {plan : Plan} {fill : FillId}

/-- The successive pieces of `size` bytes of a body; the last may be shorter, and none is
empty. -/
structure Pieces (size : ℕ) (body : List UInt8) (pieces : List (List UInt8)) : Prop where
  flatten : pieces.flatten = body
  full : ∀ piece ∈ pieces.dropLast, piece.length = size
  last : ∀ piece ∈ pieces.getLast?, 0 < piece.length ∧ piece.length ≤ size

/-- The pieces are stored under the indices `0`, `1`, ..., and each is published before the
next is stored. -/
def landings (cfg : Config) (plan : Plan) (fill : FillId) (pieces : List (List UInt8)) :
    List (Event Act Act.Res) :=
  (pieces.mapIdx (landing cfg plan fill)).flatten

theorem landings_map_range (f : ℕ → List UInt8) (count : ℕ) :
    landings cfg plan fill ((List.range count).map f) =
      (List.range' 0 count).flatMap fun i => landing cfg plan fill i (f i) := by
  rw [landings, ← List.range_eq_range', List.flatMap_def]
  congr 1
  apply List.ext_getElem
  · simp
  · intro i h₁ h₂
    simp

/-- Tiles that start inside a body are pieces of it. -/
theorem pieces_tiles {size count : ℕ} {body : List UInt8} (hsize : 0 < size)
    (hcount : ∀ i < count, i * size < body.length) :
    Pieces size (body.take (count * size)) ((List.range count).map (tile body size)) where
  flatten := flatten_range_tiles size count
  full := by
    cases count with
    | zero => exact fun piece hpiece => absurd hpiece List.not_mem_nil
    | succ count =>
        rw [List.range_succ, List.map_append, List.map_singleton, List.dropLast_concat]
        intro piece hpiece
        obtain ⟨i, hi, rfl⟩ := List.mem_map.mp hpiece
        have hnext := hcount (i + 1) (Nat.succ_lt_succ (List.mem_range.mp hi))
        rw [add_mul, one_mul] at hnext
        rw [length_tile]
        omega
  last := by
    cases count with
    | zero => exact fun piece hpiece => by cases hpiece
    | succ count =>
        rw [List.range_succ, List.map_append, List.map_singleton, List.getLast?_concat]
        rintro piece ⟨⟩
        have hlast := hcount count (Nat.lt_succ_self count)
        rw [length_tile]
        omega

/-- All pieces of a body that is a number of whole slices are whole. -/
theorem full_tiles {size count : ℕ} {body : List UInt8} (hcount : count * size ≤ body.length) :
    ∀ piece ∈ (List.range count).map (tile body size), piece.length = size := by
  intro piece hpiece
  obtain ⟨i, hi, rfl⟩ := List.mem_map.mp hpiece
  have hend : (i + 1) * size ≤ count * size :=
    Nat.mul_le_mul_right size (List.mem_range.mp hi)
  rw [add_mul, one_mul] at hend
  rw [length_tile]
  omega

/-! ## The run of a fill -/

section Run

variable {url : String} {headers : HeaderMap} {s s' : Shared} {trace : List (Event Act Act.Res)}
  {raw : RawResponse}

theorem cutStream_cuts (cfg : Config) (plan : Plan) (url : String) (fill : FillId)
    (chunks : List (List UInt8)) (failure : Option TransportError) :
    (cutStream cfg plan url fill chunks failure).All fun a => a.cuts = true := by
  refine .bind (fillChunks_cuts plan fill cfg.sliceSize chunks [] 0) fun left => ?_
  cases failure with
  | some source => trivial
  | none =>
      dsimp only
      split
      · trivial
      · exact .perform_bind rfl fun _ => .perform_bind rfl fun _ => trivial

theorem fetchStream_of_answer {purpose : Purpose}
    {answer : Except UpstreamError (List (List UInt8) × Option TransportError)}
    (hrun : Runs exec (fetchStream purpose url headers) s trace answer s')
    (hanswer : ⟨.send purpose { url := url, range := none, headers := headers }, .ok raw⟩ ∈ trace)
    (hraw : refusal url raw = none) : answer = .ok (raw.chunks, raw.failure) := by
  obtain ⟨_, resolved, s₁, rest₁, -, rfl, hrest₁⟩ := runs_perform_bind_iff.mp hrun
  have hlater := (List.mem_cons.mp hanswer).resolve_left fun heq => by cases heq
  cases resolved with
  | error e =>
      obtain ⟨rfl, -, -⟩ := runs_ret_iff.mp hrest₁
      cases hlater
  | ok _ =>
      obtain ⟨_, reply, s₂, rest₂, -, rfl, hrest₂⟩ := runs_perform_bind_iff.mp hrest₁
      cases reply with
      | error source =>
          obtain ⟨rfl, -, -⟩ := runs_ret_iff.mp hrest₂
          cases List.mem_singleton.mp hlater
      | ok raw' =>
          dsimp only at hrest₂
          split at hrest₂
          case h_1 e hrefused =>
              obtain ⟨rfl, -, -⟩ := runs_ret_iff.mp hrest₂
              cases List.mem_singleton.mp hlater
              rw [hraw] at hrefused
              cases hrefused
          case h_2 =>
              obtain ⟨rfl, rfl, -⟩ := runs_ret_iff.mp hrest₂
              cases List.mem_singleton.mp hlater
              rfl

/-- A fill that was answered cuts what it was answered. -/
theorem runs_runFill {result : Except OrchestratorError ℕ}
    (hrun : Runs exec (runFill cfg plan url headers fill) s trace result s')
    (hanswer : ⟨.send (.fill plan.object (headerFor plan.info cfg.sliceSize))
      { url := url, range := none, headers := headers }, .ok raw⟩ ∈ trace)
    (hraw : refusal url raw = none) :
    ∃ s₁ asked cut, trace = asked ++ cut ∧
      (∀ e ∈ asked, e.1.asks (.fill plan.object (headerFor plan.info cfg.sliceSize)) = true) ∧
      Runs exec (cutStream cfg plan url fill raw.chunks raw.failure) s₁ cut result s' := by
  rw [runFill_eq_bind] at hrun
  obtain ⟨answer, s₁, asked, cut, rfl, hfetch, hcut⟩ := runs_bind_iff.mp hrun
  -- nothing is asked for while the stream is cut
  have hfirst := (List.mem_append.mp hanswer).resolve_right fun hlater => by
    cases answer with
    | error e =>
        obtain ⟨rfl, -, -⟩ := runs_ret_iff.mp hcut
        cases hlater
    | ok stream =>
        have hcuts := (cutStream_cuts cfg plan url fill stream.1 stream.2).of_mem hcut hlater
        cases hcuts
  obtain rfl := fetchStream_of_answer hfetch hfirst hraw
  exact ⟨s₁, asked, cut, rfl, fun e he => (fetchStream_asks _ url headers).of_mem hfetch he, hcut⟩

/-- A fill can be answered with any stream. -/
theorem exists_runs_runFill (cfg : Config) (plan : Plan) (url : String) (headers : HeaderMap)
    (fill : FillId) (s : Shared) (hraw : refusal url raw = none)
    (hlen : raw.chunks.flatten.length ≤ (2 ^ 32 - 1) * cfg.sliceSize) :
    ∃ trace result s', Runs exec (runFill cfg plan url headers fill) s trace result s' ∧
      ⟨.send (.fill plan.object (headerFor plan.info cfg.sliceSize))
        { url := url, range := none, headers := headers }, .ok raw⟩ ∈ trace := by
  obtain ⟨cut, s', hcut⟩ := @exists_runs_storeTiles cfg plan fill raw.chunks.flatten
    (storedCount cfg raw.chunks.flatten raw.failure) 0 s
  have hstream : Runs exec (cutStream cfg plan url fill raw.chunks raw.failure) s cut
      (cutResult cfg url raw.chunks.flatten raw.failure) s' := by
    rw [cutStream_eq hlen]
    exact runs_bind_iff.mpr ⟨(), s', cut, [], (List.append_nil cut).symm, hcut, .ret _ _⟩
  have hfetch : Runs exec (fetchStream (.fill plan.object (headerFor plan.info cfg.sliceSize)) url
      headers) s [⟨.resolve url, .ok ()⟩,
        ⟨.send (.fill plan.object (headerFor plan.info cfg.sliceSize))
          { url := url, range := none, headers := headers }, .ok raw⟩]
      (.ok (raw.chunks, raw.failure)) s := by
    refine runs_perform_bind_iff.mpr ⟨.resolved (.ok ()), .ok (), s, _, rfl, rfl,
      runs_perform_bind_iff.mpr ⟨.reply (.ok raw), .ok raw, s, [], rfl, rfl, ?_⟩⟩
    simp only [hraw]
    exact .ret _ _
  rw [runFill_eq_bind]
  exact ⟨_, _, s', runs_bind_iff.mpr ⟨_, s, _, cut, rfl, hfetch, hstream⟩, by simp⟩

end Run

/-- **A fill cuts the body, not the chunks.**  Whatever the stream was split into, a whole body
is stored piece by piece, each published before the next is stored; of a body that breaks off
the whole slices are, and nothing of the rest. -/
theorem fill_cuts_stream (cfg : Config) (plan : Plan) (url : String) (headers : HeaderMap)
    (fill : FillId) (s : Shared) {raw : RawResponse} (hraw : refusal url raw = none)
    (hlen : raw.chunks.flatten.length ≤ (2 ^ 32 - 1) * cfg.sliceSize) :
    (∃ trace result s', Runs exec (runFill cfg plan url headers fill) s trace result s' ∧
      ⟨.send (.fill plan.object (headerFor plan.info cfg.sliceSize))
        { url := url, range := none, headers := headers }, .ok raw⟩ ∈ trace) ∧
    ∀ trace result s', Runs exec (runFill cfg plan url headers fill) s trace result s' →
      ⟨.send (.fill plan.object (headerFor plan.info cfg.sliceSize))
        { url := url, range := none, headers := headers }, .ok raw⟩ ∈ trace →
      ∃ asked pieces, trace = asked ++ landings cfg plan fill pieces ∧
        (∀ e ∈ asked, e.1.asks (.fill plan.object (headerFor plan.info cfg.sliceSize)) = true) ∧
        (raw.failure = none → Pieces cfg.sliceSize raw.chunks.flatten pieces ∧
          pieces.length = (raw.chunks.flatten.length + cfg.sliceSize - 1) / cfg.sliceSize ∧
          result = .ok pieces.length) ∧
        ∀ source, raw.failure = some source →
          pieces.flatten <+: raw.chunks.flatten ∧ (∀ piece ∈ pieces, piece.length = cfg.sliceSize) ∧
          pieces.length = raw.chunks.flatten.length / cfg.sliceSize ∧
          result = .error (.upstream (.request url source)) := by
  refine ⟨exists_runs_runFill cfg plan url headers fill s hraw hlen, ?_⟩
  intro trace result s' hrun hanswer
  have hpos := cfg.sliceSize_pos
  obtain ⟨s₁, asked, cut, rfl, hasked, hcut⟩ := runs_runFill hrun hanswer hraw
  rw [cutStream_eq hlen] at hcut
  obtain ⟨_, s₂, tiles, last, rfl, htiles, hlast⟩ := runs_bind_iff.mp hcut
  obtain ⟨rfl, rfl, rfl⟩ := runs_ret_iff.mp hlast
  refine ⟨asked, (List.range (storedCount cfg raw.chunks.flatten raw.failure)).map
    (tile raw.chunks.flatten cfg.sliceSize), ?_, hasked, fun hwhole => ?_, fun source hfailed => ?_⟩
  · rw [landings_map_range, runs_storeTiles htiles, List.append_nil]
  · rw [hwhole, List.length_map, List.length_range]
    have hinside : ∀ i < storedCount cfg raw.chunks.flatten none,
        i * cfg.sliceSize < raw.chunks.flatten.length := by
      intro i hi
      have := (Nat.le_div_iff_mul_le hpos).mp (Nat.succ_le_of_lt hi)
      rw [Nat.succ_mul] at this
      omega
    have hpieces := pieces_tiles hpos hinside
    rw [List.take_of_length_le (length_le_storedCount cfg raw.chunks.flatten)] at hpieces
    exact ⟨hpieces, rfl, rfl⟩
  · rw [hfailed, List.length_map, List.length_range, flatten_range_tiles]
    exact ⟨List.take_prefix _ _, full_tiles (Nat.div_mul_le_self _ _), rfl, rfl⟩

namespace Scenario

/-- A plan for an object of a slice and a bit. -/
def longPlan : Plan := Scenario.plan "\"v1\"" 4200 0 0 4199 .miss

/-- An answer in two chunks, neither of which is a slice. -/
def twoChunks : RawResponse where
  status := 200
  headers := []
  declared := none
  chunks := [List.replicate 4000 1, List.replicate 200 2]
  failure := none

/-- It is cut into a whole slice and what is left. -/
theorem fill_cuts_stream_two_chunks :
    ∃ trace s', Runs exec (runFill config longPlan url [] ⟨object, 0⟩) Shared.init trace (.ok 2)
      s' := by
  obtain ⟨⟨trace, result, s', hrun, hanswer⟩, hevery⟩ := fill_cuts_stream config longPlan url []
    ⟨object, 0⟩ Shared.init (show refusal url twoChunks = none by decide) (by decide +kernel)
  obtain ⟨asked, pieces, -, -, hwhole, -⟩ := hevery trace result s' hrun hanswer
  obtain ⟨-, hlength, rfl⟩ := hwhole rfl
  have htwo : pieces.length = 2 := hlength.trans (by decide +kernel)
  rw [htwo] at hrun
  exact ⟨trace, s', hrun⟩

end Scenario

end Cachic
