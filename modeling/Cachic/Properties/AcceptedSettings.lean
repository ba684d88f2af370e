import Cachic.Config.Settings
import Cachic.Orchestrator.Programs

/-!
# What an accepted configuration can do

Validation, the defaults of the upstream client, the sizing of the store and the read-ahead
report each have a bound of their own.  Over the configurations `validate` accepts, the slice
size is one the orchestrator and the store can work with.  But it may exceed the ceiling of the
client's bodies, and then the answer to a request for a whole slice is refused; and the
read-ahead window has no bound at all, so the report of its memory can wrap.

`accepted_settings_serve` says for which of them neither happens.
-/

namespace Cachic.Settings

open Range

section Accepted

variable {c : Config}

/-- The slice sizes the orchestrator assumes are those that were validated. -/
theorem Config.validSliceSize (h : c.validate = .ok ()) :
    ValidSliceSize c.cacheSliceSize.toNat := by
  obtain ⟨-, -, hleast, hpower, hmost, -⟩ := c.validate_eq_ok_iff.mp h
  exact ⟨hleast, hpower, hmost⟩

/-- A block holds four slices, and sizing it does not wrap. -/
theorem StoreConfig.four_slices_le (h : c.validate = .ok ()) :
    c.cacheSliceSize.toNat * 4 < 2 ^ 64 ∧
      4 * c.cacheSliceSize.toNat ≤ (StoreConfig.fromConfig c).blockBytes := by
  have hmost := (Config.validSliceSize h).atMost
  have hword : c.cacheSliceSize.toNat * 4 < 2 ^ 64 := by omega
  refine ⟨hword, ?_⟩
  rw [StoreConfig.fromConfig, Nat.mod_eq_of_lt hword, Nat.mul_comm]
  exact le_max_right _ _

end Accepted

/-- The limit for the body of a slice. -/
def sliceLimit (sliceSize index total : ℕ) : ℕ :=
  let extent := sliceExtent index sliceSize total
  ClientConfig.default.bodyLimit extent.start extent.stop

section Limits

variable {s : ℕ} (hs : ValidSliceSize s)

include hs

theorem len_le_sliceLimit (hle : s ≤ ClientConfig.default.maxBodyBytes) {index total : ℕ}
    (hindex : index < 2 ^ 32) (hin : index * s < total) :
    (sliceExtent index s total).len ≤ sliceLimit s index total := by
  have hword := hs.offset_lt hindex
  have hpos := hs.pos
  have hlen := sliceExtent_len hpos hword hin
  have hmul : (index + 1) * s = index * s + s := by ring
  have hsize : (sliceExtent index s total).len ≤ s := by
    rw [hlen, hmul]
    omega
  refine ClientConfig.le_bodyLimit ?_ (le_trans hsize hle) ?_
  · rw [hlen, sliceExtent_eq hpos hword hin]
    simp only
    omega
  · exact lt_of_le_of_lt hsize (by have := hs.atMost; omega)

/-- The first slice of an object of one slice is as long as a slice can be. -/
theorem le_of_len_le_sliceLimit (h : (sliceExtent 0 s s).len ≤ sliceLimit s 0 s) :
    s ≤ ClientConfig.default.maxBodyBytes := by
  have hpos := hs.pos
  have hlen : (sliceExtent 0 s s).len = s := by
    rw [sliceExtent_len hpos (hs.offset_lt (by decide)) (by omega)]
    omega
  rw [hlen] at h
  exact le_trans h (min_le_right _ _)

end Limits

/-- **An accepted configuration can serve, up to the client's ceiling.**  Its slice size fits 32
bits, and a block of the store holds four slices of it.  The limit for a slice's body is at
least the slice's length, for every slice of every object, exactly if a slice is no longer than
the default ceiling of 64 MiB, and then an answer with the slice is received; and the memory of
the read-ahead window is reported as it is exactly if it fits 64 bits. -/
theorem accepted_settings_serve (c : Config) (h : c.validate = .ok ()) :
    c.cacheSliceSize.toNat % 2 ^ 32 = c.cacheSliceSize.toNat ∧
    (c.cacheSliceSize.toNat * 4 < 2 ^ 64 ∧
      4 * c.cacheSliceSize.toNat ≤ (StoreConfig.fromConfig c).blockBytes) ∧
    ((∀ total index, total < 2 ^ 64 → index < 2 ^ 32 → index * c.cacheSliceSize.toNat < total →
        (sliceExtent index c.cacheSliceSize.toNat total).len ≤
          sliceLimit c.cacheSliceSize.toNat index total) ↔
      c.cacheSliceSize.toNat ≤ 64 * 1024 * 1024) ∧
    (c.cacheSliceSize.toNat ≤ 64 * 1024 * 1024 →
      ∀ total index url raw, index < 2 ^ 32 → index * c.cacheSliceSize.toNat < total →
        raw.status = 206 → raw.failure = none →
        raw.chunks.flatten.length = (sliceExtent index c.cacheSliceSize.toNat total).len →
        (∀ n ∈ raw.declared, n = raw.chunks.flatten.length) →
        ∃ response, receive ClientConfig.default url
          (sliceExtent index c.cacheSliceSize.toNat total).start
          (sliceExtent index c.cacheSliceSize.toNat total).stop raw = .ok response) ∧
    (c.readaheadBytesPerConnection = c.cacheSliceSize.toNat * c.readaheadSlices.toNat ↔
      c.cacheSliceSize.toNat * c.readaheadSlices.toNat < 2 ^ 64) := by
  have hs := Config.validSliceSize h
  refine ⟨?u32, StoreConfig.four_slices_le h, ⟨fun hall => ?_, fun hle _ _ _ => ?_⟩, ?received,
    ?readahead⟩
  case u32 =>
    have hmost := hs.atMost
    exact Nat.mod_eq_of_lt (by omega)
  · have hpos := hs.pos
    exact le_of_len_le_sliceLimit hs (hall _ 0 c.cacheSliceSize.toNat_lt (by decide) (by omega))
  · exact len_le_sliceLimit hs hle
  case received =>
    intro hle total index url raw hindex hin hstatus hfailure hbody hdeclared
    have hlimit := len_le_sliceLimit hs hle hindex hin
    rw [← hbody] at hlimit
    refine ⟨_, receive_206 hstatus hfailure (fun n hn => ?_) hlimit⟩
    rw [hdeclared n hn]
    exact hlimit
  case readahead =>
    rw [Config.readaheadBytesPerConnection]
    constructor
    · intro heq
      rw [← heq]
      exact Nat.mod_lt _ (by decide)
    · exact Nat.mod_eq_of_lt

namespace Scenario

/-- The defaults, but for the slice size, the buffer pool and the read-ahead. -/
def settings (sliceSize bufferPool readahead : UInt64) : Config where
  cacheDiskSize := 1000 * 1024 * 1024 * 1024
  cacheMemSize := 2 * 1024 * 1024 * 1024
  cacheSliceSize := sliceSize
  cacheFlushers := 4
  cacheBufferPool := bufferPool
  httpPort := 80
  httpsPort := 443
  adminPort := 9090
  upstreamDns := [.v4 { o0 := 1, o1 := 1, o2 := 1, o3 := 1 }]
  upstreamMaxInflight := 256
  readaheadSlices := readahead

/-- The defaults: a block holds four slices, the last slice of an object is received in a body
that breaks off nowhere, and the read-ahead is reported as it is. -/
theorem accepted_settings_serve_defaults :
    4 * 1048576 ≤ (StoreConfig.fromConfig (settings 1048576 134217728 4)).blockBytes ∧
      (sliceExtent 1 1048576 1048580).len ≤ sliceLimit 1048576 1 1048580 ∧
      (∃ response, receive ClientConfig.default "u" (sliceExtent 1 1048576 1048580).start
        (sliceExtent 1 1048576 1048580).stop
        { status := 206, headers := [], declared := some 4, chunks := [[1, 2], [3, 4]],
          failure := none } = .ok response) ∧
      (settings 1048576 134217728 4).readaheadBytesPerConnection = 4194304 := by
  obtain ⟨-, ⟨-, hblock⟩, hlimit, hreceived, hreported⟩ :=
    accepted_settings_serve (settings 1048576 134217728 4) (by decide +kernel)
  refine ⟨hblock, hlimit.mpr (by decide) _ _ (by decide) (by decide) (by decide), ?_,
    hreported.mpr (by decide)⟩
  exact hreceived (by decide) 1048580 1 "u" _ (by decide) (by decide) rfl rfl (by decide)
    (by rintro n ⟨⟩; decide)

/-- An accepted slice size of 128 MiB, of which no whole slice can be received; and an accepted
read-ahead of which the memory is reported as none. -/
theorem accepted_settings_refuse_slice :
    ((settings 134217728 536870912 4).validate = .ok () ∧
      (sliceExtent 0 134217728 134217728).len = 134217728 ∧
      sliceLimit 134217728 0 134217728 = 67108864 ∧
      receive ClientConfig.default "u" 0 134217727
        { status := 206, headers := [], declared := some 134217728, chunks := [],
          failure := none } = .error (.bodyTooLarge "u" 67108864)) ∧
    (settings 1048576 134217728 17592186044416).validate = .ok () ∧
      (settings 1048576 134217728 17592186044416).readaheadBytesPerConnection = 0 := by
  decide +kernel

end Scenario

end Cachic.Settings
