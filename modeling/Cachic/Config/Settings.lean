import Cachic.Config.Guard
import Cachic.Config.Units
import Cachic.Upstream.AddressGuard

/-!
# The configuration of the process

`Config.validate` rejects configurations that cannot work before anything is opened or bound.
Its checks are made in order, and the first that fails is reported.  The fields are those it
reads, as the words they are.

`validate_eq_ok_iff` says what is left of an accepted configuration.
-/

namespace Cachic.Settings

open CharText

structure Config where
  cacheDiskSize : UInt64
  cacheMemSize : UInt64
  cacheSliceSize : UInt64
  cacheFlushers : UInt64
  cacheBufferPool : UInt64
  httpPort : UInt16
  httpsPort : UInt16
  adminPort : UInt16
  upstreamDns : List IpAddr
  upstreamMaxInflight : UInt64
  readaheadSlices : UInt64
  deriving DecidableEq, Repr

inductive ConfigError
  | invalid (setting value requirement : String)
  | ordering (a aValue b bValue : String)
  deriving DecidableEq, Repr

/-- A size as the errors show it. -/
def shown (bytes : UInt64) : String := Units.formatSize bytes.toNat

namespace Config

/-- The smallest slice size that is a tuning and not a mistake. -/
def minSliceSize : ℕ := 4096

/-- Multiplication that stops at the largest 64-bit value. -/
def saturatingMul (a b : ℕ) : ℕ := min (a * b) (2 ^ 64 - 1)

def validate (c : Config) : Except ConfigError Unit :=
  if c.cacheFlushers = 0 then
    .error (.invalid "CACHE_FLUSHERS" (toString c.cacheFlushers.toNat)
      ("at least 1: with no flushers the disk tier can never drain and every write is" ++
        "                  dropped"))
  else if c.cacheBufferPool.toNat < saturatingMul c.cacheSliceSize.toNat 4 then
    .error (.invalid "CACHE_BUFFER_POOL" (shown c.cacheBufferPool)
      ("at least four slices, so a flusher can assemble a whole block; below this the" ++
        "                  disk tier silently drops writes"))
  else if c.cacheSliceSize.toNat < minSliceSize then
    .error (.invalid "CACHE_SLICE_SIZE" (shown c.cacheSliceSize)
      ("at least 4 KiB: smaller slices are dominated by per-slice overhead, and the u32" ++
        "                  slice index would make large objects unaddressable"))
  else if c.cacheSliceSize = 0 ∨ ¬c.cacheSliceSize.toNat.isPowerOfTwo then
    .error (.invalid "CACHE_SLICE_SIZE" (shown c.cacheSliceSize)
      "a power of two, so slice boundaries align with the object offsets clients request")
  else if c.cacheSliceSize.toNat > 2 ^ 32 - 1 then
    .error (.invalid "CACHE_SLICE_SIZE" (shown c.cacheSliceSize) "at most 4 GiB")
  else if c.cacheDiskSize < c.cacheSliceSize then
    .error (.ordering "CACHE_SLICE_SIZE" (shown c.cacheSliceSize) "CACHE_DISK_SIZE"
      (shown c.cacheDiskSize))
  else if c.cacheMemSize < c.cacheSliceSize then
    .error (.ordering "CACHE_SLICE_SIZE" (shown c.cacheSliceSize) "CACHE_MEM_SIZE"
      (shown c.cacheMemSize))
  else if c.readaheadSlices = 0 then
    .error (.invalid "READAHEAD_SLICES" "0"
      "at least 1, since a request must be able to fetch the slice it needs")
  else if c.upstreamMaxInflight = 0 then
    .error (.invalid "UPSTREAM_MAX_INFLIGHT" "0"
      "at least 1, or no upstream fetch could ever start")
  else if c.upstreamDns = [] then
    .error (.invalid "UPSTREAM_DNS" "empty"
      ("at least one resolver: the system resolver is never used, so there would be no " ++
        "way to resolve an upstream"))
  else if c.httpPort = c.adminPort ∨ c.httpsPort = c.adminPort then
    .error (.invalid "ADMIN_PORT" (toString c.adminPort.toNat)
      ("different from HTTP_PORT and HTTPS_PORT: the admin surface must not be reachable " ++
        "on the data plane"))
  else if c.httpPort = c.httpsPort then
    .error (.invalid "HTTPS_PORT" (toString c.httpsPort.toNat) "different from HTTP_PORT")
  else .ok ()

/-- The settings the stored data depends on. -/
def stored (c : Config) : Guard.StoredConfig where
  sliceSize := c.cacheSliceSize.toNat
  storeFormatVersion := Guard.storeFormatVersion

/-- Memory the read-ahead window of a connection may take.  The product is a 64-bit word. -/
def readaheadBytesPerConnection (c : Config) : ℕ :=
  c.cacheSliceSize.toNat * c.readaheadSlices.toNat % 2 ^ 64

/-- Validate, then check the cache directory.  What is loaded after that is not modelled. -/
def prepare (c : Config) (force : Bool) (file : Option String) :
    Except (ConfigError ⊕ Guard.GuardError) Unit × Option String :=
  match c.validate with
  | .error e => (.error (.inl e), file)
  | .ok _ =>
      let (result, file) := Guard.checkFile c.stored force file
      (result.mapError .inr, file)

theorem validate_eq_ok_iff (c : Config) :
    c.validate = .ok () ↔
      c.cacheFlushers ≠ 0 ∧ saturatingMul c.cacheSliceSize.toNat 4 ≤ c.cacheBufferPool.toNat ∧
      minSliceSize ≤ c.cacheSliceSize.toNat ∧ c.cacheSliceSize.toNat.isPowerOfTwo ∧
      c.cacheSliceSize.toNat ≤ 2 ^ 32 - 1 ∧ c.cacheSliceSize ≤ c.cacheDiskSize ∧
      c.cacheSliceSize ≤ c.cacheMemSize ∧ c.readaheadSlices ≠ 0 ∧ c.upstreamMaxInflight ≠ 0 ∧
      c.upstreamDns ≠ [] ∧ c.httpPort ≠ c.adminPort ∧ c.httpsPort ≠ c.adminPort ∧
      c.httpPort ≠ c.httpsPort := by
  have hzero : minSliceSize ≤ c.cacheSliceSize.toNat → c.cacheSliceSize ≠ 0 := by
    intro h heq
    rw [heq] at h
    exact absurd h (by decide)
  simp only [validate, ite_error_eq_ok, not_lt, UInt64.not_lt, gt_iff_lt, not_or, not_not, and_true,
    and_assoc, ne_eq]
  constructor
  · rintro ⟨h1, h2, h3, -, h⟩
    exact ⟨h1, h2, h3, h⟩
  · rintro ⟨h1, h2, h3, h⟩
    exact ⟨h1, h2, h3, hzero h3, h⟩

end Config

/-- What the store is opened with.  The sizes are 64-bit words. -/
structure StoreConfig where
  memoryBytes : ℕ
  diskBytes : ℕ
  blockBytes : ℕ
  flushers : ℕ
  bufferPoolBytes : ℕ
  deriving DecidableEq, Repr

def defaultBlockSize : ℕ := 64 * 1024 * 1024

def StoreConfig.fromConfig (c : Config) : StoreConfig where
  memoryBytes := c.cacheMemSize.toNat
  diskBytes := c.cacheDiskSize.toNat
  blockBytes := max defaultBlockSize (c.cacheSliceSize.toNat * 4 % 2 ^ 64)
  flushers := c.cacheFlushers.toNat
  bufferPoolBytes := c.cacheBufferPool.toNat

end Cachic.Settings
