import Mathlib.Tactic

/-!
# Slice keys and self-describing slice values

A stored slice is addressed by object, generation and index, and carries a header
that repeats what was known about the object when it was stored.  The slice size
is part of the header and not of the key.
-/

namespace Cachic

/-- Identifies an object: the first sixteen bytes of a hash of its service and
normalised key. -/
structure ObjectId where
  bytes : List UInt8
  length_eq : bytes.length = 16
  deriving DecidableEq, Repr

/-- Addresses one slice of one generation of one object. -/
structure SliceKey where
  object : ObjectId
  generation : ℕ
  index : ℕ
  deriving DecidableEq, Repr

/-- Everything a slice knows about the object it belongs to. -/
structure SliceHeader where
  sliceSize : ℕ
  totalLen : ℕ
  generation : ℕ
  etag : Option String
  lastModified : Option String
  contentType : Option String
  deriving DecidableEq, Repr

/-- A stored slice: its header and the payload bytes. -/
structure SliceValue where
  header : SliceHeader
  payload : List UInt8
  deriving DecidableEq, Repr

end Cachic
