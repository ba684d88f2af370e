import Cachic.Lib.BoundedTable
import Cachic.Store.Slice

/-!
# The object index

The persistent table that maps an object to what is known about it.  Each
operation here is one database transaction, and so one atomic step: reading an
entry, writing one, removing some, and scanning.  `touch`, `invalidate` and
`prune` are not: they read in one transaction and write in another, and are
programs of `Cachic.Orchestrator.Programs`.
-/

namespace Cachic

/-- What the index knows about an object. -/
structure ObjectMeta where
  key : String
  totalLen : ℕ
  generation : ℕ
  etag : Option String
  lastModified : Option String
  contentType : Option String
  noRanges : Bool
  created : ℕ
  lastSeen : ℕ
  stale : Bool
  deriving DecidableEq, Repr

/-- The slice header that repeats an index entry. -/
def headerFor (info : ObjectMeta) (sliceSize : ℕ) : SliceHeader where
  sliceSize := sliceSize
  totalLen := info.totalLen
  generation := info.generation
  etag := info.etag
  lastModified := info.lastModified
  contentType := info.contentType

/-- The object index. -/
structure ObjectIndex where
  table : AList fun _ : ObjectId => ObjectMeta

namespace ObjectIndex

/-- The index of a new data directory. -/
def empty : ObjectIndex := ⟨∅⟩

def get (index : ObjectIndex) (id : ObjectId) : Option ObjectMeta := index.table.lookup id

def put (index : ObjectIndex) (id : ObjectId) (info : ObjectMeta) : ObjectIndex :=
  ⟨index.table.insert id info⟩

def remove (index : ObjectIndex) (id : ObjectId) : ObjectIndex := ⟨index.table.erase id⟩

/-- Every object id. -/
def ids (index : ObjectIndex) : List ObjectId := index.table.keys

/-- Remove several entries in one transaction. -/
def removeAll (index : ObjectIndex) (ids : List ObjectId) : ObjectIndex :=
  ids.foldl remove index

/-- The ids whose entry satisfies a test. -/
def idsWhere (index : ObjectIndex) (test : ObjectMeta → Bool) : List ObjectId :=
  index.ids.filter fun id => (index.get id).any test

/-- The ids whose normalised key starts with a given text. -/
def idsWithPrefix (index : ObjectIndex) (start : String) : List ObjectId :=
  index.idsWhere fun info => start.toList.isPrefixOf info.key.toList

@[simp] theorem get_put_self (index : ObjectIndex) (id : ObjectId) (info : ObjectMeta) :
    (index.put id info).get id = some info := AList.lookup_insert _

theorem get_put (index : ObjectIndex) (id id' : ObjectId) (info : ObjectMeta) :
    (index.put id info).get id' = if id' = id then some info else index.get id' := by
  by_cases h : id' = id
  · rw [if_pos h, h, get_put_self]
  · rw [if_neg h]
    exact AList.lookup_insert_ne h

theorem get_removeAll (index : ObjectIndex) (ids : List ObjectId) (id : ObjectId) :
    (index.removeAll ids).get id = if id ∈ ids then none else index.get id := by
  have htable : (index.removeAll ids).table = BoundedTable.eraseAll index.table ids :=
    (List.foldl_hom ObjectIndex.table (fun _ _ => rfl)).symm
  rw [get, htable]
  exact BoundedTable.lookup_eraseAll index.table ids id

theorem mem_ids_iff {index : ObjectIndex} {id : ObjectId} :
    id ∈ index.ids ↔ ∃ info, index.get id = some info := by
  rw [ids, ← AList.mem_keys, ← AList.lookup_isSome, Option.isSome_iff_exists]
  rfl

theorem mem_idsWhere_iff {index : ObjectIndex} {test : ObjectMeta → Bool} {id : ObjectId} :
    id ∈ index.idsWhere test ↔ ∃ info, index.get id = some info ∧ test info = true := by
  rw [idsWhere, List.mem_filter, mem_ids_iff]
  constructor
  · rintro ⟨⟨info, hget⟩, htest⟩
    exact ⟨info, hget, by simpa [hget] using htest⟩
  · rintro ⟨info, hget, htest⟩
    exact ⟨⟨info, hget⟩, by simpa [hget] using htest⟩

end ObjectIndex

end Cachic
