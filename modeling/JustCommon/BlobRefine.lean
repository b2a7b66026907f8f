import JustCommon.BlobManager

/-!
# The blob manager refines the one-shot map

Per operation: what is left in memory afterwards, that ownership (`Wf`) is
kept, and how `view` changes. `get` of a one-shot entry and `remove` both
come down to one memory change, `Dropped`: an entry and its `Blob` are gone
and one block is freed. They differ in which block that is, the block of
the entry (`remove`) or the block the cache owned before (`get`, because
the swap comes first).

`exec_refines` is the simulation step, `blobManager_refines` the statement
about whole histories of calls.
-/

namespace JustCommon

open OneShot

abbrev BlobOp := OneShot.Op Bytes Bytes

/-- The returned error code, and for a `get` that wrote `data` the bytes that
can be read through the buffer right after the call. -/
structure BlobResult where
  ec : ErrorCode
  bytes : Option Bytes
deriving DecidableEq, Repr

/-- The error code and bytes a caller sees for a reply of the one-shot map. -/
def BlobResult.ofReply (op : BlobOp) (r : Reply Bytes) : BlobResult :=
  { ec := if r.ok then .success else
      match op with
      | .insert _ _ _ => .itemAlreadyExist
      | _ => .itemNotExist
    bytes := r.value }

namespace BlobManager

def exec (m : BlobManager) : BlobOp → Option (BlobResult × BlobManager)
  | .insert k d once => some (⟨(m.insert k d once).1, none⟩, (m.insert k d once).2)
  | .get k => do
      let (ec, buf, m') ← m.get k
      return (⟨ec, buf.bind m'.blocks.read⟩, m')
  | .remove k => do
      let (ec, m') ← m.remove k
      return (⟨ec, none⟩, m')

/-- The results of a history of calls, and the manager it leaves. -/
def run (m : BlobManager) : List BlobOp → Option (List BlobResult × BlobManager)
  | [] => some ([], m)
  | op :: ops => do
      let (r, m') ← m.exec op
      let (rs, m'') ← m'.run ops
      return (r :: rs, m'')

/-! ## Insertion -/

theorem newBlob_objects (m : BlobManager) (d : Bytes) (once : Bool) (q : Nat) :
    (m.newBlob d once).2.objects.read q =
      if q = m.objects.fresh then some ⟨m.blocks.fresh, once⟩ else m.objects.read q :=
  Heap.read_alloc _ _ _

theorem newBlob_blocks (m : BlobManager) (d : Bytes) (once : Bool) (v : Vec) :
    (m.newBlob d once).2.blocks.read v =
      if v = m.blocks.fresh then some d else m.blocks.read v :=
  Heap.read_alloc _ _ _

theorem newBlob_objects_old {m : BlobManager} {p : Nat} {b : Blob}
    (hb : m.objects.read p = some b) (d : Bytes) (once : Bool) :
    (m.newBlob d once).2.objects.read p = some b := by
  rw [newBlob_objects, if_neg (Heap.ne_fresh hb), hb]

theorem newBlob_blocks_old {m : BlobManager} {v : Vec} {c : Bytes}
    (hc : m.blocks.read v = some c) (d : Bytes) (once : Bool) :
    (m.newBlob d once).2.blocks.read v = some c := by
  rw [newBlob_blocks, if_neg (Heap.ne_fresh hc), hc]

/-- A live `Blob` after the allocation is the new one, which owns the new
block, or an old one, which owns an old block. -/
theorem newBlob_cases {m : BlobManager} (hw : m.Wf) {d : Bytes} {once : Bool}
    {p : Nat} {b : Blob} (hb : (m.newBlob d once).2.objects.read p = some b) :
    (p = m.objects.fresh ∧ b = ⟨m.blocks.fresh, once⟩)
      ∨ (m.objects.read p = some b ∧ b.data ≠ m.blocks.fresh) := by
  rw [newBlob_objects] at hb
  split at hb
  · rename_i hp
    exact Or.inl ⟨hp, (Option.some.inj hb).symm⟩
  · obtain ⟨c, hc⟩ := hw.data_live hb
    exact Or.inr ⟨hb, Heap.ne_fresh hc⟩

theorem wf_newBlob {m : BlobManager} (hw : m.Wf) (d : Bytes) (once : Bool) :
    (m.newBlob d once).2.Wf where
  entry_live hk := by
    obtain ⟨b, hb⟩ := hw.entry_live hk
    exact ⟨b, newBlob_objects_old hb d once⟩
  entry_inj hk hk' := hw.entry_inj hk hk'
  data_live hb := by
    rcases newBlob_cases hw hb with ⟨-, rfl⟩ | ⟨hb, -⟩
    · exact ⟨d, by rw [newBlob_blocks, if_pos rfl]⟩
    · obtain ⟨c, hc⟩ := hw.data_live hb
      exact ⟨c, newBlob_blocks_old hc d once⟩
  data_inj hb hb' heq := by
    rcases newBlob_cases hw hb with ⟨rfl, rfl⟩ | ⟨hb, hne⟩ <;>
      rcases newBlob_cases hw hb' with ⟨rfl, rfl⟩ | ⟨hb', hne'⟩
    · rfl
    · exact absurd heq.symm hne'
    · exact absurd heq hne
    · exact hw.data_inj hb hb' heq
  cache_live := by
    obtain ⟨c, hc⟩ := hw.cache_live
    exact ⟨c, newBlob_blocks_old hc d once⟩
  cache_ne hb := by
    obtain ⟨c, hc⟩ := hw.cache_live
    rcases newBlob_cases hw hb with ⟨-, rfl⟩ | ⟨hb, -⟩
    · exact (Heap.ne_fresh hc).symm
    · exact hw.cache_ne hb

theorem newBlob_view {m : BlobManager} (hw : m.Wf) (d : Bytes) (once : Bool)
    (k : Bytes) : (m.newBlob d once).2.view k = m.view k := by
  rcases hw.lookup_cases k with hk | ⟨p, b, c, hk, hb, hc⟩
  · rw [view_of_absent hk]
    exact view_of_absent hk
  · rw [view_of_entry hk hb hc]
    exact view_of_entry hk (newBlob_objects_old hb d once)
      (newBlob_blocks_old hc d once)

theorem insert_present {m : BlobManager} {k : Bytes} {p : Nat}
    (hk : m.blobs.lookup k = some p) (d : Bytes) (once : Bool) :
    m.insert k d once = (.itemAlreadyExist, (m.newBlob d once).2) := by
  have hk' : (m.newBlob d once).2.blobs.lookup k = some p := hk
  simp only [insert, hk']

theorem insert_absent {m : BlobManager} {k : Bytes}
    (hk : m.blobs.lookup k = none) (d : Bytes) (once : Bool) :
    m.insert k d once = (.success, { (m.newBlob d once).2 with
      blobs := m.blobs.insert k m.objects.fresh }) := by
  have hk' : (m.newBlob d once).2.blobs.lookup k = none := hk
  simp only [insert, hk']
  rfl

/-- The entry made by an insertion at a free key is the new `Blob`. -/
theorem lookup_insert_cases {m : BlobManager} {k k' : Bytes} {p q : Nat}
    (h : (m.blobs.insert k q).lookup k' = some p) :
    (k' = k ∧ p = q) ∨ (k' ≠ k ∧ m.blobs.lookup k' = some p) := by
  by_cases hk : k' = k
  · subst hk
    rw [AList.lookup_insert] at h
    exact Or.inl ⟨rfl, (Option.some.inj h).symm⟩
  · rw [AList.lookup_insert_ne hk] at h
    exact Or.inr ⟨hk, h⟩

theorem wf_insert {m : BlobManager} (hw : m.Wf) (k d : Bytes) (once : Bool) :
    (m.insert k d once).2.Wf := by
  have hn := wf_newBlob hw d once
  cases hk : m.blobs.lookup k with
  | some p => rw [insert_present hk]; exact hn
  | none =>
      rw [insert_absent hk]
      refine { hn with entry_live := ?_, entry_inj := ?_ }
      · intro k' p h
        rcases lookup_insert_cases h with ⟨-, rfl⟩ | ⟨-, h⟩
        · exact ⟨_, by rw [newBlob_objects, if_pos rfl]⟩
        · exact hn.entry_live h
      · -- an older entry does not point to the new object
        intro k₁ k₂ p h₁ h₂
        have hold : ∀ {k'}, m.blobs.lookup k' = some m.objects.fresh → False := by
          intro k' h
          obtain ⟨b, hb⟩ := hw.entry_live h
          exact Heap.ne_fresh hb rfl
        rcases lookup_insert_cases h₁ with ⟨hk₁, hp⟩ | ⟨-, hold₁⟩ <;>
          rcases lookup_insert_cases h₂ with ⟨hk₂, hp'⟩ | ⟨-, hold₂⟩
        · rw [hk₁, hk₂]
        · exact (hold (hp ▸ hold₂)).elim
        · exact (hold (hp' ▸ hold₁)).elim
        · exact hw.entry_inj hold₁ hold₂

theorem insert_view {m : BlobManager} (hw : m.Wf) {k : Bytes}
    (hk : m.blobs.lookup k = none) (d : Bytes) (once : Bool) :
    (m.insert k d once).2.view = Function.update m.view k (some (d, once)) := by
  rw [insert_absent hk]
  funext k'
  by_cases hkk : k' = k
  · subst hkk
    rw [Function.update_self]
    have hobj : (m.newBlob d once).2.objects.read m.objects.fresh
        = some ⟨m.blocks.fresh, once⟩ := by rw [newBlob_objects, if_pos rfl]
    have hblk : (m.newBlob d once).2.blocks.read m.blocks.fresh = some d := by
      rw [newBlob_blocks, if_pos rfl]
    simp [view, hobj, hblk]
  · rw [Function.update_of_ne hkk, ← newBlob_view hw d once k']
    simp only [view, AList.lookup_insert_ne hkk]
    rfl

/-! ## Deletion -/

/-- `m'` is `m` with the entry `k`, the object `p` and the block `v` gone. -/
structure Dropped (m m' : BlobManager) (k : Bytes) (p : Nat) (v : Vec) : Prop where
  blobs : m'.blobs = m.blobs.erase k
  objects : ∀ q, m'.objects.read q = if q = p then none else m.objects.read q
  blocks : ∀ w, m'.blocks.read w = if w = v then none else m.blocks.read w

theorem deleteBlob_eq {m : BlobManager} {p : Nat} {b : Blob} {d : Bytes}
    (hb : m.objects.read p = some b) (hd : m.blocks.read b.data = some d) :
    ∃ m', m.deleteBlob p = some m' ∧ m'.blobs = m.blobs ∧ m'.cache = m.cache
      ∧ (∀ q, m'.objects.read q = if q = p then none else m.objects.read q)
      ∧ (∀ w, m'.blocks.read w = if w = b.data then none else m.blocks.read w) := by
  obtain ⟨blocks, hblocks, hfree⟩ := Heap.free_eq_some hd
  obtain ⟨objects, hobjects, hfree'⟩ := Heap.free_eq_some hb
  exact ⟨{ m with objects, blocks }, by simp [deleteBlob, hb, hblocks, hobjects],
    rfl, rfl, hfree', hfree⟩

theorem remove_entry {m : BlobManager} {k : Bytes} {p : Nat} {b : Blob} {d : Bytes}
    (hk : m.blobs.lookup k = some p) (hb : m.objects.read p = some b)
    (hd : m.blocks.read b.data = some d) :
    ∃ m', m.remove k = some (.success, m') ∧ m.Dropped m' k p b.data
      ∧ m'.cache = m.cache := by
  obtain ⟨m₁, hdel, hblobs, hcache, hobj, hblk⟩ := deleteBlob_eq hb hd
  refine ⟨{ m₁ with blobs := m₁.blobs.erase k }, ?_, ⟨?_, hobj, hblk⟩, hcache⟩
  · simp [remove, hk, hdel]
  · rw [← hblobs]

/-- The swap puts the old cache block into the dying `Blob`, so that is the
block the deletion frees, and the cache keeps the block of the entry. -/
theorem get_once {m : BlobManager} {k : Bytes} {p : Nat} {b : Blob} {c : Bytes}
    (hk : m.blobs.lookup k = some p) (hb : m.objects.read p = some b)
    (hc : m.blocks.read m.cache = some c) (honce : b.removeOnGet = true) :
    ∃ m', m.get k = some (.success, some b.data, m') ∧ m.Dropped m' k p m.cache
      ∧ m'.cache = b.data := by
  obtain ⟨objects, hwrite, hobj⟩ := Heap.write_eq_some hb { b with data := m.cache }
  have hswap : m.swapCache p = some { m with cache := b.data, objects } := by
    simp [swapCache, hb, hwrite]
  obtain ⟨m₁, hdel, hblobs, hcache, hobj₁, hblk₁⟩ :=
    deleteBlob_eq (m := { m with cache := b.data, objects }) (p := p)
      (b := { b with data := m.cache }) (by simp [hobj]) hc
  refine ⟨{ m₁ with blobs := m₁.blobs.erase k }, ?_, ⟨?_, ?_, hblk₁⟩, hcache⟩
  · simp [get, hk, hb, honce, hswap, hdel]
  · rw [hblobs]
  · intro q
    rw [hobj₁ q]
    split
    · rfl
    · rename_i hq
      exact (hobj q).trans (if_neg hq)

theorem get_persistent {m : BlobManager} {k : Bytes} {p : Nat} {b : Blob}
    (hk : m.blobs.lookup k = some p) (hb : m.objects.read p = some b)
    (honce : b.removeOnGet = false) :
    m.get k = some (.success, some b.data, m) := by
  simp [get, hk, hb, honce]

theorem get_absent {m : BlobManager} {k : Bytes} (hk : m.blobs.lookup k = none) :
    m.get k = some (.itemNotExist, none, m) := by
  simp only [get, hk]

theorem remove_absent {m : BlobManager} {k : Bytes} (hk : m.blobs.lookup k = none) :
    m.remove k = some (.itemNotExist, m) := by
  simp only [remove, hk]

theorem Dropped.lookup_some {m m' : BlobManager} {k k' : Bytes} {p q : Nat} {v : Vec}
    (h : m.Dropped m' k p v) (hk : m'.blobs.lookup k' = some q) :
    k' ≠ k ∧ m.blobs.lookup k' = some q := by
  rw [h.blobs] at hk
  by_cases hkk : k' = k
  · subst hkk
    rw [AList.lookup_erase] at hk
    cases hk
  · rw [AList.lookup_erase_ne hkk] at hk
    exact ⟨hkk, hk⟩

theorem Dropped.object_some {m m' : BlobManager} {k : Bytes} {p q : Nat} {v : Vec}
    {b : Blob} (h : m.Dropped m' k p v) (hb : m'.objects.read q = some b) :
    q ≠ p ∧ m.objects.read q = some b := by
  rw [h.objects] at hb
  split at hb
  · cases hb
  · rename_i hq
    exact ⟨hq, hb⟩

/-- Ownership survives a drop as long as the block freed is owned neither by
another `Blob` nor by the cache afterwards. -/
theorem Dropped.wf {m m' : BlobManager} {k : Bytes} {p : Nat} {v : Vec}
    (h : m.Dropped m' k p v) (hw : m.Wf) (hk : m.blobs.lookup k = some p)
    (hdata : ∀ q b, q ≠ p → m.objects.read q = some b → b.data ≠ v)
    (hcache : m'.cache ≠ v) (hlive : ∃ c, m.blocks.read m'.cache = some c)
    (hne : ∀ q b, q ≠ p → m.objects.read q = some b → b.data ≠ m'.cache) :
    m'.Wf where
  entry_live hk' := by
    obtain ⟨hkk, hk'⟩ := h.lookup_some hk'
    obtain ⟨b, hb⟩ := hw.entry_live hk'
    refine ⟨b, ?_⟩
    rw [h.objects, if_neg, hb]
    rintro rfl
    exact hkk (hw.entry_inj hk' hk)
  entry_inj h₁ h₂ := hw.entry_inj (h.lookup_some h₁).2 (h.lookup_some h₂).2
  data_live hb := by
    obtain ⟨hq, hb⟩ := h.object_some hb
    obtain ⟨c, hc⟩ := hw.data_live hb
    exact ⟨c, by rw [h.blocks, if_neg (hdata _ _ hq hb), hc]⟩
  data_inj h₁ h₂ heq := hw.data_inj (h.object_some h₁).2 (h.object_some h₂).2 heq
  cache_live := by
    obtain ⟨c, hc⟩ := hlive
    exact ⟨c, by rw [h.blocks, if_neg hcache, hc]⟩
  cache_ne hb := hne _ _ (h.object_some hb).1 (h.object_some hb).2

theorem Dropped.view {m m' : BlobManager} {k : Bytes} {p : Nat} {v : Vec}
    (h : m.Dropped m' k p v) (hw : m.Wf) (hk : m.blobs.lookup k = some p)
    (hdata : ∀ q b, q ≠ p → m.objects.read q = some b → b.data ≠ v) :
    m'.view = Function.update m.view k none := by
  funext k'
  by_cases hkk : k' = k
  · subst hkk
    rw [Function.update_self]
    exact view_of_absent (by rw [h.blobs, AList.lookup_erase])
  · have hlook : m'.blobs.lookup k' = m.blobs.lookup k' := by
      rw [h.blobs, AList.lookup_erase_ne hkk]
    rw [Function.update_of_ne hkk]
    rcases hw.lookup_cases k' with hk' | ⟨q, b, d, hk', hb, hd⟩
    · rw [view_of_absent hk', view_of_absent (hlook.trans hk')]
    · have hq : q ≠ p := fun hqp => hkk (hw.entry_inj (hqp ▸ hk') hk)
      rw [view_of_entry hk' hb hd]
      refine view_of_entry (hlook.trans hk') ?_ ?_
      · rw [h.objects, if_neg hq, hb]
      · rw [h.blocks, if_neg (hdata q b hq hb), hd]

/-! ## The two callers of a drop -/

theorem remove_wf {m m' : BlobManager} {k : Bytes} {p : Nat} {b : Blob}
    (hw : m.Wf) (hk : m.blobs.lookup k = some p) (hb : m.objects.read p = some b)
    (h : m.Dropped m' k p b.data) (hcache : m'.cache = m.cache) :
    m'.Wf ∧ m'.view = Function.update m.view k none := by
  have hdata : ∀ q b', q ≠ p → m.objects.read q = some b' → b'.data ≠ b.data :=
    fun q b' hq hb' heq => hq (hw.data_inj hb' hb heq)
  refine ⟨h.wf hw hk hdata ?_ ?_ ?_, h.view hw hk hdata⟩
  · rw [hcache]
    exact (hw.cache_ne hb).symm
  · rw [hcache]
    exact hw.cache_live
  · intro q b' _ hb'
    rw [hcache]
    exact hw.cache_ne hb'

theorem get_once_wf {m m' : BlobManager} {k : Bytes} {p : Nat} {b : Blob}
    (hw : m.Wf) (hk : m.blobs.lookup k = some p) (hb : m.objects.read p = some b)
    (h : m.Dropped m' k p m.cache) (hcache : m'.cache = b.data) :
    m'.Wf ∧ m'.view = Function.update m.view k none := by
  have hdata : ∀ q b', q ≠ p → m.objects.read q = some b' → b'.data ≠ m.cache :=
    fun q b' _ hb' => hw.cache_ne hb'
  refine ⟨h.wf hw hk hdata ?_ ?_ ?_, h.view hw hk hdata⟩
  · rw [hcache]
    exact hw.cache_ne hb
  · rw [hcache]
    exact hw.data_live hb
  · intro q b' hq hb' heq
    rw [hcache] at heq
    exact hq (hw.data_inj hb' hb heq)

/-! ## Simulation -/

/-- **One call.** From an owned state no call is undefined; what the caller
sees is the one-shot map's reply, and the stored map changes as it does. -/
theorem exec_refines {m : BlobManager} (hw : m.Wf) (op : BlobOp) :
    ∃ m', m.exec op = some (BlobResult.ofReply op (Map.exec m.view op).1, m')
      ∧ m'.Wf ∧ m'.view = (Map.exec m.view op).2 := by
  cases op with
  | insert k d once =>
      rcases hw.lookup_cases k with hk | ⟨p, b, c, hk, hb, hc⟩
      · refine ⟨_, ?_, wf_insert hw k d once, ?_⟩
        · simp [exec, Map.exec, view_of_absent hk, insert_absent hk,
            BlobResult.ofReply]
        · simp only [Map.exec, view_of_absent hk]
          exact insert_view hw hk d once
      · refine ⟨_, ?_, wf_insert hw k d once, ?_⟩
        · simp [exec, Map.exec, view_of_entry hk hb hc, insert_present hk,
            BlobResult.ofReply]
        · simp only [Map.exec, view_of_entry hk hb hc, insert_present hk]
          exact funext (newBlob_view hw d once)
  | get k =>
      rcases hw.lookup_cases k with hk | ⟨p, b, d, hk, hb, hd⟩
      · refine ⟨m, ?_, hw, ?_⟩ <;>
          simp [exec, Map.exec, view_of_absent hk, get_absent hk, BlobResult.ofReply]
      · have hv := view_of_entry hk hb hd
        cases honce : b.removeOnGet with
        | true =>
            rw [honce] at hv
            obtain ⟨c, hc⟩ := hw.cache_live
            obtain ⟨m', hget, hdrop, hcache⟩ := get_once hk hb hc honce
            obtain ⟨hw', hview⟩ := get_once_wf hw hk hb hdrop hcache
            have hread : m'.blocks.read b.data = some d := by
              rw [hdrop.blocks, if_neg (hw.cache_ne hb), hd]
            refine ⟨m', ?_, hw', ?_⟩
            · simp [exec, Map.exec, hv, hget, hread, BlobResult.ofReply]
            · simp only [Map.exec, hv, hview]
        | false =>
            rw [honce] at hv
            refine ⟨m, ?_, hw, ?_⟩
            · simp [exec, Map.exec, hv, get_persistent hk hb honce, hd,
                BlobResult.ofReply]
            · simp only [Map.exec, hv]
  | remove k =>
      rcases hw.lookup_cases k with hk | ⟨p, b, d, hk, hb, hd⟩
      · refine ⟨m, ?_, hw, ?_⟩ <;>
          simp [exec, Map.exec, view_of_absent hk, remove_absent hk,
            BlobResult.ofReply]
      · have hv := view_of_entry hk hb hd
        obtain ⟨m', hrem, hdrop, hcache⟩ := remove_entry hk hb hd
        obtain ⟨hw', hview⟩ := remove_wf hw hk hb hdrop hcache
        refine ⟨m', ?_, hw', ?_⟩
        · simp [exec, Map.exec, hv, hrem, BlobResult.ofReply]
        · simp only [Map.exec, hv, hview]

theorem run_refines {m : BlobManager} (hw : m.Wf) (ops : List BlobOp) :
    ∃ m', m.run ops = some (ops.zipWith BlobResult.ofReply (Map.run m.view ops).1, m')
      ∧ m'.Wf ∧ m'.view = (Map.run m.view ops).2 := by
  induction ops generalizing m with
  | nil => exact ⟨m, rfl, hw, rfl⟩
  | cons op ops ih =>
      obtain ⟨m₁, hexec, hw₁, hview₁⟩ := exec_refines hw op
      obtain ⟨m₂, hrun, hw₂, hview₂⟩ := ih hw₁
      rw [hview₁] at hrun hview₂
      refine ⟨m₂, ?_, hw₂, ?_⟩
      · simp [run, Map.run, hexec, hrun]
      · rw [hview₂]
        rfl

theorem view_empty : empty.view = Map.empty :=
  funext fun _ => view_of_absent (AList.lookup_empty _)

/-- **The blob manager is a one-shot map.** For every history of calls on the
empty manager, no call is undefined, every error code and every read buffer
are those of the one-shot map, and the map stored at the end is the one the
history leaves. No further call, whatever it is and whatever the cache holds
by then, changes what is stored under a key other than its own. -/
theorem blobManager_refines (ops : List BlobOp) :
    ∃ m, empty.run ops
        = some (ops.zipWith BlobResult.ofReply (Map.run Map.empty ops).1, m)
      ∧ m.view = (Map.run Map.empty ops).2
      ∧ ∀ (op : BlobOp) (k : Bytes), k ≠ op.key →
          ∃ r m', m.exec op = some (r, m') ∧ m'.view k = m.view k := by
  obtain ⟨m, hrun, hw, hview⟩ := run_refines wf_empty ops
  rw [view_empty] at hrun hview
  refine ⟨m, hrun, hview, fun op k hk => ?_⟩
  obtain ⟨m', hexec, -, hview'⟩ := exec_refines hw op
  exact ⟨_, m', hexec, by rw [hview', Map.exec_frame _ op hk]⟩

/-! ## Managers that own what they point to -/

theorem exec_wf {m m' : BlobManager} {op : BlobOp} {r : BlobResult}
    (hw : m.Wf) (h : m.exec op = some (r, m')) : m'.Wf := by
  obtain ⟨m₁, hexec, hw₁, -⟩ := exec_refines hw op
  obtain ⟨-, rfl⟩ := Prod.mk.injEq .. |>.mp (Option.some.inj (hexec.symm.trans h))
  exact hw₁

theorem exec_isSome {m : BlobManager} (hw : m.Wf) (op : BlobOp) :
    (m.exec op).isSome = true := by
  obtain ⟨m', hexec, -⟩ := exec_refines hw op
  rw [hexec]
  rfl

end BlobManager

/-- A blob manager with its ownership invariant: the global `blob_manager()`. -/
abbrev BlobStore := { m : BlobManager // m.Wf }

namespace BlobStore

def empty : BlobStore := ⟨BlobManager.empty, BlobManager.wf_empty⟩

/-- A call on the manager, which is never undefined. -/
def exec (blobs : BlobStore) (op : BlobOp) : BlobResult × BlobStore :=
  let r := (blobs.1.exec op).get (BlobManager.exec_isSome blobs.2 op)
  (r.1, ⟨r.2, BlobManager.exec_wf blobs.2 (Option.some_get _).symm⟩)

theorem exec_fst (blobs : BlobStore) (op : BlobOp) :
    (blobs.exec op).1 = BlobResult.ofReply op (Map.exec blobs.1.view op).1 := by
  obtain ⟨m', hexec, -⟩ := BlobManager.exec_refines blobs.2 op
  simp only [exec, hexec, Option.get_some]

/-- What a `get` answers, by what is stored under the key. -/
theorem exec_get (blobs : BlobStore) (key : Bytes) :
    (blobs.exec (.get key)).1 = match blobs.1.view key with
      | some (data, _) => ⟨.success, some data⟩
      | none => ⟨.itemNotExist, none⟩ := by
  rw [exec_fst]
  cases hview : blobs.1.view key with
  | none => simp [Map.exec, hview, BlobResult.ofReply]
  | some entry =>
      obtain ⟨data, once⟩ := entry
      cases once <;> simp [Map.exec, hview, BlobResult.ofReply]

/-- A `get` of a key that is not there leaves the manager as it is. -/
theorem exec_get_missing {blobs : BlobStore} {key : Bytes}
    (h : blobs.1.view key = none) :
    blobs.exec (.get key) = (⟨.itemNotExist, none⟩, blobs) := by
  have hget : blobs.1.exec (.get key) = some (⟨.itemNotExist, none⟩, blobs.1) := by
    rcases blobs.2.lookup_cases key with hk | ⟨p, b, d, hk, hb, hd⟩
    · simp [BlobManager.exec, BlobManager.get_absent hk]
    · rw [BlobManager.view_of_entry hk hb hd] at h
      cases h
  simp only [exec, hget, Option.get_some]

end BlobStore

end JustCommon
