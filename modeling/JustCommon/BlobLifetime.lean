import JustCommon.BlobRefine
import JustCommon.Runs

/-!
# How long a returned buffer stays readable

A `const_buffer` returned by `get` is a reference to a block. The block of
a persistent entry is owned by the entry's `Blob` and is freed when that
`Blob` is deleted. The block of a one-shot entry has moved to the cache,
where it stays until another one-shot `get` swaps it into the next dying
`Blob`.

`exec_cases` says once what a call can do to memory; the two invariants
(`Entry` with a fixed block, and the cache with a fixed block) are read
off it.
-/

namespace JustCommon

open OneShot

namespace BlobManager

/-- Key `k` is in the map, with `Blob` `b` at `p` and bytes `d`. -/
structure Entry (m : BlobManager) (k : Bytes) (p : Nat) (b : Blob) (d : Bytes) :
    Prop where
  lookup : m.blobs.lookup k = some p
  object : m.objects.read p = some b
  block : m.blocks.read b.data = some d

/-- Everything a call can do to an owned state: nothing, insert, or drop the
entry it names, freeing the old cache block or the entry's own. -/
theorem exec_cases {m m' : BlobManager} {op : BlobOp} {r : BlobResult}
    (hw : m.Wf) (h : m.exec op = some (r, m')) :
    m' = m
      ∨ (∃ k d once, op = .insert k d once ∧ m' = (m.insert k d once).2)
      ∨ (∃ k p b d, op = .get k ∧ m.Entry k p b d ∧ b.removeOnGet = true
          ∧ m.Dropped m' k p m.cache ∧ m'.cache = b.data)
      ∨ (∃ k p b d, op = .remove k ∧ m.Entry k p b d ∧ r.ec = .success
          ∧ m.Dropped m' k p b.data ∧ m'.cache = m.cache) := by
  cases op with
  | insert k d once =>
      obtain ⟨-, rfl⟩ := Prod.mk.injEq .. |>.mp (Option.some.inj h)
      exact Or.inr (Or.inl ⟨k, d, once, rfl, rfl⟩)
  | get k =>
      rcases hw.lookup_cases k with hk | ⟨p, b, d, hk, hb, hd⟩
      · simp only [exec, get_absent hk, Option.bind_eq_bind, Option.bind_some] at h
        obtain ⟨-, rfl⟩ := Prod.mk.injEq .. |>.mp (Option.some.inj h)
        exact Or.inl rfl
      · cases honce : b.removeOnGet with
        | true =>
            obtain ⟨c, hc⟩ := hw.cache_live
            obtain ⟨m₁, hget, hdrop, hcache⟩ := get_once hk hb hc honce
            simp only [exec, hget, Option.bind_eq_bind, Option.bind_some] at h
            obtain ⟨-, rfl⟩ := Prod.mk.injEq .. |>.mp (Option.some.inj h)
            exact Or.inr (Or.inr (Or.inl
              ⟨k, p, b, d, rfl, ⟨hk, hb, hd⟩, honce, hdrop, hcache⟩))
        | false =>
            simp only [exec, get_persistent hk hb honce, Option.bind_eq_bind,
              Option.bind_some] at h
            obtain ⟨-, rfl⟩ := Prod.mk.injEq .. |>.mp (Option.some.inj h)
            exact Or.inl rfl
  | remove k =>
      rcases hw.lookup_cases k with hk | ⟨p, b, d, hk, hb, hd⟩
      · simp only [exec, remove_absent hk, Option.bind_eq_bind, Option.bind_some] at h
        obtain ⟨-, rfl⟩ := Prod.mk.injEq .. |>.mp (Option.some.inj h)
        exact Or.inl rfl
      · obtain ⟨m₁, hrem, hdrop, hcache⟩ := remove_entry hk hb hd
        simp only [exec, hrem, Option.bind_eq_bind, Option.bind_some] at h
        obtain ⟨rfl, rfl⟩ := Prod.mk.injEq .. |>.mp (Option.some.inj h)
        exact Or.inr (Or.inr (Or.inr
          ⟨k, p, b, d, rfl, ⟨hk, hb, hd⟩, rfl, hdrop, hcache⟩))

/-! ## What an insertion and a drop keep -/

theorem insert_cache (m : BlobManager) (k d : Bytes) (once : Bool) :
    (m.insert k d once).2.cache = m.cache := by
  cases hk : m.blobs.lookup k with
  | none => rw [insert_absent hk]; rfl
  | some p => rw [insert_present hk]; rfl

theorem insert_blocks (m : BlobManager) (k d : Bytes) (once : Bool) :
    (m.insert k d once).2.blocks = (m.newBlob d once).2.blocks := by
  cases hk : m.blobs.lookup k with
  | none => rw [insert_absent hk]
  | some p => rw [insert_present hk]

theorem insert_objects (m : BlobManager) (k d : Bytes) (once : Bool) :
    (m.insert k d once).2.objects = (m.newBlob d once).2.objects := by
  cases hk : m.blobs.lookup k with
  | none => rw [insert_absent hk]
  | some p => rw [insert_present hk]

theorem insert_lookup {m : BlobManager} {k k' : Bytes} {p : Nat}
    (hk : m.blobs.lookup k = some p) (d : Bytes) (once : Bool) :
    (m.insert k' d once).2.blobs.lookup k = some p := by
  cases hk' : m.blobs.lookup k' with
  | some q => rw [insert_present hk']; exact hk
  | none =>
      have hne : k ≠ k' := by
        rintro rfl
        rw [hk] at hk'
        cases hk'
      rw [insert_absent hk']
      exact (AList.lookup_insert_ne hne).trans hk

theorem Entry.insert {m : BlobManager} {k : Bytes} {p : Nat} {b : Blob} {d : Bytes}
    (h : m.Entry k p b d) (k' d' : Bytes) (once : Bool) :
    (m.insert k' d' once).2.Entry k p b d where
  lookup := insert_lookup h.lookup d' once
  object := by
    rw [insert_objects]
    exact newBlob_objects_old h.object d' once
  block := by
    rw [insert_blocks]
    exact newBlob_blocks_old h.block d' once

/-- An entry survives the drop of another key, if its block is not the one
freed. -/
theorem Entry.dropped {m m' : BlobManager} {k k' : Bytes} {p p' : Nat} {b : Blob}
    {d : Bytes} {v : Vec} (h : m.Entry k p b d) (hw : m.Wf) (hdrop : m.Dropped m' k' p' v)
    (hk' : m.blobs.lookup k' = some p') (hne : k ≠ k') (hv : b.data ≠ v) :
    m'.Entry k p b d where
  lookup := by rw [hdrop.blobs, AList.lookup_erase_ne hne, h.lookup]
  object := by
    have hp : p ≠ p' := fun heq => hne (hw.entry_inj h.lookup (heq ▸ hk'))
    rw [hdrop.objects, if_neg hp, h.object]
  block := by rw [hdrop.blocks, if_neg hv, h.block]

/-! ## Runs of the manager -/

/-- Any sequence of calls on the empty manager. -/
def lts : Lts BlobManager BlobOp where
  init m := m = empty
  step m op := (m.exec op).map Prod.snd

/-- The call is a `remove(k)` that succeeds. -/
def SuccessfulRemove (k : Bytes) (m : BlobManager) (op : BlobOp) : Prop :=
  op = .remove k ∧ ∃ r m', m.exec op = some (r, m') ∧ r.ec = .success

/-- The call is a successful `get` of a blob inserted with `remove_on_get`. -/
def OneShotGet (m : BlobManager) (op : BlobOp) : Prop :=
  ∃ k d, op = .get k ∧ m.view k = some (d, true)

theorem exec_of_step {m m' : BlobManager} {op : BlobOp}
    (h : lts.step m op = some m') : ∃ r, m.exec op = some (r, m') := by
  obtain ⟨⟨r, m₁⟩, hexec, rfl⟩ := Option.map_eq_some_iff.mp h
  exact ⟨r, hexec⟩

/-- A persistent entry keeps its `Blob` and its block through every call but a
successful `remove` of its key. -/
theorem persistent_step {k : Bytes} {p : Nat} {b : Blob} {d : Bytes}
    (hb : b.removeOnGet = false) {m m' : BlobManager} {op : BlobOp}
    (hw : m.Wf) (he : m.Entry k p b d) (hok : ¬SuccessfulRemove k m op)
    {r : BlobResult} (h : m.exec op = some (r, m')) : m'.Entry k p b d := by
  rcases exec_cases hw h with rfl | ⟨k', d', once, -, rfl⟩
      | ⟨k', p', b', d', -, he', honce, hdrop, -⟩
      | ⟨k', p', b', d', hop, he', hec, hdrop, -⟩
  · exact he
  · exact he.insert k' d' once
  · refine he.dropped hw hdrop he'.lookup ?_ (hw.cache_ne he.object)
    rintro rfl
    obtain rfl := Option.some.inj (he.lookup.symm.trans he'.lookup)
    obtain rfl := Option.some.inj (he.object.symm.trans he'.object)
    rw [hb] at honce
    cases honce
  · have hne : k ≠ k' := by
      rintro rfl
      exact hok ⟨hop, r, m', h, hec⟩
    refine he.dropped hw hdrop he'.lookup hne fun heq => hne ?_
    have hp := hw.data_inj he.object he'.object heq
    exact hw.entry_inj he.lookup (hp ▸ he'.lookup)

/-- The block the cache owns stays in the cache through every call but a
one-shot `get`. -/
theorem cache_step {v : Vec} {d : Bytes} {m m' : BlobManager} {op : BlobOp}
    (hw : m.Wf) (hc : m.cache = v ∧ m.blocks.read v = some d) (hok : ¬OneShotGet m op)
    {r : BlobResult} (h : m.exec op = some (r, m')) :
    m'.cache = v ∧ m'.blocks.read v = some d := by
  obtain ⟨hcache, hread⟩ := hc
  rcases exec_cases hw h with rfl | ⟨k', d', once, -, rfl⟩
      | ⟨k', p', b', d', hop, he', honce, -, -⟩
      | ⟨k', p', b', d', -, he', -, hdrop, hcache'⟩
  · exact ⟨hcache, hread⟩
  · exact ⟨(insert_cache m k' d' once).trans hcache, by
      rw [insert_blocks]; exact newBlob_blocks_old hread d' once⟩
  · exact absurd ⟨k', d', hop, by
      rw [← honce]; exact view_of_entry he'.lookup he'.object he'.block⟩ hok
  · refine ⟨hcache'.trans hcache, ?_⟩
    rw [hdrop.blocks, if_neg, hread]
    rw [← hcache]
    exact (hw.cache_ne he'.object).symm

/-- **Lifetime of a returned buffer.** After any history of calls, a `get` of
a key the history left with bytes `d` succeeds, and the block its buffer
refers to holds `d` in every later state: for a persistent entry until the
next successful `remove` of that key, for a one-shot entry until the next
one-shot `get` of whatever key. -/
theorem buffer_lifetime (ops : List BlobOp) (k : Bytes) :
    ∃ rs m, empty.run ops = some (rs, m) ∧
      ∀ d once, (Map.run Map.empty ops).2 k = some (d, once) →
        ∃ buf m₁, m.get k = some (.success, some buf, m₁)
          ∧ (once = false → ∀ m₂,
              lts.Path (fun m op => ¬SuccessfulRemove k m op) m₁ m₂ →
              m₂.blocks.read buf = some d)
          ∧ (once = true → ∀ m₂, lts.Path (fun m op => ¬OneShotGet m op) m₁ m₂ →
              m₂.blocks.read buf = some d) := by
  obtain ⟨m, hrun, hw, hview⟩ := run_refines wf_empty ops
  rw [view_empty] at hview
  refine ⟨_, m, hrun, fun d once hk => ?_⟩
  rw [← hview] at hk
  obtain ⟨p, b, hlook, hb, hd, rfl⟩ := hw.entry_of_view hk
  cases honce : b.removeOnGet with
  | false =>
      refine ⟨b.data, m, get_persistent hlook hb honce, fun _ m₂ hpath => ?_,
        fun h => by cases h⟩
      have hinv : m₂.Wf ∧ m₂.Entry k p b d := by
        refine hpath.invariant (I := fun m => m.Wf ∧ m.Entry k p b d) ?_
          ⟨hw, hlook, hb, hd⟩
        rintro t a u ⟨hwt, het⟩ hok hst
        obtain ⟨r, hexec⟩ := exec_of_step hst
        exact ⟨exec_wf hwt hexec, persistent_step honce hwt het hok hexec⟩
      exact hinv.2.block
  | true =>
      obtain ⟨c, hc⟩ := hw.cache_live
      obtain ⟨m₁, hget, hdrop, hcache⟩ := get_once hlook hb hc honce
      obtain ⟨hw₁, -⟩ := get_once_wf hw hlook hb hdrop hcache
      refine ⟨b.data, m₁, hget, fun h => by (cases h), fun _ m₂ hpath => ?_⟩
      have hread : m₁.blocks.read b.data = some d := by
        rw [hdrop.blocks, if_neg (hw.cache_ne hb), hd]
      have hinv : m₂.Wf ∧ m₂.cache = b.data ∧ m₂.blocks.read b.data = some d := by
        refine hpath.invariant (I := fun m => m.Wf ∧ m.cache = b.data
          ∧ m.blocks.read b.data = some d) ?_ ⟨hw₁, hcache, hread⟩
        rintro t a u ⟨hwt, hct⟩ hok hst
        obtain ⟨r, hexec⟩ := exec_of_step hst
        exact ⟨exec_wf hwt hexec, cache_step hwt hct hok hexec⟩
      exact hinv.2.2

end BlobManager

end JustCommon
