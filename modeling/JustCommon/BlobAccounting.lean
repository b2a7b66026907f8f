import JustCommon.BlobLifetime

/-!
# Who deletes a `Blob`

The map holds owning pointers, so every `Blob` allocated and not deleted
should be the one some entry points to. `insert` allocates before it knows
whether the key is free. When the key is taken, nothing points to the new
`Blob` and nothing ever deletes it: `Leaked` only grows, and it grows at
those insertions and at no other call.
-/

namespace JustCommon

open OneShot

namespace BlobManager

/-- The live `Blob` at `p` is pointed to by no entry. -/
def Leaked (m : BlobManager) (p : Nat) : Prop :=
  (∃ b, m.objects.read p = some b) ∧ ∀ k, m.blobs.lookup k ≠ some p

/-- The live `Blob`s are those the entries point to, one each, and a call
deletes none but those. -/
structure OwnedOnce (m : BlobManager) : Prop where
  live_iff : ∀ p, p ∈ m.objects.live ↔ ∃ k, m.blobs.lookup k = some p
  one_entry : ∀ k k' p, m.blobs.lookup k = some p → m.blobs.lookup k' = some p → k = k'
  size : m.objects.live.card = m.blobs.keys.length
  deletes : ∀ op, ∃ r m', m.exec op = some (r, m')
    ∧ ∀ p ∈ m.objects.live, p ∉ m'.objects.live → ∃ k, m.blobs.lookup k = some p

/-! ## What a call does to the leaked objects -/

theorem Dropped.leaked_iff {m m' : BlobManager} {k : Bytes} {p q : Nat} {v : Vec}
    (h : m.Dropped m' k p v) (hk : m.blobs.lookup k = some p) :
    m'.Leaked q ↔ m.Leaked q := by
  constructor
  · rintro ⟨⟨b, hb⟩, hno⟩
    obtain ⟨hq, hb'⟩ := h.object_some hb
    refine ⟨⟨b, hb'⟩, fun k' hk' => hno k' ?_⟩
    have hne : k' ≠ k := by
      rintro rfl
      exact hq (Option.some.inj (hk'.symm.trans hk))
    rw [h.blobs, AList.lookup_erase_ne hne]
    exact hk'
  · rintro ⟨⟨b, hb⟩, hno⟩
    have hq : q ≠ p := by
      rintro rfl
      exact hno k hk
    refine ⟨⟨b, ?_⟩, fun k' hk' => hno k' (h.lookup_some hk').2⟩
    rw [h.objects, if_neg hq, hb]

theorem newBlob_live_iff (m : BlobManager) (d : Bytes) (once : Bool) (q : Nat) :
    (∃ b, (m.newBlob d once).2.objects.read q = some b)
      ↔ q = m.objects.fresh ∨ ∃ b, m.objects.read q = some b := by
  simp only [newBlob_objects]
  by_cases hq : q = m.objects.fresh
  · simp [hq]
  · simp [hq]

theorem Wf.lookup_ne_fresh {m : BlobManager} (hw : m.Wf) (k : Bytes) :
    m.blobs.lookup k ≠ some m.objects.fresh := by
  intro h
  obtain ⟨b, hb⟩ := hw.entry_live h
  exact Heap.ne_fresh hb rfl

/-- At a free key the new `Blob` gets an entry. -/
theorem insert_leaked_absent {m : BlobManager} {k : Bytes}
    (hk : m.blobs.lookup k = none) (d : Bytes) (once : Bool) (q : Nat) :
    (m.insert k d once).2.Leaked q ↔ m.Leaked q := by
  rw [insert_absent hk]
  simp only [Leaked, newBlob_live_iff]
  constructor
  · rintro ⟨rfl | hlive, hno⟩
    · exact absurd (AList.lookup_insert _) (hno k)
    · refine ⟨hlive, fun k' hk' => hno k' ?_⟩
      have hne : k' ≠ k := by
        rintro rfl
        rw [hk] at hk'
        cases hk'
      exact (AList.lookup_insert_ne hne).trans hk'
  · rintro ⟨hlive, hno⟩
    refine ⟨Or.inr hlive, fun k' hk' => ?_⟩
    rcases lookup_insert_cases hk' with ⟨-, rfl⟩ | ⟨-, hold⟩
    · obtain ⟨b, hb⟩ := hlive
      exact Heap.ne_fresh hb rfl
    · exact hno k' hold

/-- At a taken key the new `Blob` is lost. -/
theorem insert_leaked_present {m : BlobManager} (hw : m.Wf) {k : Bytes} {p : Nat}
    (hk : m.blobs.lookup k = some p) (d : Bytes) (once : Bool) (q : Nat) :
    (m.insert k d once).2.Leaked q ↔ q = m.objects.fresh ∨ m.Leaked q := by
  rw [insert_present hk]
  simp only [Leaked, newBlob_live_iff]
  constructor
  · rintro ⟨rfl | hlive, hno⟩
    · exact Or.inl rfl
    · exact Or.inr ⟨hlive, hno⟩
  · rintro (rfl | ⟨hlive, hno⟩)
    · exact ⟨Or.inl rfl, hw.lookup_ne_fresh⟩
    · exact ⟨Or.inr hlive, hno⟩

/-- A call adds to the leaked objects exactly if it inserts at a taken key. -/
theorem exec_leaked {m m' : BlobManager} {op : BlobOp} {r : BlobResult} (hw : m.Wf)
    (h : m.exec op = some (r, m')) :
    ((∀ k d once, op = .insert k d once → m.view k = none) ∧ ∀ q, m'.Leaked q ↔ m.Leaked q)
      ∨ (¬(∀ k d once, op = .insert k d once → m.view k = none)
        ∧ (∀ q, m.Leaked q → m'.Leaked q) ∧ ∃ q, m'.Leaked q) := by
  rcases exec_cases hw h with rfl | ⟨k, d, once, rfl, rfl⟩
      | ⟨k, p, b, d, rfl, he, -, hdrop, -⟩ | ⟨k, p, b, d, rfl, he, -, hdrop, -⟩
  · -- an insertion always changes the heap, so this is another call
    cases op with
    | insert k d once =>
        exfalso
        obtain ⟨-, hsame⟩ := Prod.mk.injEq .. |>.mp (Option.some.inj h)
        have hlive := (newBlob_live_iff m' d once m'.objects.fresh).mpr (Or.inl rfl)
        rw [← insert_objects m' k d once, hsame] at hlive
        obtain ⟨b, hb⟩ := hlive
        exact Heap.ne_fresh hb rfl
    | get k => exact Or.inl ⟨fun _ _ _ hop => (by cases hop), fun q => Iff.rfl⟩
    | remove k => exact Or.inl ⟨fun _ _ _ hop => (by cases hop), fun q => Iff.rfl⟩
  · rcases hw.lookup_cases k with hk | ⟨p, b, c, hk, hb, hc⟩
    · left
      refine ⟨?_, insert_leaked_absent hk d once⟩
      rintro k' d' once' ⟨⟩
      exact view_of_absent hk
    · right
      have hview := view_of_entry hk hb hc
      refine ⟨fun hall => ?_, fun q hq => ?_, m.objects.fresh, ?_⟩
      · rw [hall k d once rfl] at hview
        cases hview
      · exact (insert_leaked_present hw hk d once q).mpr (Or.inr hq)
      · exact (insert_leaked_present hw hk d once _).mpr (Or.inl rfl)
  · exact Or.inl ⟨fun _ _ _ hop => (by cases hop), fun q => hdrop.leaked_iff he.lookup⟩
  · exact Or.inl ⟨fun _ _ _ hop => (by cases hop), fun q => hdrop.leaked_iff he.lookup⟩

/-- Nothing is leaked by a history of calls exactly if nothing was before and
every insertion found its key free. -/
theorem run_leaked {m : BlobManager} (hw : m.Wf) (ops : List BlobOp) :
    ∃ rs m', m.run ops = some (rs, m') ∧ m'.Wf
      ∧ ((∀ q, ¬m'.Leaked q) ↔ (∀ q, ¬m.Leaked q) ∧ Map.FreshInserts m.view ops) := by
  induction ops generalizing m with
  | nil => exact ⟨[], m, rfl, hw, by simp [Map.FreshInserts]⟩
  | cons op ops ih =>
      obtain ⟨m₁, hexec, hw₁, hview⟩ := exec_refines hw op
      obtain ⟨rs, m', hrun, hw', hiff⟩ := ih hw₁
      refine ⟨BlobResult.ofReply op (Map.exec m.view op).1 :: rs, m', ?_, hw', ?_⟩
      · simp [run, hexec, hrun]
      rw [hiff, hview, Map.FreshInserts]
      rcases exec_leaked hw hexec with ⟨hfresh, hsame⟩ | ⟨hstale, hgrow, q, hq⟩
      · simp only [hsame]
        exact ⟨fun hall => ⟨hall.1, hfresh, hall.2⟩, fun hall => ⟨hall.1, hall.2.2⟩⟩
      · constructor
        · rintro ⟨hnone, -⟩
          exact absurd hq (hnone q)
        · rintro ⟨-, hfresh, -⟩
          exact absurd hfresh hstale

/-! ## Ownership and leaks -/

theorem live_card {m : BlobManager} (hw : m.Wf) (hnone : ∀ q, ¬m.Leaked q) :
    m.objects.live.card = m.blobs.keys.length := by
  rw [← List.toFinset_card_of_nodup m.blobs.keys_nodup]
  symm
  have hentry : ∀ k ∈ m.blobs.keys.toFinset,
      m.blobs.lookup k = some ((m.blobs.lookup k).getD 0) := by
    intro k hk
    have hsome := AList.lookup_isSome.mpr (AList.mem_keys.mpr (List.mem_toFinset.mp hk))
    obtain ⟨p, hp⟩ := Option.isSome_iff_exists.mp hsome
    rw [hp, Option.getD_some]
  refine Finset.card_bij (fun k _ => (m.blobs.lookup k).getD 0) ?_ ?_ ?_
  · intro k hk
    exact Heap.mem_live.mpr (hw.entry_live (hentry k hk))
  · intro k hk k' hk' heq
    have hp := hentry k hk
    rw [heq] at hp
    exact hw.entry_inj hp (hentry k' hk')
  · intro p hp
    have hkey : ∃ k, m.blobs.lookup k = some p := by
      by_contra hno
      exact hnone p ⟨Heap.mem_live.mp hp, not_exists.mp hno⟩
    obtain ⟨k, hk⟩ := hkey
    refine ⟨k, ?_, by rw [hk, Option.getD_some]⟩
    rw [List.mem_toFinset]
    exact AList.mem_keys.mp (AList.lookup_isSome.mp (by rw [hk]; rfl))

/-- What a call deletes was pointed to by the entry it drops. -/
theorem exec_deletes {m m' : BlobManager} {op : BlobOp} {r : BlobResult} (hw : m.Wf)
    (h : m.exec op = some (r, m')) {p : Nat} (hp : p ∈ m.objects.live)
    (hp' : p ∉ m'.objects.live) : ∃ k, m.blobs.lookup k = some p := by
  have hdropped : ∀ {k q v}, m.blobs.lookup k = some q → m.Dropped m' k q v →
      ∃ k, m.blobs.lookup k = some p := by
    intro k q v hk hdrop
    refine ⟨k, ?_⟩
    by_contra hne
    have hpq : p ≠ q := by
      rintro rfl
      exact hne hk
    obtain ⟨b, hb⟩ := Heap.mem_live.mp hp
    exact hp' (Heap.mem_live.mpr ⟨b, by rw [hdrop.objects, if_neg hpq, hb]⟩)
  rcases exec_cases hw h with rfl | ⟨k, d, once, -, rfl⟩
      | ⟨k, q, b, d, -, he, -, hdrop, -⟩ | ⟨k, q, b, d, -, he, -, hdrop, -⟩
  · exact absurd hp hp'
  · obtain ⟨b, hb⟩ := Heap.mem_live.mp hp
    refine absurd (Heap.mem_live.mpr ⟨b, ?_⟩) hp'
    rw [insert_objects]
    exact newBlob_objects_old hb d once
  · exact hdropped he.lookup hdrop
  · exact hdropped he.lookup hdrop

theorem ownedOnce_iff {m : BlobManager} (hw : m.Wf) :
    m.OwnedOnce ↔ ∀ q, ¬m.Leaked q := by
  constructor
  · rintro h q ⟨hlive, hno⟩
    obtain ⟨k, hk⟩ := (h.live_iff q).mp (Heap.mem_live.mpr hlive)
    exact hno k hk
  · intro hnone
    refine ⟨fun p => ⟨fun hp => ?_, ?_⟩, fun k k' p => hw.entry_inj, live_card hw hnone, ?_⟩
    · by_contra hno
      exact hnone p ⟨Heap.mem_live.mp hp, not_exists.mp hno⟩
    · rintro ⟨k, hk⟩
      exact Heap.mem_live.mpr (hw.entry_live hk)
    · intro op
      obtain ⟨m', hexec, -⟩ := exec_refines hw op
      exact ⟨_, m', hexec, fun p hp hp' => exec_deletes hw hexec hp hp'⟩

/-- **Every `Blob` has its owner unless a taken key is inserted again.** After
any history of calls the live `Blob`s are those of the map, each once, if and
only if every insertion of the history found its key free. -/
theorem blobs_owned_once_iff (ops : List BlobOp) :
    ∃ rs m, empty.run ops = some (rs, m)
      ∧ (m.OwnedOnce ↔ Map.FreshInserts Map.empty ops) := by
  obtain ⟨rs, m, hrun, hw, hiff⟩ := run_leaked wf_empty ops
  have hstart : ∀ q, ¬empty.Leaked q := by
    rintro q ⟨⟨b, hb⟩, -⟩
    simp [empty] at hb
  refine ⟨rs, m, hrun, ?_⟩
  rw [ownedOnce_iff hw, hiff, view_empty]
  exact ⟨And.right, fun h => ⟨hstart, h⟩⟩

/-- The same key twice: two `Blob`s are live, one entry is there. -/
theorem repeated_insert_leaks :
    ∃ rs m, empty.run [.insert (ascii "key") [1] false, .insert (ascii "key") [2] false]
        = some (rs, m)
      ∧ m.objects.live.card = 2 ∧ m.blobs.keys.length = 1 ∧ ¬m.OwnedOnce := by
  have hcounts : (empty.run [.insert (ascii "key") [1] false,
      .insert (ascii "key") [2] false]).map
        (fun out => (out.2.objects.live.card, out.2.blobs.keys.length)) = some (2, 1) := by
    decide +kernel
  obtain ⟨⟨rs, m⟩, hrun, hout⟩ := Option.map_eq_some_iff.mp hcounts
  obtain ⟨hlive, hkeys⟩ := Prod.mk.injEq .. |>.mp hout
  refine ⟨rs, m, hrun, hlive, hkeys, fun h => ?_⟩
  have hsize := h.size
  rw [hlive, hkeys] at hsize
  cases hsize

end BlobManager

end JustCommon
