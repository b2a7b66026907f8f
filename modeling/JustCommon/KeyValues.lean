import Mathlib.Data.List.Nodup
import Mathlib.Data.List.Perm.Basic

/-!
# Ordered lists of keys and values

A list of entries in which a key may occur more than once. A read sees the
first entry of a key (`List.lookup`), a write (`put`) replaces the value of
that entry or appends one, so no write moves an entry or repeats a key.

`merge` writes the entries of one list into another, each only if `take`
agrees to the value its key has at that point. Since a write to one key is
not seen by a read of another, what becomes of a key depends on the entries
of that key only; the two instances below are `merge` without a condition,
where the last value wins, and `merge` into blanks, where the first value
that is not blank does.
-/

namespace KeyValues

variable {κ ν : Type*}

/-- The keys, in order and with repetitions. -/
def keys (l : List (κ × ν)) : List κ := l.map Prod.fst

@[simp] theorem keys_nil : keys ([] : List (κ × ν)) = [] := rfl

@[simp] theorem keys_cons (p : κ × ν) (l : List (κ × ν)) :
    keys (p :: l) = p.1 :: keys l := rfl

variable [BEq κ] [LawfulBEq κ]

/-- The keys of `src` that `l` lacks, each once, by their first occurrence. -/
def newKeys (l src : List (κ × ν)) : List κ :=
  ((keys src).filter fun k => k ∉ keys l).eraseDups

theorem nodup_eraseDups : ∀ l : List κ, l.eraseDups.Nodup
  | [] => by simp
  | k :: l => by
      rw [List.eraseDups_cons, List.nodup_cons, List.mem_eraseDups, List.mem_filter]
      exact ⟨fun h => by simp at h, nodup_eraseDups _⟩
termination_by l => l.length
decreasing_by exact Nat.lt_succ_of_le (List.length_filter_le ..)

theorem mem_newKeys {l src : List (κ × ν)} {k : κ} :
    k ∈ newKeys l src ↔ k ∈ keys src ∧ k ∉ keys l := by
  rw [newKeys, List.mem_eraseDups, List.mem_filter, decide_eq_true_eq]

theorem nodup_newKeys (l src : List (κ × ν)) : (newKeys l src).Nodup := nodup_eraseDups _

/-! ## Reading -/

theorem lookup_cons_ne {k k' : κ} (h : k' ≠ k) (v : ν) (l : List (κ × ν)) :
    ((k', v) :: l).lookup k = l.lookup k := by
  rw [List.lookup_cons, beq_eq_false_iff_ne.mpr h.symm]

theorem lookup_eq_none {k : κ} {l : List (κ × ν)} : l.lookup k = none ↔ k ∉ keys l := by
  induction l with
  | nil => simp
  | cons p l ih =>
      obtain ⟨k', v⟩ := p
      by_cases h : k' = k
      · subst h
        simp
      · rw [lookup_cons_ne h, ih, keys_cons, List.mem_cons, not_or]
        exact ⟨fun hl => ⟨fun heq => h heq.symm, hl⟩, fun hl => hl.2⟩

/-- The first entry of a key is what a read of the key sees. -/
theorem lookup_of_first {l : List (κ × ν)} {i : Nat} {k : κ} {v : ν}
    (h : l[i]? = some (k, v)) (hfirst : k ∉ (keys l).take i) : l.lookup k = some v := by
  induction l generalizing i with
  | nil => simp at h
  | cons p l ih =>
      obtain ⟨k', v'⟩ := p
      cases i with
      | zero =>
          obtain ⟨rfl, rfl⟩ := Prod.mk.inj (Option.some.inj h)
          simp
      | succ i =>
          rw [keys_cons, List.take_succ_cons, List.mem_cons, not_or] at hfirst
          rw [lookup_cons_ne (fun heq => hfirst.1 heq.symm)]
          exact ih (by simpa using h) hfirst.2

/-- Read backwards, a list shows the last value of a key. -/
theorem lookup_reverse_of_last {l post : List (κ × ν)} {k : κ} (hpost : k ∉ keys post)
    (pre : List (κ × ν)) (v : ν) (h : l = pre ++ (k, v) :: post) :
    l.reverse.lookup k = some v := by
  have hnone : post.reverse.lookup k = none := by
    rw [lookup_eq_none]
    simpa [keys] using hpost
  rw [h, List.reverse_append, List.lookup_append, List.reverse_cons, List.lookup_append,
    hnone]
  simp

theorem lookup_reverse_eq_none {k : κ} {l : List (κ × ν)} :
    l.reverse.lookup k = none ↔ k ∉ keys l := by
  rw [lookup_eq_none]
  simp [keys]

/-- With each key once, only the entries matter and not their order. -/
theorem lookup_perm {l l' : List (κ × ν)} (hperm : l.Perm l') (hnodup : (keys l).Nodup)
    (k : κ) : l.lookup k = l'.lookup k := by
  induction hperm with
  | nil => rfl
  | cons p hperm ih =>
      obtain ⟨k', v⟩ := p
      rw [List.lookup_cons, List.lookup_cons, ih (List.nodup_cons.mp hnodup).2]
  | swap p q l =>
      obtain ⟨k₁, v₁⟩ := p
      obtain ⟨k₂, v₂⟩ := q
      have hne : k₂ ≠ k₁ := fun heq => (List.nodup_cons.mp hnodup).1 (by simp [heq])
      by_cases h₁ : k₁ = k
      · subst h₁
        simp [lookup_cons_ne hne]
      · by_cases h₂ : k₂ = k
        · subst h₂
          simp [lookup_cons_ne h₁]
        · simp [lookup_cons_ne h₁, lookup_cons_ne h₂]
  | trans hperm _ ih ih' =>
      rw [ih hnodup, ih' ((hperm.map Prod.fst).nodup_iff.mp hnodup)]

/-! ## One write -/

variable [DecidableEq κ]

/-- Replace the value of the first entry of a key, or append an entry. -/
def put : List (κ × ν) → κ → ν → List (κ × ν)
  | [], k, v => [(k, v)]
  | (k', v') :: l, k, v => if k' = k then (k', v) :: l else (k', v') :: put l k v

omit [BEq κ] [LawfulBEq κ] in
theorem put_cons_self (k : κ) (v v' : ν) (l : List (κ × ν)) :
    put ((k, v') :: l) k v = (k, v) :: l := by
  rw [put, if_pos rfl]

omit [BEq κ] [LawfulBEq κ] in
theorem put_cons_ne {k k' : κ} (h : k' ≠ k) (v v' : ν) (l : List (κ × ν)) :
    put ((k', v') :: l) k v = (k', v') :: put l k v := by
  rw [put, if_neg h]

@[simp] theorem lookup_put (l : List (κ × ν)) (k k' : κ) (v : ν) :
    (put l k v).lookup k' = if k = k' then some v else l.lookup k' := by
  induction l with
  | nil =>
      by_cases h : k = k'
      · subst h
        simp [put]
      · rw [if_neg h]
        exact lookup_cons_ne h v []
  | cons p l ih =>
      obtain ⟨k₀, v₀⟩ := p
      by_cases h₀ : k₀ = k
      · subst h₀
        rw [put_cons_self, List.lookup_cons, List.lookup_cons]
        by_cases h : k₀ = k'
        · subst h
          simp
        · rw [beq_eq_false_iff_ne.mpr (Ne.symm h), if_neg h]
      · rw [put_cons_ne h₀]
        by_cases h : k₀ = k'
        · subst h
          rw [if_neg (Ne.symm h₀), List.lookup_cons_self, List.lookup_cons_self]
        · rw [lookup_cons_ne h, lookup_cons_ne h, ih]

theorem keys_put (l : List (κ × ν)) (k : κ) (v : ν) :
    keys (put l k v) = if k ∈ keys l then keys l else keys l ++ [k] := by
  induction l with
  | nil => simp [put]
  | cons p l ih =>
      obtain ⟨k', v'⟩ := p
      by_cases h : k' = k
      · subst h
        rw [put_cons_self]
        simp
      · rw [put_cons_ne h, keys_cons, ih, keys_cons]
        by_cases hmem : k ∈ keys l
        · rw [if_pos hmem, if_pos (List.mem_cons_of_mem _ hmem)]
        · rw [if_neg hmem, if_neg (by simp [Ne.symm h, hmem]), List.cons_append]

/-- Putting the value a key already has changes nothing. -/
theorem put_lookup {l : List (κ × ν)} {k : κ} {v : ν} (h : l.lookup k = some v) :
    put l k v = l := by
  induction l with
  | nil => simp at h
  | cons p l ih =>
      obtain ⟨k', v'⟩ := p
      by_cases hk : k' = k
      · subst hk
        rw [List.lookup_cons_self] at h
        rw [put_cons_self, Option.some.inj h]
      · rw [put_cons_ne hk, ih (by rwa [lookup_cons_ne hk] at h)]

/-- A write changes the first entry of its key only. -/
theorem getElem?_put {l : List (κ × ν)} {i : Nat} {k' : κ} {v' : ν}
    (h : l[i]? = some (k', v')) (k : κ) (v : ν) :
    (put l k v)[i]? = some (k', if k' = k ∧ k ∉ (keys l).take i then v else v') := by
  induction l generalizing i with
  | nil => simp at h
  | cons p l ih =>
      obtain ⟨k₀, v₀⟩ := p
      cases i with
      | zero =>
          obtain ⟨rfl, rfl⟩ := Prod.mk.inj (Option.some.inj h)
          by_cases hk : k₀ = k
          · subst hk
            simp [put_cons_self]
          · simp [put_cons_ne hk, hk]
      | succ i =>
          rw [List.getElem?_cons_succ] at h
          by_cases hk : k₀ = k
          · subst hk
            simp [put_cons_self, h]
          · rw [put_cons_ne hk, List.getElem?_cons_succ, ih h]
            simp [Ne.symm hk]

/-! ## Many writes -/

section Merge

/-- Put the entries of `src` in order, each if `take` agrees to the value its
key has by then. -/
def merge (take : Option ν → Bool) (l src : List (κ × ν)) : List (κ × ν) :=
  src.foldl (fun l p => if take (l.lookup p.1) then put l p.1 p.2 else l) l

variable {take : Option ν → Bool}

omit [LawfulBEq κ] in
@[simp] theorem merge_nil (l : List (κ × ν)) : merge take l [] = l := rfl

omit [LawfulBEq κ] in
theorem merge_cons (l : List (κ × ν)) (p : κ × ν) (src : List (κ × ν)) :
    merge take l (p :: src)
      = merge take (if take (l.lookup p.1) then put l p.1 p.2 else l) src := rfl

/-- A merge that takes what is missing keeps the keys and appends the new ones. -/
theorem keys_merge (hnone : take none = true) (l src : List (κ × ν)) :
    keys (merge take l src) = keys l ++ newKeys l src := by
  induction src generalizing l with
  | nil => simp [newKeys]
  | cons p src ih =>
      rw [merge_cons, ih]
      by_cases hmem : p.1 ∈ keys l
      · have hkeys : keys (if take (l.lookup p.1) then put l p.1 p.2 else l) = keys l := by
          split
          · rw [keys_put, if_pos hmem]
          · rfl
        simp only [newKeys, hkeys, keys_cons, List.filter_cons, hmem, not_true,
          decide_false, Bool.false_eq_true, if_false]
      · have hput : keys (if take (l.lookup p.1) then put l p.1 p.2 else l)
            = keys l ++ [p.1] := by
          rw [lookup_eq_none.mpr hmem, if_pos hnone, keys_put, if_neg hmem]
        simp only [newKeys, hput, keys_cons, List.filter_cons, hmem, not_false_iff,
          decide_true, if_true, List.eraseDups_cons, List.append_assoc, List.singleton_append,
          List.filter_filter, List.mem_append, List.mem_singleton, not_or]
        congr 3
        refine List.filter_congr fun k _ => ?_
        by_cases hk : k = p.1 <;> simp [hk]

/-- A merge changes the first entry of a key only, and only if `take` agrees to
the value it has. -/
theorem getElem?_merge {l : List (κ × ν)} {i : Nat} {k : κ} {v : ν}
    (h : l[i]? = some (k, v)) (src : List (κ × ν)) :
    ∃ v', (merge take l src)[i]? = some (k, v')
      ∧ (v' = v ∨ (take (some v) = true ∧ k ∉ (keys l).take i)) := by
  induction src generalizing l v with
  | nil => exact ⟨v, h, Or.inl rfl⟩
  | cons p src ih =>
      rw [merge_cons]
      split
      · rename_i htake
        have hi : i < (keys l).length := by
          rw [keys, List.length_map]
          exact (List.getElem?_eq_some_iff.mp h).1
        -- the keys before the entry are not touched
        have hbefore : (keys (put l p.1 p.2)).take i = (keys l).take i := by
          rw [keys_put]
          split
          · rfl
          · rw [List.take_append_of_le_length (Nat.le_of_lt hi)]
        obtain ⟨v', hv', hor⟩ := ih (getElem?_put h p.1 p.2)
        refine ⟨v', hv', ?_⟩
        rw [hbefore] at hor
        by_cases hfirst : k = p.1 ∧ p.1 ∉ (keys l).take i
        · obtain ⟨rfl, hnew⟩ := hfirst
          rw [lookup_of_first h hnew] at htake
          exact Or.inr ⟨htake, hnew⟩
        · rwa [if_neg hfirst] at hor
      · exact ih h

end Merge

/-! ## The last value wins -/

theorem lookup_overwrite (l src : List (κ × ν)) (k : κ) :
    (merge (fun _ => true) l src).lookup k = (src.reverse.lookup k).or (l.lookup k) := by
  induction src generalizing l with
  | nil => rfl
  | cons p src ih =>
      obtain ⟨k', v⟩ := p
      rw [merge_cons, if_pos rfl, ih, List.reverse_cons, List.lookup_append, Option.or_assoc,
        lookup_put]
      by_cases h : k' = k
      · subst h
        simp
      · rw [if_neg h, lookup_cons_ne h]
        rfl

/-! ## The first value that is not blank wins -/

section Fill

variable (blank : ν → Bool)

/-- The value of a key, unless it is blank. -/
def solid (l : List (κ × ν)) (k : κ) : Option ν := (l.lookup k).filter fun v => !blank v

/-- Merge into what is missing or blank. -/
def fill (l src : List (κ × ν)) : List (κ × ν) := merge (fun o => o.all blank) l src

omit [LawfulBEq κ] [DecidableEq κ] in
theorem solid_eq_none_iff {l : List (κ × ν)} {k : κ} :
    solid blank l k = none ↔ (l.lookup k).all blank = true := by
  rw [solid]
  cases l.lookup k with
  | none => simp
  | some v => simp

/-- One step of a fill: a value that is not blank goes where there was none. -/
theorem solid_step (l : List (κ × ν)) (p : κ × ν) (k : κ) :
    solid blank (if (l.lookup p.1).all blank then put l p.1 p.2 else l) k
      = (solid blank l k).or (if p.1 = k ∧ blank p.2 = false then some p.2 else none) := by
  obtain ⟨k', v⟩ := p
  by_cases hk : k' = k
  · subst hk
    by_cases htake : (l.lookup k').all blank = true
    · have hold : solid blank l k' = none := (solid_eq_none_iff blank).mpr htake
      have hnew : solid blank (put l k' v) k' = (some v).filter fun v => !blank v := by
        rw [solid, lookup_put, if_pos rfl]
      rw [if_pos htake, hnew, hold, Option.none_or]
      cases hv : blank v with
      | true => simp [hv, Option.filter]
      | false => simp [hv, Option.filter]
    · obtain ⟨v₀, hv₀⟩ := Option.ne_none_iff_exists'.mp fun hnone =>
        htake ((solid_eq_none_iff blank).mp hnone)
      rw [if_neg htake, hv₀, Option.some_or]
  · have hother : ¬(k' = k ∧ blank v = false) := fun h => hk h.1
    rw [if_neg hother, Option.or_none]
    split
    · rw [solid, lookup_put, if_neg hk, solid]
    · rfl

theorem solid_fill (l src : List (κ × ν)) (k : κ) :
    solid blank (fill blank l src) k
      = (solid blank l k).or
        ((src.find? fun p => p.1 = k ∧ blank p.2 = false).map Prod.snd) := by
  unfold fill
  induction src generalizing l with
  | nil => simp
  | cons p src ih =>
      rw [merge_cons, ih, solid_step, Option.or_assoc]
      by_cases hp : p.1 = k ∧ blank p.2 = false
      · rw [if_pos hp, List.find?_cons_of_pos (by simpa using hp), Option.some_or,
          Option.map_some]
      · rw [if_neg hp, List.find?_cons_of_neg (by simpa using hp), Option.none_or]

theorem keys_fill (l src : List (κ × ν)) :
    keys (fill blank l src) = keys l ++ newKeys l src := keys_merge rfl l src

/-- A fill changes the first entry of a key only, and only if its value is
blank. -/
theorem getElem?_fill {l : List (κ × ν)} {i : Nat} {k : κ} {v : ν}
    (h : l[i]? = some (k, v)) (src : List (κ × ν)) :
    ∃ v', (fill blank l src)[i]? = some (k, v')
      ∧ (v' = v ∨ (blank v = true ∧ k ∉ (keys l).take i)) := by
  obtain ⟨v', hv', hor⟩ := getElem?_merge h src
  exact ⟨v', hv', hor⟩

/-- After a fill every key of `src` is there. -/
theorem mem_keys_fill {l src : List (κ × ν)} {p : κ × ν} (hp : p ∈ src) :
    p.1 ∈ keys (fill blank l src) := by
  rw [keys_fill, List.mem_append, mem_newKeys]
  by_cases hin : p.1 ∈ keys l
  · exact Or.inl hin
  · exact Or.inr ⟨List.mem_map_of_mem hp, hin⟩

/-- What is blank after a fill had only blanks to be filled with. -/
theorem blank_of_fill {l src : List (κ × ν)} {p : κ × ν} (hp : p ∈ src)
    (h : ((fill blank l src).lookup p.1).all blank = true) : blank p.2 = true := by
  have hnone := (solid_eq_none_iff blank).mpr h
  rw [solid_fill, Option.or_eq_none_iff, Option.map_eq_none_iff, List.find?_eq_none] at hnone
  simpa using hnone.2 p hp

/-- After a fill, one more step with an entry of `src` changes nothing, if there
is one blank value. -/
theorem fill_step_eq (hblank : ∀ v v', blank v = true → blank v' = true → v = v')
    {l src : List (κ × ν)} {p : κ × ν} (hp : p ∈ src) :
    (if ((fill blank l src).lookup p.1).all blank
      then put (fill blank l src) p.1 p.2 else fill blank l src) = fill blank l src := by
  split
  · rename_i htake
    cases hl : (fill blank l src).lookup p.1 with
    | none => exact absurd (mem_keys_fill blank hp) (lookup_eq_none.mp hl)
    | some v =>
        have hv : blank v = true := by
          rw [hl] at htake
          simpa using htake
        have hsame : p.2 = v := hblank _ _ (blank_of_fill blank hp htake) hv
        rw [hsame]
        exact put_lookup hl
  · rfl

/-- Filling a second time changes nothing, if there is one blank value. -/
theorem fill_fill (hblank : ∀ v v', blank v = true → blank v' = true → v = v')
    (l src : List (κ × ν)) : fill blank (fill blank l src) src = fill blank l src := by
  have hkeep : ∀ rest, (∀ p ∈ rest, p ∈ src) →
      merge (fun o => o.all blank) (fill blank l src) rest = fill blank l src := by
    intro rest
    induction rest with
    | nil => exact fun _ => rfl
    | cons p rest ih =>
        intro hsub
        rw [merge_cons, fill_step_eq blank hblank (hsub p List.mem_cons_self)]
        exact ih fun q hq => hsub q (List.mem_cons_of_mem _ hq)
  exact hkeep src fun _ hp => hp

end Fill

/-! ## What any number of writes leave -/

omit [BEq κ] [LawfulBEq κ] [DecidableEq κ] in
theorem keys_append (l l' : List (κ × ν)) : keys (l ++ l') = keys l ++ keys l' :=
  List.map_append

omit [BEq κ] [LawfulBEq κ] [DecidableEq κ] in
theorem length_keys (l : List (κ × ν)) : (keys l).length = l.length := List.length_map _

omit [BEq κ] [LawfulBEq κ] [DecidableEq κ] in
theorem exists_last_entry {l : List (κ × ν)} {k : κ} (h : k ∈ keys l) :
    ∃ before v after, l = before ++ (k, v) :: after ∧ k ∉ keys after := by
  induction l with
  | nil => exact absurd h List.not_mem_nil
  | cons p l ih =>
      by_cases hmem : k ∈ keys l
      · obtain ⟨before, v, after, rfl, hafter⟩ := ih hmem
        exact ⟨p :: before, v, after, rfl, hafter⟩
      · obtain rfl : k = p.1 := (List.mem_cons.mp h).resolve_right hmem
        exact ⟨[], p.2, l, rfl, hmem⟩

/-- `l'` has the keys of `l` and then new ones, each once, and an entry behind
another one of its key is as it was. -/
structure Grown (l l' : List (κ × ν)) : Prop where
  more : ∃ new, keys l' = keys l ++ new ∧ new.Nodup ∧ ∀ k ∈ new, k ∉ keys l
  repeated : ∀ (i : Nat) k v, l[i]? = some (k, v) → k ∈ (keys l).take i → l'[i]? = some (k, v)

namespace Grown

variable {l l' l'' : List (κ × ν)}

omit [BEq κ] [LawfulBEq κ] [DecidableEq κ] in
theorem refl (l : List (κ × ν)) : Grown l l :=
  ⟨⟨[], (List.append_nil _).symm, List.nodup_nil, fun _ h => absurd h List.not_mem_nil⟩,
    fun _ _ _ h _ => h⟩

omit [BEq κ] [LawfulBEq κ] [DecidableEq κ] in
theorem trans (h : Grown l l') (h' : Grown l' l'') : Grown l l'' := by
  obtain ⟨new, hkeys, hnew, hfresh⟩ := h.more
  obtain ⟨new', hkeys', hnew', hfresh'⟩ := h'.more
  refine ⟨⟨new ++ new', ?_, ?_, ?_⟩, ?_⟩
  · rw [hkeys', hkeys, List.append_assoc]
  · refine hnew.append hnew' fun k hk hk' => hfresh' k hk' ?_
    rw [hkeys]
    exact List.mem_append_right _ hk
  · intro k hk hold
    rcases List.mem_append.mp hk with hk | hk
    · exact hfresh k hk hold
    · refine hfresh' k hk ?_
      rw [hkeys]
      exact List.mem_append_left _ hold
  · intro i k v hentry hbefore
    refine h'.repeated i k v (h.repeated i k v hentry hbefore) ?_
    have hi : i ≤ (keys l).length := by
      rw [length_keys]
      exact Nat.le_of_lt (List.getElem?_eq_some_iff.mp hentry).1
    rw [hkeys, List.take_append_of_le_length hi]
    exact hbefore

theorem merge {take : Option ν → Bool} (hnone : take none = true) (l src : List (κ × ν)) :
    Grown l (KeyValues.merge take l src) := by
  refine ⟨⟨newKeys l src, keys_merge hnone l src, nodup_newKeys l src,
    fun k hk => (mem_newKeys.mp hk).2⟩, fun i k v hentry hbefore => ?_⟩
  obtain ⟨v', hv', hor⟩ : ∃ v', (KeyValues.merge take l src)[i]? = some (k, v')
      ∧ (v' = v ∨ (take (some v) = true ∧ k ∉ (keys l).take i)) := getElem?_merge hentry src
  rcases hor with rfl | ⟨-, hfirst⟩
  · exact hv'
  · exact absurd hbefore hfirst

theorem put (l : List (κ × ν)) (k : κ) (v : ν) : Grown l (KeyValues.put l k v) := by
  -- a merge of one entry, which is taken
  have hmerge : Grown l (KeyValues.merge (fun _ => true) l [(k, v)]) := merge rfl l [(k, v)]
  exact hmerge

omit [DecidableEq κ] in
/-- A key that is not repeated does not get to be. -/
theorem once (h : Grown l l') {k : κ} (hk : (keys l).count k ≤ 1) : (keys l').count k ≤ 1 := by
  obtain ⟨new, hkeys, hnew, hfresh⟩ := h.more
  rw [hkeys, List.count_append]
  by_cases hmem : k ∈ new
  · have hold : (keys l).count k = 0 := List.count_eq_zero_of_not_mem (hfresh k hmem)
    have hone : new.count k ≤ 1 := List.nodup_iff_count_le_one.mp hnew k
    omega
  · have hzero : new.count k = 0 := List.count_eq_zero_of_not_mem hmem
    omega

omit [DecidableEq κ] in
/-- The last value of a repeated key stays. -/
theorem last (h : Grown l l') {k : κ} (hk : 2 ≤ (keys l).count k) :
    l'.reverse.lookup k = l.reverse.lookup k := by
  have hmem : k ∈ keys l := List.count_pos_iff.mp (by omega)
  obtain ⟨before, v, after, rfl, hafter⟩ := exists_last_entry hmem
  obtain ⟨new, hkeys, -, hfresh⟩ := h.more
  have hbefore : k ∈ keys before := by
    have hcount : (keys after).count k = 0 := List.count_eq_zero_of_not_mem hafter
    rw [keys_append, keys_cons, List.count_append, List.count_cons_self] at hk
    exact List.count_pos_iff.mp (by omega)
  have htake : (keys (before ++ (k, v) :: after)).take before.length = keys before := by
    rw [keys_append, List.take_left' (length_keys before)]
  -- the entry is where it was, and what follows it are the keys that did and new ones
  have hentry : l'[before.length]? = some (k, v) := by
    refine h.repeated _ k v ?_ (htake.symm ▸ hbefore)
    rw [List.getElem?_append_right (Nat.le_refl _), Nat.sub_self, List.getElem?_cons_zero]
  have hsplit : l' = l'.take before.length ++ (k, v) :: l'.drop (before.length + 1) := by
    obtain ⟨hlt, hget⟩ := List.getElem?_eq_some_iff.mp hentry
    rw [← hget, ← List.drop_eq_getElem_cons hlt, List.take_append_drop]
  have hrest : k ∉ keys (l'.drop (before.length + 1)) := by
    rw [keys, List.map_drop, ← keys, hkeys, keys_append, List.append_assoc,
      ← List.drop_drop, List.drop_left' (length_keys before), keys_cons, List.cons_append,
      List.drop_succ_cons, List.drop_zero, List.mem_append, not_or]
    exact ⟨hafter, fun hnew => hfresh k hnew hmem⟩
  rw [lookup_reverse_of_last hrest _ _ hsplit, lookup_reverse_of_last hafter before v rfl]

end Grown

omit [DecidableEq κ] in
/-- The only value of a key is the first one and the last one. -/
theorem lookup_reverse_of_once {l : List (κ × ν)} {k : κ} (hk : (keys l).count k ≤ 1) :
    l.reverse.lookup k = l.lookup k := by
  induction l with
  | nil => rfl
  | cons p l ih =>
      obtain ⟨k', v⟩ := p
      rw [keys_cons, List.count_cons] at hk
      rw [List.reverse_cons, List.lookup_append]
      by_cases h : k' = k
      · subst h
        have hnone : k' ∉ keys l := by
          intro hmem
          have hpos : 0 < (keys l).count k' := List.count_pos_iff.mpr hmem
          rw [beq_self_eq_true, if_pos rfl] at hk
          omega
        rw [lookup_reverse_eq_none.mpr hnone, Option.none_or, List.lookup_cons_self,
          List.lookup_cons_self]
      · have hrest : (keys l).count k ≤ 1 := by omega
        rw [ih hrest, lookup_cons_ne h, lookup_cons_ne h, List.lookup_nil, Option.or_none]

end KeyValues
