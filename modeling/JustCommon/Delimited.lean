import Mathlib.Data.List.Count
import Mathlib.Algebra.Order.BigOperators.Group.List
import Mathlib.Algebra.Order.Ring.Nat

/-!
# Records joined by a delimiter

A record of fields is sent as its fields with a delimiter between them and
read back by splitting at every delimiter and insisting on the number of
fields. Nothing is escaped, so the reader sees the fields exactly when
none of them contains the delimiter, and otherwise sees too many pieces:
`parse_join` is the whole story. In particular a record is never read as a
*different* record of the same width.
-/

namespace Delimited

variable {α : Type*} [DecidableEq α]

def join (sep : α) : List (List α) → List α
  | [] => []
  | [f] => f
  | f :: g :: fs => f ++ sep :: join sep (g :: fs)

/-- The pieces of a text, if there are exactly `n`. -/
def parse (sep : α) (n : Nat) (text : List α) : Option (List (List α)) :=
  if (text.splitOn sep).length = n then some (text.splitOn sep) else none

/-! ## What a joined record is made of -/

section Join

omit [DecidableEq α]

variable {sep : α}

/-- A further field goes behind a delimiter. -/
theorem join_append_singleton {fields : List (List α)} (hne : fields ≠ []) (f : List α) :
    join sep (fields ++ [f]) = join sep fields ++ sep :: f := by
  induction fields with
  | nil => exact absurd rfl hne
  | cons g fields ih =>
      cases fields with
      | nil => rfl
      | cons g' fields =>
          have hrest := ih (List.cons_ne_nil g' fields)
          rw [List.cons_append] at hrest ⊢
          rw [List.cons_append, join, hrest, join, List.append_assoc, List.cons_append]

theorem mem_join {x : α} {fields : List (List α)} (h : x ∈ join sep fields) :
    x = sep ∨ ∃ f ∈ fields, x ∈ f := by
  induction fields with
  | nil => exact absurd h List.not_mem_nil
  | cons f fields ih =>
      cases fields with
      | nil => exact Or.inr ⟨f, List.mem_singleton.mpr rfl, h⟩
      | cons g fields =>
          rw [join, List.mem_append, List.mem_cons] at h
          rcases h with hf | rfl | hrest
          · exact Or.inr ⟨f, List.mem_cons_self, hf⟩
          · exact Or.inl rfl
          · exact (ih hrest).imp_right fun ⟨f', hf', hx⟩ =>
              ⟨f', List.mem_cons_of_mem f hf', hx⟩

/-- Fields of one width, with a delimiter behind each but the last. -/
theorem length_join_of_length {n : Nat} {fields : List (List α)} (hne : fields ≠ [])
    (hlen : ∀ f ∈ fields, f.length = n) :
    (join sep fields).length + 1 = fields.length * (n + 1) := by
  induction fields with
  | nil => exact absurd rfl hne
  | cons f fields ih =>
      have hf : f.length = n := hlen f List.mem_cons_self
      cases fields with
      | nil =>
          rw [join, hf, List.length_singleton]
          omega
      | cons g fields =>
          have hrest := ih (List.cons_ne_nil g fields) fun f' hf' =>
            hlen f' (List.mem_cons_of_mem f hf')
          rw [join, List.length_append, List.length_cons, hf, hrest, List.length_cons (a := f),
            Nat.add_one_mul (List.length _)]
          omega

theorem head?_join {f : List α} (hf : f ≠ []) (fields : List (List α)) :
    (join sep (f :: fields)).head? = f.head? := by
  cases fields with
  | nil => rfl
  | cons g fields => rw [join, List.head?_append_of_ne_nil f hf]

theorem getLast?_join {f : List α} (hf : f ≠ []) (fields : List (List α)) :
    (join sep (fields ++ [f])).getLast? = f.getLast? := by
  by_cases hne : fields = []
  · subst hne
    rfl
  · rw [join_append_singleton hne, List.getLast?_append_of_ne_nil _ (List.cons_ne_nil sep f),
      List.getLast?_cons]
    cases hlast : f.getLast? with
    | none => exact absurd (List.getLast?_eq_none_iff.mp hlast) hf
    | some x => rfl

end Join

/-! ## Splitting -/

theorem length_splitOn (sep : α) (text : List α) :
    (text.splitOn sep).length = text.count sep + 1 := by
  induction text with
  | nil => simp
  | cons a rest ih =>
      rw [List.splitOn_cons_eq_if_modifyHead, List.count_cons]
      split
      · rw [List.length_cons, ih]
      · rw [List.length_modifyHead, ih]

/-- Splitting a joined record splits each field. -/
theorem splitOn_join (sep : α) : ∀ {fields : List (List α)}, fields ≠ [] →
    (join sep fields).splitOn sep = (fields.map (·.splitOn sep)).flatten
  | [f], _ => by simp [join]
  | f :: g :: fs, _ => by
      rw [join, List.splitOn_append_cons_self, splitOn_join sep (List.cons_ne_nil g fs)]
      rfl

theorem length_splitOn_join {sep : α} {fields : List (List α)} (hne : fields ≠ []) :
    ((join sep fields).splitOn sep).length
      = fields.length + (fields.map (·.count sep)).sum := by
  rw [splitOn_join sep hne, List.length_flatten, List.map_map]
  clear hne
  induction fields with
  | nil => rfl
  | cons f fs ih =>
      simp only [List.map_cons, List.sum_cons, List.length_cons, Function.comp_apply,
        length_splitOn] at ih ⊢
      omega

/-- Splitting gives the fields back if none contains the delimiter. -/
theorem splitOn_join_of_free {sep : α} {fields : List (List α)} (hne : fields ≠ [])
    (hfree : ∀ f ∈ fields, sep ∉ f) : (join sep fields).splitOn sep = fields := by
  have hsingle : fields.map (·.splitOn sep) = fields.map ([·]) :=
    List.map_congr_left fun f hf => List.splitOn_eq_singleton (hfree f hf)
  rw [splitOn_join sep hne, hsingle]
  exact List.flatMap_singleton' fields

/-! ## Reading a record back -/

/-- **Round trip.** The reader gets the fields back if none contains the
delimiter, and rejects the text otherwise. -/
theorem parse_join (sep : α) {fields : List (List α)} (hne : fields ≠ []) :
    parse sep fields.length (join sep fields)
      = if ∀ f ∈ fields, sep ∉ f then some fields else none := by
  unfold parse
  by_cases hfree : ∀ f ∈ fields, sep ∉ f
  · rw [splitOn_join_of_free hne hfree, if_pos rfl, if_pos hfree]
  · rw [if_neg hfree, if_neg]
    intro hlen
    rw [length_splitOn_join hne] at hlen
    refine hfree fun f hf hmem => ?_
    have hpos : 0 < f.count sep := List.count_pos_iff.mpr hmem
    have hle : f.count sep ≤ (fields.map (·.count sep)).sum :=
      List.le_sum_of_mem (List.mem_map.mpr ⟨f, hf, rfl⟩)
    omega

end Delimited
