import Mathlib.Data.Finset.Card
import Mathlib.Data.Finset.Filter
import Mathlib.Data.Finset.Range
import Mathlib.Data.List.Nodup

/-!
# A heap of owned cells

Cells are addressed in the order they were allocated. Freeing a cell
empties it but keeps its place, so an address is never handed out twice
and a stale address is recognisable: reading it gives `none`. `write` and
`free` are partial, and `none` there is undefined behaviour of the program
that called them (a dangling write, a double free).

Each operation is described by what `read` gives afterwards
(`read_alloc`, `read_write`, `read_free`); nothing else unfolds the
representation.
-/

/-- The cells ever allocated; `none` once freed. -/
structure Heap (α : Type*) where
  cells : List (Option α)
deriving Repr, DecidableEq

namespace Heap

variable {α : Type*}

def empty : Heap α := ⟨[]⟩

/-- The content of a live cell. -/
def read (h : Heap α) (p : Nat) : Option α := (h.cells[p]?).join

/-- The address the next allocation returns. -/
def fresh (h : Heap α) : Nat := h.cells.length

def alloc (h : Heap α) (a : α) : Nat × Heap α :=
  (h.fresh, ⟨h.cells ++ [some a]⟩)

def write (h : Heap α) (p : Nat) (a : α) : Option (Heap α) :=
  if (h.read p).isSome then some ⟨h.cells.set p (some a)⟩ else none

def free (h : Heap α) (p : Nat) : Option (Heap α) :=
  if (h.read p).isSome then some ⟨h.cells.set p none⟩ else none

/-- The addresses allocated and not freed. -/
def live (h : Heap α) : Finset Nat :=
  (Finset.range h.cells.length).filter fun p => (h.read p).isSome

/-! ## What each operation leaves to read -/

@[simp] theorem read_empty (p : Nat) : (empty : Heap α).read p = none := rfl

@[simp] theorem alloc_fst (h : Heap α) (a : α) : (h.alloc a).1 = h.fresh := rfl

@[simp] theorem read_fresh (h : Heap α) : h.read h.fresh = none := by
  simp [read, fresh]

theorem ne_fresh {h : Heap α} {p : Nat} {a : α} (hp : h.read p = some a) :
    p ≠ h.fresh := by
  rintro rfl
  simp at hp

theorem lt_of_read {h : Heap α} {p : Nat} {a : α} (hp : h.read p = some a) :
    p < h.cells.length := by
  by_contra hge
  rw [read, List.getElem?_eq_none (by omega)] at hp
  cases hp

theorem mem_live {h : Heap α} {p : Nat} : p ∈ h.live ↔ ∃ a, h.read p = some a := by
  rw [live, Finset.mem_filter, Finset.mem_range, Option.isSome_iff_exists]
  constructor
  · exact And.right
  · rintro ⟨a, ha⟩
    exact ⟨lt_of_read ha, a, ha⟩

theorem read_alloc (h : Heap α) (a : α) (q : Nat) :
    (h.alloc a).2.read q = if q = h.fresh then some a else h.read q := by
  by_cases hq : q = h.fresh
  · subst hq
    simp [read, alloc, fresh]
  · rw [if_neg hq]
    simp only [read, alloc, fresh] at hq ⊢
    rcases Nat.lt_or_gt_of_ne hq with hlt | hgt
    · rw [List.getElem?_append_left hlt]
    · rw [List.getElem?_eq_none (by simp; omega), List.getElem?_eq_none (by omega)]

/-- Both updates in place: the cell `p` is set, every other cell is kept. -/
theorem read_set {h : Heap α} {p : Nat} {a : α} (hp : h.read p = some a)
    (c : Option α) (q : Nat) :
    (⟨h.cells.set p c⟩ : Heap α).read q = if q = p then c else h.read q := by
  have hlt := lt_of_read hp
  simp only [read, List.getElem?_set]
  by_cases hq : q = p
  · subst hq
    simp [hlt]
  · simp [hq, Ne.symm hq]

theorem write_eq_some {h : Heap α} {p : Nat} {a : α} (hp : h.read p = some a)
    (b : α) : ∃ h', h.write p b = some h'
      ∧ ∀ q, h'.read q = if q = p then some b else h.read q :=
  ⟨_, by simp [write, hp], read_set hp (some b)⟩

theorem free_eq_some {h : Heap α} {p : Nat} {a : α} (hp : h.read p = some a) :
    ∃ h', h.free p = some h'
      ∧ ∀ q, h'.read q = if q = p then none else h.read q :=
  ⟨_, by simp [free, hp], read_set hp none⟩

/-! ## The live cells

From what there is left to read, so that they apply to any state that is known
by it. -/

theorem card_live_alloc {h h' : Heap α} {a : α}
    (hread : ∀ q, h'.read q = if q = h.fresh then some a else h.read q) :
    h'.live.card = h.live.card + 1 := by
  have hnot : h.fresh ∉ h.live := by simp [mem_live]
  have hlive : h'.live = insert h.fresh h.live := by
    ext q
    rw [mem_live, hread, Finset.mem_insert, mem_live]
    by_cases hq : q = h.fresh <;> simp [hq]
  rw [hlive, Finset.card_insert_of_notMem hnot]

theorem card_live_free {h h' : Heap α} {p : Nat} {a : α} (hp : h.read p = some a)
    (hread : ∀ q, h'.read q = if q = p then none else h.read q) :
    h'.live.card + 1 = h.live.card := by
  have hmem : p ∈ h.live := mem_live.mpr ⟨a, hp⟩
  have hlive : h'.live = h.live.erase p := by
    ext q
    rw [mem_live, hread, Finset.mem_erase, mem_live]
    by_cases hq : q = p <;> simp [hq]
  rw [hlive, Finset.card_erase_add_one hmem]

theorem live_write {h h' : Heap α} {p : Nat} {a b : α} (hp : h.read p = some a)
    (hread : ∀ q, h'.read q = if q = p then some b else h.read q) : h'.live = h.live := by
  ext q
  rw [mem_live, hread, mem_live]
  by_cases hq : q = p
  · subst hq
    simp [hp]
  · simp [hq]

/-! ## The next address -/

theorem fresh_alloc (h : Heap α) (a : α) : (h.alloc a).2.fresh = h.fresh + 1 := by
  simp [alloc, fresh]

theorem fresh_write {h h' : Heap α} {p : Nat} {a : α} (hw : h.write p a = some h') :
    h'.fresh = h.fresh := by
  unfold write at hw
  split at hw
  · obtain rfl := Option.some.inj hw
    simp [fresh]
  · cases hw

theorem fresh_free {h h' : Heap α} {p : Nat} (hf : h.free p = some h') :
    h'.fresh = h.fresh := by
  unfold free at hf
  split at hf
  · obtain rfl := Option.some.inj hf
    simp [fresh]
  · cases hf

end Heap
