import Mathlib.Data.Finset.Card
import JustCommon.Basic

/-!
# The message queue

`framework::process::MessageQueue` is not part of this repository: it is a
parameter. `MessageQueue Shm` names the calls the repository makes on it,
over a shared memory segment of type `Shm`, and `pending` to speak about
what is queued. Two sets of laws say what the callers rely on.

- `Conserves`: messages are neither altered nor duplicated, and `pop` only
  takes what its filter accepts. No order, and a pushed message may get lost.
- `Fifo`: queues are lossless lists, oldest message first; a push without a
  receiver goes to every other existing queue, and returns how many.

`Boxes` is a queue of that kind in plain lists, which shows the laws can be
met and lets concrete schedules be run.
-/

namespace JustCommon

/-- The fields of `framework::process::Message` the repository sets or reads.
An empty receiver is a broadcast, an empty sender in a filter is any sender. -/
structure Message where
  sender : Bytes := []
  receiver : Bytes := []
  level : Int := 0
  type : Nat := 0
  time : Nat := 0
  data : Bytes := []
deriving DecidableEq, Repr

/-- A push from queue `src` is addressed to queue `r`. -/
def Message.reaches (m : Message) (src r : Bytes) : Bool :=
  if m.receiver.isEmpty then r != src else r == m.receiver

theorem Message.reaches_receiver {m : Message} (h : m.receiver ≠ []) {src r : Bytes} :
    m.reaches src r = true ↔ r = m.receiver := by
  simp [reaches, h]

theorem Message.reaches_broadcast {m : Message} (h : m.receiver = []) {src r : Bytes} :
    m.reaches src r = true ↔ r ≠ src := by
  simp [reaches, h]

structure MessageQueue (Shm : Type) where
  names : Shm → Finset Bytes
  /-- What is queued under a name, oldest first. -/
  pending : Shm → Bytes → List Message
  /-- The time a push puts on the message. -/
  now : Shm → Nat
  /-- Whether a filter of the first level accepts a message of the second. -/
  levelOk : Int → Int → Bool
  /-- The constructor `MessageQueue(name, shared_memory)`. -/
  attach : Shm → Bytes → Shm
  /-- `push(msg)`, with the number of copies it returns. -/
  push : Shm → Bytes → Message → Nat × Shm
  /-- `pop(msg)`: the argument is the filter, and the message if there is one. -/
  pop : Shm → Bytes → Message → Option Message × Shm
  clear : Shm → Bytes → Shm

namespace MessageQueue

variable {Shm : Type} (Q : MessageQueue Shm)

/-- The message as it is queued: the sender is the pushing queue. -/
def stamp (s : Shm) (src : Bytes) (m : Message) : Message :=
  { m with sender := src, time := Q.now s }

/-- Whether the filter `w` accepts `m`. -/
def accepts (w m : Message) : Bool :=
  m.type == w.type && Q.levelOk w.level m.level
    && (w.sender.isEmpty || m.sender == w.sender)

/-- A call on a message queue, with the name of the queue it is made on. -/
inductive QueueCall where
  | attach (name : Bytes)
  | push (name : Bytes) (msg : Message)
  | pop (name : Bytes) (filter : Message)
  | clear (name : Bytes)

/-- What a call does to the segment. -/
def perform (s : Shm) : QueueCall → Shm
  | .attach n => Q.attach s n
  | .push n m => (Q.push s n m).2
  | .pop n w => (Q.pop s n w).2
  | .clear n => Q.clear s n

/-- The call may take `m` out of queue `r`. -/
def QueueCall.takes (r : Bytes) (m : Message) : QueueCall → Prop
  | .attach _ => False
  | .push _ _ => False
  | .pop n w => n = r ∧ Q.accepts w m = true
  | .clear n => n = r

/-- `push` and `pop` neither alter nor duplicate messages. -/
structure Conserves : Prop where
  pending_attach : ∀ {s n r},
    (Q.pending (Q.attach s n) r).Perm (Q.pending s r)
  pending_clear : ∀ {s n r}, r ≠ n →
    (Q.pending (Q.clear s n) r).Perm (Q.pending s r)
  pending_push : ∀ {s n m r},
    (Q.pending (Q.push s n m).2 r).Perm (Q.pending s r)
      ∨ (m.reaches n r = true
          ∧ (Q.pending (Q.push s n m).2 r).Perm (Q.stamp s n m :: Q.pending s r))
  pop_none : ∀ {s n w}, (Q.pop s n w).1 = none →
    ∀ r, (Q.pending (Q.pop s n w).2 r).Perm (Q.pending s r)
  pop_some : ∀ {s n w m}, (Q.pop s n w).1 = some m →
    Q.accepts w m = true
      ∧ (Q.pending s n).Perm (m :: Q.pending (Q.pop s n w).2 n)
      ∧ ∀ r, r ≠ n → (Q.pending (Q.pop s n w).2 r).Perm (Q.pending s r)

/-- Lossless queues, oldest message first. -/
structure Fifo : Prop where
  absent : ∀ {s n}, n ∉ Q.names s → Q.pending s n = []
  levelOk_self : ∀ {l}, Q.levelOk l l = true
  names_attach : ∀ {s n}, Q.names (Q.attach s n) = insert n (Q.names s)
  names_push : ∀ {s n m}, Q.names (Q.push s n m).2 = Q.names s
  names_pop : ∀ {s n w}, Q.names (Q.pop s n w).2 = Q.names s
  names_clear : ∀ {s n}, Q.names (Q.clear s n) = Q.names s
  pending_attach : ∀ {s n r}, Q.pending (Q.attach s n) r = Q.pending s r
  pending_push : ∀ {s n m r}, Q.pending (Q.push s n m).2 r =
    if r ∈ Q.names s ∧ m.reaches n r = true then Q.pending s r ++ [Q.stamp s n m]
    else Q.pending s r
  count_push : ∀ {s n m},
    (Q.push s n m).1 = ((Q.names s).filter fun r => m.reaches n r = true).card
  pop_result : ∀ {s n w}, (Q.pop s n w).1 = (Q.pending s n).find? (Q.accepts w)
  pending_pop : ∀ {s n w r}, Q.pending (Q.pop s n w).2 r =
    if r = n then (Q.pending s n).eraseP (Q.accepts w) else Q.pending s r
  pending_clear : ∀ {s n r}, Q.pending (Q.clear s n) r =
    if r = n then [] else Q.pending s r

variable {Q}

/-! ## What the laws say about one operation -/

theorem accepts_type {w m : Message} (h : Q.accepts w m = true) : m.type = w.type := by
  simp only [accepts, Bool.and_eq_true, beq_iff_eq] at h
  exact h.1.1

/-- A `find?` that succeeds takes the first match out of the list. -/
theorem perm_eraseP_of_find? {α : Type*} {p : α → Bool} {a : α} :
    ∀ {l : List α}, l.find? p = some a → l.Perm (a :: l.eraseP p)
  | [], h => by cases h
  | b :: l, h => by
      cases hb : p b with
      | true =>
          rw [List.find?_cons_of_pos hb] at h
          obtain rfl := Option.some.inj h
          rw [List.eraseP_cons_of_pos hb]
      | false =>
          rw [List.find?_cons_of_neg (by simp [hb])] at h
          rw [List.eraseP_cons_of_neg (by simp [hb])]
          exact ((perm_eraseP_of_find? h).cons b).trans (List.Perm.swap a b _)

/-- A pop that finds nothing changes no queue. -/
theorem Fifo.pending_pop_none (h : Q.Fifo) {s : Shm} {n w : Bytes} {f : Message}
    (hnone : (Q.pop s n f).1 = none) : Q.pending (Q.pop s n f).2 w = Q.pending s w := by
  rw [h.pop_result] at hnone
  rw [h.pending_pop]
  split
  · rename_i hw
    rw [hw, List.eraseP_of_forall_not]
    intro a ha
    simpa using List.find?_eq_none.mp hnone a ha
  · rfl

theorem Fifo.conserves (h : Q.Fifo) : Q.Conserves where
  pending_attach {s n r} := by rw [h.pending_attach]
  pending_clear hr := by rw [h.pending_clear, if_neg hr]
  pending_push {s n m r} := by
    rw [h.pending_push]
    split
    · rename_i hr
      exact Or.inr ⟨hr.2, List.perm_append_singleton _ _⟩
    · exact Or.inl (List.Perm.refl _)
  pop_none {s n w} hnone r := by rw [h.pending_pop_none hnone]
  pop_some {s n w m} hsome := by
    rw [h.pop_result] at hsome
    refine ⟨List.find?_some hsome, ?_, fun r hr => ?_⟩
    · rw [h.pending_pop, if_pos rfl]
      exact perm_eraseP_of_find? hsome
    · rw [h.pending_pop, if_neg hr]

theorem Fifo.names_perform (h : Q.Fifo) {s : Shm} {n : Bytes} (hn : n ∈ Q.names s)
    (call : QueueCall) : n ∈ Q.names (Q.perform s call) := by
  cases call with
  | attach n' =>
      simp only [perform, h.names_attach]
      exact Finset.mem_insert_of_mem hn
  | push n' m => simpa only [perform, h.names_push] using hn
  | pop n' w => simpa only [perform, h.names_pop] using hn
  | clear n' => simpa only [perform, h.names_clear] using hn

/-- A queued message stays queued unless the call takes it. -/
theorem Fifo.mem_perform (h : Q.Fifo) {s : Shm} {r : Bytes} {m : Message}
    (hm : m ∈ Q.pending s r) {call : QueueCall} (hcall : ¬call.takes Q r m) :
    m ∈ Q.pending (Q.perform s call) r := by
  cases call with
  | attach n => simpa only [perform, h.pending_attach] using hm
  | push n m' =>
      simp only [perform, h.pending_push]
      split
      · exact List.mem_append_left _ hm
      · exact hm
  | pop n w =>
      simp only [perform, h.pending_pop]
      split
      · rename_i hr
        subst hr
        have hrej : ¬Q.accepts w m = true := fun hacc => hcall ⟨rfl, hacc⟩
        exact (List.mem_eraseP_of_neg hrej).mpr hm
      · exact hm
  | clear n =>
      simp only [perform, h.pending_clear]
      rw [if_neg fun hr => hcall hr.symm]
      exact hm

/-- A queued message was queued before, or the call is the push of it. -/
theorem Fifo.mem_of_perform (h : Q.Fifo) {s : Shm} {r : Bytes} {m : Message}
    {call : QueueCall} (hm : m ∈ Q.pending (Q.perform s call) r) :
    m ∈ Q.pending s r ∨ ∃ n m', call = .push n m' ∧ r ∈ Q.names s
      ∧ m'.reaches n r = true ∧ m = Q.stamp s n m' := by
  cases call with
  | attach n => exact Or.inl (by simpa only [perform, h.pending_attach] using hm)
  | push n m' =>
      simp only [perform, h.pending_push] at hm
      split at hm
      · rename_i hr
        rcases List.mem_append.mp hm with hold | hnew
        · exact Or.inl hold
        · exact Or.inr ⟨n, m', rfl, hr.1, hr.2, List.mem_singleton.mp hnew⟩
      · exact Or.inl hm
  | pop n w =>
      simp only [perform, h.pending_pop] at hm
      split at hm
      · rename_i hr
        exact Or.inl (hr ▸ List.mem_of_mem_eraseP hm)
      · exact Or.inl hm
  | clear n =>
      simp only [perform, h.pending_clear] at hm
      split at hm
      · cases hm
      · exact Or.inl hm

/-- Of the messages of a kind, a queue never holds more than before, but for
the push of one. -/
theorem Fifo.countP_perform (h : Q.Fifo) (p : Message → Bool) (s : Shm) (r : Bytes)
    (call : QueueCall) :
    (Q.pending (Q.perform s call) r).countP p ≤ (Q.pending s r).countP p
      ∨ ∃ n m, call = .push n m ∧ m.reaches n r = true ∧ p (Q.stamp s n m) = true
          ∧ (Q.pending (Q.perform s call) r).countP p = (Q.pending s r).countP p + 1 := by
  cases call with
  | attach n => exact Or.inl (by simp only [perform, h.pending_attach, le_refl])
  | push n m =>
      simp only [perform, h.pending_push]
      split
      · rename_i hr
        rw [List.countP_append, List.countP_singleton]
        cases hp : p (Q.stamp s n m) with
        | true => exact Or.inr ⟨n, m, rfl, hr.2, hp, rfl⟩
        | false => exact Or.inl (by simp)
      · exact Or.inl le_rfl
  | pop n w =>
      left
      simp only [perform, h.pending_pop]
      split
      · rename_i hr
        rw [hr]
        exact List.Sublist.countP_le List.eraseP_sublist
      · exact le_rfl
  | clear n =>
      left
      simp only [perform, h.pending_clear]
      split
      · exact Nat.zero_le _
      · exact le_rfl

/-! ## The messages of one type -/

def ofType (t : Nat) (l : List Message) : List Message := l.filter (·.type == t)

/-- The call neither adds messages of type `t` to queue `r` nor takes any. -/
def QueueCall.Spares (r : Bytes) (t : Nat) : QueueCall → Prop
  | .attach _ => True
  | .push _ m => m.type ≠ t
  | .pop n w => n ≠ r ∨ w.type ≠ t
  | .clear n => n ≠ r

theorem ofType_cons {t : Nat} {m : Message} (h : m.type = t) (l : List Message) :
    ofType t (m :: l) = m :: ofType t l := by
  simp [ofType, h]

theorem ofType_cons_of_ne {t : Nat} {m : Message} (h : m.type ≠ t) (l : List Message) :
    ofType t (m :: l) = ofType t l := by
  simp [ofType, h]

theorem ofType_perm {l l' : List Message} (h : l.Perm l') (t : Nat) :
    (ofType t l).Perm (ofType t l') := h.filter _

theorem ofType_append (t : Nat) (l l' : List Message) :
    ofType t (l ++ l') = ofType t l ++ ofType t l' := by
  simp [ofType]

theorem ofType_eraseP_of_ne {t : Nat} {w : Message} (h : w.type ≠ t) (l : List Message) :
    ofType t (l.eraseP (Q.accepts w)) = ofType t l := by
  induction l with
  | nil => rfl
  | cons m l ih =>
      cases hm : Q.accepts w m with
      | true =>
          rw [List.eraseP_cons_of_pos hm, ofType_cons_of_ne]
          rw [accepts_type hm]
          exact h
      | false =>
          rw [List.eraseP_cons_of_neg (by simp [hm])]
          simp only [ofType, List.filter_cons] at ih ⊢
          rw [ih]

/-- A filter that accepts every message of its type there is pops the oldest. -/
theorem find?_accepts {w : Message} {l : List Message}
    (hacc : ∀ m ∈ l, m.type = w.type → Q.accepts w m = true) :
    l.find? (Q.accepts w) = (ofType w.type l).head?
      ∧ ofType w.type (l.eraseP (Q.accepts w)) = (ofType w.type l).tail := by
  induction l with
  | nil => exact ⟨rfl, rfl⟩
  | cons m l ih =>
      have hl : ∀ m' ∈ l, m'.type = w.type → Q.accepts w m' = true :=
        fun m' hm' => hacc m' (List.mem_cons_of_mem m hm')
      by_cases ht : m.type = w.type
      · have hm := hacc m List.mem_cons_self ht
        rw [List.find?_cons_of_pos hm, List.eraseP_cons_of_pos hm, ofType_cons ht]
        exact ⟨rfl, rfl⟩
      · have hm : ¬Q.accepts w m = true := fun hm => ht (accepts_type hm)
        rw [List.find?_cons_of_neg hm, List.eraseP_cons_of_neg hm,
          ofType_cons_of_ne ht, ofType_cons_of_ne ht]
        exact ih hl

/-- A pop whose filter accepts every message of its type there is takes the
oldest of them. -/
theorem Fifo.ofType_pop (h : Q.Fifo) {s : Shm} {n : Bytes} {w : Message}
    (hacc : ∀ m ∈ Q.pending s n, m.type = w.type → Q.accepts w m = true) :
    (Q.pop s n w).1 = (ofType w.type (Q.pending s n)).head?
      ∧ ofType w.type (Q.pending (Q.pop s n w).2 n)
        = (ofType w.type (Q.pending s n)).tail := by
  obtain ⟨hfind, herase⟩ := find?_accepts hacc
  rw [h.pop_result, h.pending_pop, if_pos rfl]
  exact ⟨hfind, herase⟩

/-- A push queues its message behind the others of its type. -/
theorem Fifo.ofType_push (h : Q.Fifo) {s : Shm} {n r : Bytes} (hr : r ∈ Q.names s)
    (m : Message) :
    ofType m.type (Q.pending (Q.push s n m).2 r)
      = ofType m.type (Q.pending s r)
        ++ if m.reaches n r = true then [Q.stamp s n m] else [] := by
  rw [h.pending_push]
  by_cases hreach : m.reaches n r = true
  · rw [if_pos ⟨hr, hreach⟩, if_pos hreach, ofType_append]
    exact congrArg _ (ofType_cons (m := Q.stamp s n m) rfl [])
  · rw [if_neg fun hboth => hreach hboth.2, if_neg hreach, List.append_nil]

/-- What is found and what stays make up a part of the list that the predicate
takes wholly or not at all. -/
theorem filter_find?_eraseP {α : Type*} {p k : α → Bool} {b : Bool} {l : List α}
    (h : ∀ a ∈ l, k a = true → p a = b) :
    l.filter k = (l.find? p).toList.filter k ++ (l.eraseP p).filter k := by
  induction l with
  | nil => rfl
  | cons a l ih =>
      have hl := ih fun a' ha' => h a' (List.mem_cons_of_mem a ha')
      cases hp : p a with
      | true =>
          rw [List.find?_cons_of_pos hp, List.eraseP_cons_of_pos hp]
          exact List.filter_append [a] l
      | false =>
          have hneg : ¬p a = true := by simp [hp]
          rw [List.find?_cons_of_neg hneg, List.eraseP_cons_of_neg hneg]
          cases hk : k a with
          | true =>
              -- `a` is passed over, so the part is not taken at all
              have hb : b = false := (h a List.mem_cons_self hk).symm.trans hp
              have hfound : (l.find? p).toList.filter k = [] := by
                refine List.filter_eq_nil_iff.mpr fun m hm hkm => ?_
                have hfind := Option.mem_toList.mp hm
                have hpm := h m (List.mem_cons_of_mem a (List.mem_of_find?_eq_some hfind)) hkm
                rw [List.find?_some hfind, hb] at hpm
                cases hpm
              rw [hfound, List.nil_append] at hl ⊢
              rw [List.filter_cons_of_pos hk, List.filter_cons_of_pos hk, hl]
          | false =>
              rw [List.filter_cons_of_neg (by simp [hk]), List.filter_cons_of_neg (by simp [hk]),
                hl]

theorem Fifo.ofType_perform (h : Q.Fifo) {s : Shm} {r : Bytes} {t : Nat}
    {call : QueueCall} (hcall : call.Spares r t) :
    ofType t (Q.pending (Q.perform s call) r) = ofType t (Q.pending s r) := by
  cases call with
  | attach n => rw [perform, h.pending_attach]
  | push n m =>
      rw [perform, h.pending_push]
      split
      · rw [ofType_append, ofType_cons_of_ne (m := Q.stamp s n m) hcall]
        simp [ofType]
      · rfl
  | pop n w =>
      rw [perform, h.pending_pop]
      split
      · rename_i hr
        rw [hr]
        exact ofType_eraseP_of_ne (hcall.resolve_left fun hn => hn hr.symm) _
      · rfl
  | clear n => rw [perform, h.pending_clear, if_neg hcall.symm]

theorem Conserves.ofType_perform (h : Q.Conserves) {s : Shm} {r : Bytes} {t : Nat}
    {call : QueueCall} (hcall : call.Spares r t) :
    (ofType t (Q.pending (Q.perform s call) r)).Perm (ofType t (Q.pending s r)) := by
  cases call with
  | attach n => exact ofType_perm h.pending_attach t
  | push n m =>
      rcases h.pending_push (s := s) (n := n) (m := m) (r := r) with hperm | ⟨-, hperm⟩
      · exact ofType_perm hperm t
      · have hall := ofType_perm hperm t
        rwa [ofType_cons_of_ne (m := Q.stamp s n m) hcall] at hall
  | pop n w =>
      cases hpop : (Q.pop s n w).1 with
      | none => exact ofType_perm (h.pop_none hpop r) t
      | some m =>
          obtain ⟨hacc, hperm, hother⟩ := h.pop_some hpop
          by_cases hr : r = n
          · subst hr
            have hne : m.type ≠ t := by
              rw [accepts_type hacc]
              exact hcall.resolve_left fun hn => hn rfl
            have hall := ofType_perm hperm t
            rw [ofType_cons_of_ne hne] at hall
            exact hall.symm
          · exact ofType_perm (hother r hr) t
  | clear n => exact ofType_perm (h.pending_clear hcall.symm) t

end MessageQueue

/-! ## A queue in plain lists -/

/-- The queues of a segment, each a list; a queue that does not exist is
empty. -/
structure Boxes where
  names : Finset Bytes
  box : Bytes → List Message
  absent : ∀ n, n ∉ names → box n = []

namespace Boxes

def empty : Boxes := ⟨∅, fun _ => [], fun _ _ => rfl⟩

/-- Keep the names and rewrite each queue, without making one up. -/
def map (b : Boxes) (f : Bytes → List Message → List Message)
    (hf : ∀ n, n ∉ b.names → f n [] = []) : Boxes where
  names := b.names
  box n := f n (b.box n)
  absent n hn := by rw [b.absent n hn, hf n hn]

/-- Levels filter from above: level `l` accepts messages up to `l`. -/
def queue : MessageQueue Boxes where
  names b := b.names
  pending b := b.box
  now _ := 0
  levelOk asked level := decide (level ≤ asked)
  attach b n := ⟨insert n b.names, b.box, fun r hr => b.absent r fun h =>
    hr (Finset.mem_insert_of_mem h)⟩
  push b n m :=
    ((b.names.filter fun r => m.reaches n r = true).card,
      b.map (fun r l => if r ∈ b.names ∧ m.reaches n r = true
        then l ++ [{ m with sender := n, time := 0 }] else l)
        fun r hr => by simp [hr])
  pop b n w :=
    let p := fun m : Message => m.type == w.type && decide (m.level ≤ w.level)
      && (w.sender.isEmpty || m.sender == w.sender)
    ((b.box n).find? p,
      b.map (fun r l => if r = n then l.eraseP p else l) fun r _ => by split <;> rfl)
  clear b n := b.map (fun r l => if r = n then [] else l) fun r _ => by split <;> rfl

theorem queue_fifo : queue.Fifo where
  absent {s n} hn := s.absent n hn
  levelOk_self := by simp [queue]
  names_attach := rfl
  names_push := rfl
  names_pop := rfl
  names_clear := rfl
  pending_attach := rfl
  pending_push := rfl
  count_push := rfl
  pop_result := rfl
  pending_pop {s n w r} := by
    by_cases hr : r = n
    · subst hr; rfl
    · simp only [queue, map, if_neg hr]
  pending_clear := rfl

end Boxes

end JustCommon
