import RetrOS.Net.SkbQueue
import RetrOS.Lib.Run

/-!
# Queues of socket buffers over a whole run (`net/skb.c`)

Any number of queues whose buffers share the memory: a buffer comes from `skb_new`, is put into a queue and taken out
again, and may be freed, after which the memory at its address is somebody else's.

* `SkbOp`, `skbStep` : the operations and what they do;
* `SkbOp.Promised` : what the callers and `kalloc` promise, `add` gets a buffer that is in no queue;
* `SkbInv` : the buffers are where they were put, and those in no queue hold no link;
* `skb_fifo` : every queue returns its buffers in the order in which they were added.
-/

namespace RetrOS.Net
open RetrOS.Lib

/-- The memory of the buffers, the queues, and what happened to them. -/
structure SkbRun where
  next : Nat → Option Nat
  queue : Nat → SkbQueue
  /-- the blocks of `kalloc` that hold a buffer -/
  inUse : List Nat
  /-- those that a caller holds: fresh, or removed from a queue -/
  held : List Nat
  added : Nat → List Nat
  removed : Nat → List Nat

inductive SkbOp
  /-- `skb_new`, for which `kalloc` has returned the address -/
  | new (skb : Nat)
  /-- `skb_free`; the memory gets used for something that leaves `link` where the field was -/
  | free (skb : Nat) (link : Option Nat)
  | add (i skb : Nat)
  | remove (i : Nat)
  deriving DecidableEq

def skbStart (next : Nat → Option Nat) : SkbRun := ⟨next, fun _ => .new, [], [], fun _ => [], fun _ => []⟩

def skbStep (s : SkbRun) : SkbOp → SkbRun
  -- the buffer is set to zeros
  | .new skb =>
    { s with next := Function.update s.next skb none, inUse := skb :: s.inUse, held := skb :: s.held }
  | .free skb link =>
    { s with next := Function.update s.next skb link, inUse := s.inUse.erase skb, held := s.held.erase skb }
  | .add i skb =>
    { s with
      next := ((s.queue i).add s.next skb).1
      queue := Function.update s.queue i ((s.queue i).add s.next skb).2
      held := s.held.erase skb
      added := Function.update s.added i (s.added i ++ [skb]) }
  | .remove i =>
    match (s.queue i).remove s.next with
    | none => s
    | some (skb, next, queue) =>
      { s with
        next := next
        queue := Function.update s.queue i queue
        held := skb :: s.held
        removed := Function.update s.removed i (s.removed i ++ [skb]) }

/-- `kalloc` returns memory that is not in use; the others are buffers that the caller holds. -/
def SkbOp.Promised (s : SkbRun) : SkbOp → Prop
  | .new skb => skb ∉ s.inUse
  | .free skb _ | .add _ skb => skb ∈ s.held
  | .remove _ => True

instance (s : SkbRun) : (op : SkbOp) → Decidable (op.Promised s)
  | .new skb => inferInstanceAs (Decidable (skb ∉ s.inUse))
  | .free skb _ | .add _ skb => inferInstanceAs (Decidable (skb ∈ s.held))
  | .remove _ => inferInstanceAs (Decidable True)

/-- `queued i` are the buffers of queue `i`. -/
structure SkbInv (s : SkbRun) (queued : Nat → List Nat) : Prop where
  holds : ∀ i, (s.queue i).Holds s.next (queued i)
  history : ∀ i, s.added i = s.removed i ++ queued i
  apart : ∀ i j x, x ∈ queued i → x ∈ queued j → i = j
  inUse : ∀ i, ∀ x ∈ queued i, x ∈ s.inUse
  held : ∀ x ∈ s.held, s.next x = none ∧ x ∈ s.inUse ∧ ∀ i, x ∉ queued i
  nodup : s.held.Nodup ∧ s.inUse.Nodup

section
variable {s : SkbRun} {queued : Nat → List Nat} {i x : Nat}

theorem skbInv_start (next : Nat → Option Nat) : SkbInv (skbStart next) fun _ => [] where
  holds _ := SkbQueue.holds_new next
  history _ := rfl
  apart _ _ _ h := absurd h List.not_mem_nil
  inUse _ _ h := absurd h List.not_mem_nil
  held _ h := absurd h List.not_mem_nil
  nodup := ⟨List.nodup_nil, List.nodup_nil⟩

/-- The memory of a buffer in no queue does not matter to them. -/
theorem SkbInv.holds_update (h : SkbInv s queued) (hx : ∀ i, x ∉ queued i) (link : Option Nat) (i : Nat) :
    (s.queue i).Holds (Function.update s.next x link) (queued i) := by
  refine (h.holds i).congr fun y hy => (Function.update_of_ne ?_ ..).symm
  rintro rfl
  exact hx i hy

theorem SkbInv.new (h : SkbInv s queued) (hx : x ∉ s.inUse) : SkbInv (skbStep s (.new x)) queued where
  holds := h.holds_update (fun i hi => hx (h.inUse i x hi)) none
  history := h.history
  apart := h.apart
  inUse i y hy := List.mem_cons_of_mem x (h.inUse i y hy)
  held y hy := by
    rcases List.mem_cons.mp hy with rfl | hy
    · exact ⟨Function.update_self .., List.mem_cons_self .., fun i hi => hx (h.inUse i y hi)⟩
    · obtain ⟨hnext, hin, hnot⟩ := h.held y hy
      have hne : y ≠ x := fun heq => hx (heq ▸ hin)
      exact ⟨(Function.update_of_ne hne ..).trans hnext, List.mem_cons_of_mem x hin, hnot⟩
  nodup := ⟨List.nodup_cons.mpr ⟨fun hm => hx (h.held x hm).2.1, h.nodup.1⟩, List.nodup_cons.mpr ⟨hx, h.nodup.2⟩⟩

theorem SkbInv.free (h : SkbInv s queued) (hx : x ∈ s.held) (link : Option Nat) :
    SkbInv (skbStep s (.free x link)) queued where
  holds := h.holds_update (h.held x hx).2.2 link
  history := h.history
  apart := h.apart
  inUse i y hy := by
    refine (List.mem_erase_of_ne ?_).mpr (h.inUse i y hy)
    rintro rfl
    exact (h.held y hx).2.2 i hy
  held y hy := by
    obtain ⟨hne, hy⟩ := h.nodup.1.mem_erase_iff.mp hy
    obtain ⟨hnext, hin, hnot⟩ := h.held y hy
    exact ⟨(Function.update_of_ne hne ..).trans hnext, (List.mem_erase_of_ne hne).mpr hin, hnot⟩
  nodup := ⟨h.nodup.1.erase x, h.nodup.2.erase x⟩

/-- An added buffer is the last one of its queue. -/
theorem SkbInv.add (h : SkbInv s queued) (hx : x ∈ s.held) (i : Nat) :
    SkbInv (skbStep s (.add i x)) (Function.update queued i (queued i ++ [x])) := by
  obtain ⟨hlink, hin, hnot⟩ := h.held x hx
  have hmem : ∀ j y, y ∈ Function.update queued i (queued i ++ [x]) j → y ∈ queued j ∨ y = x ∧ j = i := by
    intro j y hy
    by_cases hj : j = i
    · subst hj
      rw [Function.update_self, List.mem_append, List.mem_singleton] at hy
      exact hy.imp_right fun heq => ⟨heq, rfl⟩
    · rw [Function.update_of_ne hj] at hy
      exact .inl hy
  refine ⟨fun j => ?_, fun j => ?_, fun j k y hj hk => ?_, fun j y hy => ?_, fun y hy => ?_, ?_⟩
  · by_cases hj : j = i
    · subst hj
      simp only [skbStep, Function.update_self]
      exact (h.holds j).add (hnot j) fun _ => hlink
    · simp only [skbStep, Function.update_of_ne hj]
      refine (h.holds j).congr fun y hy => ((h.holds i).add_next (fun hi => hj (h.apart j i y hy hi)) ?_).symm
      rintro rfl
      exact hnot j hy
  · by_cases hj : j = i
    · subst hj
      simp only [skbStep, Function.update_self]
      rw [h.history, List.append_assoc]
    · simp only [skbStep, Function.update_of_ne hj]
      exact h.history j
  · rcases hmem j y hj with hj' | ⟨rfl, rfl⟩
    · rcases hmem k y hk with hk' | ⟨rfl, -⟩
      · exact h.apart j k y hj' hk'
      · exact absurd hj' (hnot j)
    · rcases hmem k y hk with hk' | ⟨-, rfl⟩
      · exact absurd hk' (hnot k)
      · rfl
  · rcases hmem j y hy with hy | ⟨rfl, -⟩
    · exact h.inUse j y hy
    · exact hin
  · obtain ⟨hne, hy⟩ := h.nodup.1.mem_erase_iff.mp hy
    obtain ⟨hnext, hin', hnot'⟩ := h.held y hy
    refine ⟨((h.holds i).add_next (hnot' i) hne).trans hnext, hin', fun j hj => ?_⟩
    rcases hmem j y hj with hj | ⟨heq, -⟩
    · exact hnot' j hj
    · exact hne heq
  · exact ⟨h.nodup.1.erase x, h.nodup.2⟩

/-- The first buffer of a queue is the one that is removed. -/
theorem SkbInv.remove {l : List Nat} (h : SkbInv s queued) (hi : queued i = x :: l) :
    SkbInv (skbStep s (.remove i)) (Function.update queued i l) := by
  have hqueue := h.holds i
  rw [hi] at hqueue
  obtain ⟨queue', hremove, hrest⟩ := hqueue.remove
  have hx : x ∈ queued i := hi ▸ List.mem_cons_self ..
  have hnodup : x ∉ l ∧ l.Nodup := List.nodup_cons.mp hqueue.linked.nodup
  have hstep : skbStep s (.remove i) = { s with
      next := Function.update s.next x none
      queue := Function.update s.queue i queue'
      held := x :: s.held
      removed := Function.update s.removed i (s.removed i ++ [x]) } := by
    rw [skbStep, hremove]
  have hmem : ∀ j y, y ∈ Function.update queued i l j → y ∈ queued j ∧ y ≠ x := by
    intro j y hy
    by_cases hj : j = i
    · subst hj
      rw [Function.update_self] at hy
      exact ⟨hi ▸ List.mem_cons_of_mem x hy, fun heq => hnodup.1 (heq ▸ hy)⟩
    · rw [Function.update_of_ne hj] at hy
      exact ⟨hy, fun heq => hj (h.apart j i y hy (heq ▸ hx))⟩
  rw [hstep]
  refine ⟨fun j => ?_, fun j => ?_, fun j k y hj hk => ?_, fun j y hy => ?_, fun y hy => ?_, ?_⟩
  · by_cases hj : j = i
    · subst hj
      simp only [Function.update_self]
      exact hrest
    · simp only [Function.update_of_ne hj]
      refine (h.holds j).congr fun y hy => (Function.update_of_ne ?_ ..).symm
      rintro rfl
      exact hj (h.apart j i y hy hx)
  · by_cases hj : j = i
    · subst hj
      simp only [Function.update_self]
      rw [h.history, hi, List.append_assoc, List.singleton_append]
    · simp only [Function.update_of_ne hj]
      exact h.history j
  · exact h.apart j k y (hmem j y hj).1 (hmem k y hk).1
  · exact h.inUse j y (hmem j y hy).1
  · rcases List.mem_cons.mp hy with rfl | hy
    · exact ⟨Function.update_self .., h.inUse i y hx, fun j hj => (hmem j y hj).2 rfl⟩
    · obtain ⟨hnext, hin, hnot⟩ := h.held y hy
      have hne : y ≠ x := fun heq => hnot i (heq ▸ hx)
      exact ⟨(Function.update_of_ne hne ..).trans hnext, hin, fun j hj => hnot j (hmem j y hj).1⟩
  · exact ⟨List.nodup_cons.mpr ⟨fun hm => (h.held x hm).2.2 i hx, h.nodup.1⟩, h.nodup.2⟩

theorem SkbInv.step (h : SkbInv s queued) {op : SkbOp} (hop : op.Promised s) :
    ∃ queued', SkbInv (skbStep s op) queued' := by
  cases op with
  | new x => exact ⟨queued, h.new hop⟩
  | free x link => exact ⟨queued, h.free hop link⟩
  | add i x => exact ⟨_, h.add hop i⟩
  | remove i =>
    cases hi : queued i with
    | nil =>
      have hqueue := h.holds i
      rw [hi] at hqueue
      rw [skbStep, hqueue.remove_eq_none]
      exact ⟨queued, h⟩
    | cons x l => exact ⟨_, h.remove hi⟩

/-- What the queue returns next. -/
theorem SkbInv.remove_eq (h : SkbInv s queued) (i : Nat) :
    ((s.queue i).remove s.next).map Prod.fst = (queued i).head? := by
  have hqueue := h.holds i
  cases hi : queued i with
  | nil =>
    rw [hi] at hqueue
    rw [hqueue.remove_eq_none]
    rfl
  | cons x l =>
    rw [hi] at hqueue
    obtain ⟨queue', hremove, -⟩ := hqueue.remove
    rw [hremove]
    rfl

end

/-- **The queues are FIFO.** After any run the buffers that a queue has returned are the first of those that were added
to it, in the same order; the others are in the queue, each once and in no other queue; `size` is their number, and the
next one that is returned is the first of them. -/
theorem skb_fifo (memory : Nat → Option Nat) (ops : List SkbOp) (s : SkbRun)
    (h : Run (fun s op t => skbStep s op = t) (fun s op => op.Promised s) (skbStart memory) ops s) :
    ∃ queued : Nat → List Nat, ∀ i,
      s.added i = s.removed i ++ queued i ∧ Linked s.next (s.queue i).head (queued i) ∧
      (s.queue i).size = (queued i).length ∧ (queued i).Nodup ∧ (∀ j, j ≠ i → (queued i).Disjoint (queued j)) ∧
      ((s.queue i).remove s.next).map Prod.fst = (queued i).head? := by
  have hinv : ∃ queued, SkbInv s queued := by
    refine h.invariant (P := fun s => ∃ queued, SkbInv s queued) (fun s op t hs hop hst => ?_) ⟨_, skbInv_start memory⟩
    obtain ⟨queued, hs⟩ := hs
    subst hst
    exact hs.step hop
  obtain ⟨queued, hinv⟩ := hinv
  refine ⟨queued, fun i => ⟨hinv.history i, (hinv.holds i).linked, (hinv.holds i).size,
    (hinv.holds i).linked.nodup, fun j hj x hx hx' => hj (hinv.apart j i x hx' hx), hinv.remove_eq i⟩⟩

/-- A queue that is drained, with its tail left behind, and filled again, in memory that was full of links. -/
theorem skb_refill : ∃ s : SkbRun, s.added 0 = [16, 32, 16] ∧ s.removed 0 = [16, 32] ∧
    ∃ queued : Nat → List Nat, s.added 0 = s.removed 0 ++ queued 0 ∧ (s.queue 0).size = (queued 0).length := by
  obtain ⟨queued, h⟩ := skb_fifo (fun _ => some 48)
    [.new 16, .new 32, .add 0 16, .add 0 32, .remove 0, .remove 0, .add 0 16] _
    (.cons (by decide) rfl <| .cons (by decide) rfl <| .cons (by decide) rfl <| .cons (by decide) rfl <|
      .cons trivial rfl <| .cons trivial rfl <| .cons (by decide) rfl <| .nil _)
  exact ⟨_, rfl, rfl, queued, (h 0).1, (h 0).2.2.1⟩

end RetrOS.Net
