import RetrOS.Lib.Linked

/-!
# Queues of socket buffers (`net/skb.c`)

A queue is linked through the buffers, has a pointer to each end and counts its buffers. A buffer is known by its
address, and `next` is the field of that name of every buffer.

* `SkbQueue.add`, `SkbQueue.remove` : the operations, between the calls that take and give back the lock;
* `SkbQueue.Holds` : the queue is the list (`Holds.add`, `Holds.remove`).

The last buffer that is removed leaves its address in `_tail`.
-/

namespace RetrOS.Net
open RetrOS.Lib

/-- `struct skb_queue` -/
structure SkbQueue where
  head : Option Nat
  tail : Option Nat
  size : Int

namespace SkbQueue

/-- `skb_new_queue` -/
def new : SkbQueue := ⟨none, none, 0⟩

/-- `__skb_queue_add`; the first buffer keeps its link. -/
def add (next : Nat → Option Nat) (queue : SkbQueue) (skb : Nat) : (Nat → Option Nat) × SkbQueue :=
  match queue.head, queue.tail with
  | some _, some tail =>
    (Function.update (Function.update next tail (some skb)) skb none,
      { queue with tail := some skb, size := queue.size + 1 })
  | _, _ => (next, ⟨some skb, some skb, queue.size + 1⟩)

/-- `__skb_queue_remove`; the result `NULL` is `none`. -/
def remove (next : Nat → Option Nat) (queue : SkbQueue) : Option (Nat × (Nat → Option Nat) × SkbQueue) :=
  queue.head.map fun skb =>
    (skb, Function.update next skb none, { queue with head := next skb, size := queue.size - 1 })

/-- The buffers of the queue, from its head to its tail. -/
structure Holds (next : Nat → Option Nat) (queue : SkbQueue) (l : List Nat) : Prop where
  linked : Linked next queue.head l
  tail : ∀ p x, l = p ++ [x] → queue.tail = some x
  size : queue.size = l.length

section
variable {next : Nat → Option Nat} {queue : SkbQueue} {l : List Nat} {x : Nat}

theorem holds_new (next : Nat → Option Nat) : new.Holds next [] :=
  ⟨linked_nil.mpr rfl, fun p x h => absurd h (by simp), rfl⟩

/-- A buffer that is not in the queue, and holds no link if it is to be the only one. -/
theorem Holds.add (h : queue.Holds next l) (hx : x ∉ l) (hnext : l = [] → next x = none) :
    (queue.add next x).2.Holds (queue.add next x).1 (l ++ [x]) := by
  rcases List.eq_nil_or_concat l with rfl | ⟨p, z, rfl⟩
  · have hhead : queue.head = none := linked_nil.mp h.linked
    have hadd : queue.add next x = (next, ⟨some x, some x, queue.size + 1⟩) := by
      rw [SkbQueue.add, hhead]
    rw [hadd]
    refine ⟨linked_cons.mpr ⟨rfl, linked_nil.mpr (hnext rfl)⟩, fun p y hy => ?_, ?_⟩
    · obtain ⟨-, hxy⟩ := List.append_inj' (show [] ++ [x] = p ++ [y] from hy) rfl
      exact congrArg some (List.cons.inj hxy).1
    · dsimp only
      rw [h.size]
      rfl
  · rw [List.concat_eq_append] at h hx ⊢
    have htail := h.tail p z rfl
    obtain ⟨y, -, hhead⟩ := Linked.head_mem (q := []) (by rw [List.append_nil]; exact h.linked) (by simp)
    have hadd : queue.add next x = (Function.update (Function.update next z (some x)) x none,
        { queue with tail := some x, size := queue.size + 1 }) := by
      rw [SkbQueue.add, hhead, htail]
    rw [hadd]
    refine ⟨?_, fun q y hy => ?_, ?_⟩
    · rw [List.append_assoc]
      exact h.linked.push hx
    · obtain ⟨-, hxy⟩ := List.append_inj' hy rfl
      exact congrArg some (List.cons.inj hxy).1
    · have hsize := h.size
      rw [List.length_append, List.length_singleton]
      dsimp only
      omega

/-- The first buffer is removed, and keeps no link. -/
theorem Holds.remove (h : queue.Holds next (x :: l)) : ∃ queue',
    queue.remove next = some (x, Function.update next x none, queue') ∧
      queue'.Holds (Function.update next x none) l := by
  obtain ⟨hhead, hrest⟩ := linked_cons.mp h.linked
  have hx : x ∉ l := (List.nodup_cons.mp h.linked.nodup).1
  refine ⟨{ queue with head := next x, size := queue.size - 1 }, by rw [SkbQueue.remove, hhead]; rfl, ?_, ?_, ?_⟩
  · exact hrest.update_of_notMem hx
  · exact fun p y hy => h.tail (x :: p) y (by rw [hy, List.cons_append])
  · have hsize := h.size
    rw [List.length_cons] at hsize
    dsimp only
    omega

theorem Holds.head_eq_none (h : queue.Holds next []) : queue.head = none := linked_nil.mp h.linked

theorem Holds.remove_eq_none (h : queue.Holds next []) : queue.remove next = none := by
  rw [SkbQueue.remove, h.head_eq_none]
  rfl

theorem Holds.congr {next' : Nat → Option Nat} (h : queue.Holds next l) (heq : ∀ y ∈ l, next y = next' y) :
    queue.Holds next' l := ⟨h.linked.congr heq, h.tail, h.size⟩

/-- An added buffer changes no link but its own and that of the last one. -/
theorem Holds.add_next (h : queue.Holds next l) {y : Nat} (hy : y ∉ l) (hne : y ≠ x) :
    (queue.add next x).1 y = next y := by
  unfold SkbQueue.add
  split
  · next tail hhead htail =>
    have htail' : tail ∈ l := by
      rcases List.eq_nil_or_concat l with rfl | ⟨p, z, rfl⟩
      · rw [h.head_eq_none] at hhead
        cases hhead
      · rw [List.concat_eq_append] at h ⊢
        have hz : z = tail := Option.some.inj ((h.tail p z rfl).symm.trans htail)
        exact hz ▸ List.mem_append_right p (List.mem_singleton_self z)
    have hother : y ≠ tail := fun heq => hy (heq ▸ htail')
    dsimp only
    rw [Function.update_of_ne hne, Function.update_of_ne hother]
  · rfl

end

end SkbQueue

end RetrOS.Net
