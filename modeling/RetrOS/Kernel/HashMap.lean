import RetrOS.Kernel.Pmem
import RetrOS.Libc.Numbers
import Mathlib.Logic.Function.Basic

/-!
# The hash map of the kernel (`lib/hashmap.c`)

The keys of a bucket are compared with a key over the length of that key, so a key that begins with it is taken for it.

* `simpleHash`, `HashMap` : the source; `perform` : the operations;
* `Law` : a map on exact keys, `Law.perform` : the same operations there;
* `Foremost` : the keys of a bucket that begin with a key stand behind that key itself; then the loops find it
  (`find?_matches`, `addLoop_matches`);
* `Represents` : the buckets hold the values of the map; `Represents.perform` : an operation keeps that;
* `hashmapRun_exact` : the runs that are those of a map.
-/

namespace RetrOS.Hashmap
open RetrOS.Lib RetrOS.Libc RetrOS.Pmem

/-! ## The source -/

def HASH_SIZE : Int32 := 256

def simpleHash (key : Str) : Int32 := key.foldl (fun hash c => (hash + ofChar c) % HASH_SIZE) 0

/-- `struct hash_node`; a bucket is the list of its nodes. -/
structure HashNode where
  key : Str
  value : Int32
  deriving DecidableEq

/-- The buckets, and what is in memory at the places beside them; permanent memory, where the nodes are. -/
structure HashMap where
  buckets : Int32 → List HashNode
  permanent : Permanent

/-- `memcmp(current->key, key, strlen(key)) == 0` -/
def HashNode.matches (key : Str) (current : HashNode) : Bool := key.isPrefixOf current.key

/-- Without memory the new node is `NULL`, and becomes the list. -/
def hashmapPut (map : HashMap) (key : Str) (value : Int32) : HashMap :=
  let h := simpleHash key
  let (newNode, permanent) := palloc map.permanent 12
  match newNode with
  | some _ => ⟨Function.update map.buckets h (⟨key, value⟩ :: map.buckets h), permanent⟩
  | none => ⟨Function.update map.buckets h [], permanent⟩

def hashmapGet (map : HashMap) (key : Str) : Int32 :=
  match (map.buckets (simpleHash key)).find? (·.matches key) with
  | some current => current.value
  | none => -1

/-- The loop of `hashmap_add`, with the new value of the node that is found. -/
def addLoop (found : HashNode → Bool) (value : Int32) : List HashNode → Option Int32 × List HashNode
  | [] => (none, [])
  | current :: next =>
    if found current then (some (current.value + value), ⟨current.key, current.value + value⟩ :: next)
    else ((addLoop found value next).1, current :: (addLoop found value next).2)

def hashmapAdd (map : HashMap) (key : Str) (value : Int32) : Int32 × HashMap :=
  let h := simpleHash key
  let (result, bucket) := addLoop (·.matches key) value (map.buckets h)
  (result.getD (-1), { map with buckets := Function.update map.buckets h bucket })

/-! ## Operations -/

inductive Op
  | put (key : Str) (value : Int32)
  | add (key : Str) (value : Int32)
  | get (key : Str)

def Op.key : Op → Str
  | .put key _ => key
  | .add key _ => key
  | .get key => key

/-- What an operation returns, if it returns anything, and the map behind it. -/
def perform (map : HashMap) : Op → Option Int32 × HashMap
  | .put key value => (none, hashmapPut map key value)
  | .add key value => (some (hashmapAdd map key value).1, (hashmapAdd map key value).2)
  | .get key => (some (hashmapGet map key), map)

/-- A map on keys. -/
abbrev Law : Type := Str → Option Int32

/-- A value is added where the key has one. -/
def Law.perform (law : Law) : Op → Option Int32 × Law
  | .put key value => (none, Function.update law key (some value))
  | .add key value =>
    match law key with
    | some old => (some (old + value), Function.update law key (some (old + value)))
    | none => (some (-1), law)
  | .get key => (some ((law key).getD (-1)), law)

/-- The hash map, beside the map on keys. -/
def Steps (s : HashMap × Law) (op : Op) (t : HashMap × Law) : Prop :=
  t = ((Hashmap.perform s.1 op).2, (s.2.perform op).2)

/-- The index is in range, and the result is that of the map. -/
structure Exact (s : HashMap × Law) (op : Op) : Prop where
  range : 0 ≤ simpleHash op.key ∧ simpleHash op.key < HASH_SIZE
  result : (Hashmap.perform s.1 op).1 = (s.2.perform op).1

/-! ## Keys that begin with a key -/

/-- No node whose key only begins with `key` stands in front of the first node with that key. -/
def Foremost (key : Str) (bucket : List HashNode) : Prop :=
  ∀ before node behind, bucket = before ++ node :: behind → key <+: node.key →
    node.key = key ∨ ∃ first ∈ before, first.key = key

section Keys
variable {key : Str} {bucket : List HashNode} {node : HashNode}

theorem matches_of_eq (h : node.key = key) : node.matches key = true := by
  rw [HashNode.matches, h, List.isPrefixOf_iff_prefix]

theorem Foremost.tail (h : Foremost key (node :: bucket)) (hnode : node.key ≠ key) : Foremost key bucket := by
  intro before node' behind heq hbegins
  rcases h (node :: before) node' behind (congrArg (node :: ·) heq) hbegins with heq | ⟨first, hfirst, heq⟩
  · exact .inl heq
  · rcases List.mem_cons.mp hfirst with rfl | hfirst
    · exact absurd heq hnode
    · exact .inr ⟨first, hfirst, heq⟩

/-- At the first node a match is the key. -/
theorem Foremost.matches_head (h : Foremost key (node :: bucket)) : node.matches key = decide (node.key = key) := by
  by_cases heq : node.key = key
  · rw [matches_of_eq heq, decide_eq_true heq]
  · rw [decide_eq_false heq, HashNode.matches, ← Bool.not_eq_true, List.isPrefixOf_iff_prefix]
    intro hbegins
    rcases h [] node bucket rfl hbegins with heq' | ⟨first, hfirst, -⟩
    · exact heq heq'
    · exact absurd hfirst List.not_mem_nil

theorem foremost_of_forall (h : ∀ node ∈ bucket, key <+: node.key → node.key = key) : Foremost key bucket := by
  rintro before node behind rfl hbegins
  exact .inl (h node (List.mem_append_right _ (List.mem_cons_self ..)) hbegins)

theorem find?_matches (h : Foremost key bucket) : bucket.find? (·.matches key) = bucket.find? (·.key = key) := by
  induction bucket with
  | nil => rfl
  | cons node bucket ih =>
    rw [List.find?_cons, List.find?_cons, h.matches_head]
    by_cases heq : node.key = key
    · rw [decide_eq_true heq]
    · rw [decide_eq_false heq]
      exact ih (h.tail heq)

theorem addLoop_matches (value : Int32) (h : Foremost key bucket) :
    addLoop (·.matches key) value bucket = addLoop (·.key = key) value bucket := by
  induction bucket with
  | nil => rfl
  | cons node bucket ih =>
    rw [addLoop, addLoop, h.matches_head]
    by_cases heq : node.key = key
    · rw [if_pos (decide_eq_true heq), if_pos (decide_eq_true heq)]
    · have hne : ¬ decide (node.key = key) = true := fun h => heq (of_decide_eq_true h)
      rw [if_neg hne, if_neg hne, ih (h.tail heq)]

end Keys

/-! ## Runs -/

/-- The value of the first node with a key. -/
def valueIn (bucket : List HashNode) (key : Str) : Option Int32 := (bucket.find? (·.key = key)).map HashNode.value

/-- The buckets in range hold the values of the map. -/
def Represents (map : HashMap) (law : Law) : Prop :=
  ∀ key, 0 ≤ simpleHash key → valueIn (map.buckets (simpleHash key)) key = law key

/-- The index is not negative; there is memory for a new node; a key that is looked up stands in front of those that
begin with it. -/
def Good (map : HashMap) : Op → Prop
  | .put key _ => 0 ≤ simpleHash key ∧ (palloc map.permanent 12).1.isSome
  | .add key _ => 0 ≤ simpleHash key ∧ Foremost key (map.buckets (simpleHash key))
  | .get key => 0 ≤ simpleHash key ∧ Foremost key (map.buckets (simpleHash key))

section Runs
variable {map : HashMap} {law : Law} {key : Str} {bucket : List HashNode} {op : Op} {ops : List Op}

theorem simpleHash_lt (key : Str) : simpleHash key < HASH_SIZE := by
  have hmod : ∀ n : Int32, n % HASH_SIZE < HASH_SIZE := by
    intro n
    rw [Int32.lt_iff_toInt_lt, Int32.toInt_mod]
    exact Int.tmod_lt_of_pos _ (by decide)
  rw [simpleHash]
  obtain rfl | ⟨l, c, rfl⟩ := List.eq_nil_or_concat key
  · decide
  · rw [List.concat_eq_append, List.foldl_append]
    exact hmod _

theorem valueIn_cons (node : HashNode) (bucket : List HashNode) (key : Str) :
    valueIn (node :: bucket) key = if node.key = key then some node.value else valueIn bucket key := by
  rw [valueIn, List.find?_cons]
  by_cases heq : node.key = key
  · rw [decide_eq_true heq, if_pos heq]
    rfl
  · rw [decide_eq_false heq, if_neg heq]
    rfl

theorem addLoop_fst (key : Str) (value : Int32) (bucket : List HashNode) :
    (addLoop (·.key = key) value bucket).1 = (valueIn bucket key).map (· + value) := by
  induction bucket with
  | nil => rfl
  | cons node bucket ih =>
    rw [addLoop, valueIn_cons]
    by_cases heq : node.key = key
    · rw [if_pos (decide_eq_true heq), if_pos heq]
      rfl
    · rw [if_neg (fun h => heq (of_decide_eq_true h)), if_neg heq]
      exact ih

/-- Only the value of the key changes. -/
theorem valueIn_addLoop (key : Str) (value : Int32) (bucket : List HashNode) (key' : Str) :
    valueIn (addLoop (·.key = key) value bucket).2 key' =
      if key' = key then (valueIn bucket key).map (· + value) else valueIn bucket key' := by
  induction bucket with
  | nil => simp [addLoop, valueIn]
  | cons node bucket ih =>
    rw [addLoop]
    by_cases heq : node.key = key
    · rw [if_pos (decide_eq_true heq), valueIn_cons, valueIn_cons, valueIn_cons, if_pos heq]
      by_cases hkey : key' = key
      · rw [if_pos hkey, if_pos (heq.trans hkey.symm)]
        rfl
      · rw [if_neg hkey, if_neg fun h => hkey (h.symm.trans heq), if_neg fun h => hkey (h.symm.trans heq)]
    · rw [if_neg (fun h => heq (of_decide_eq_true h)), valueIn_cons, ih, valueIn_cons, valueIn_cons, if_neg heq]
      by_cases hkey : key' = key
      · rw [if_pos hkey, if_neg fun h => heq (h.trans hkey), if_pos hkey]
      · rw [if_neg hkey, if_neg hkey]

/-- What changes in a bucket changes in the map. -/
theorem Represents.update (h : Represents map law) {bucket : List HashNode} {value : Option Int32}
    (permanent : Permanent) (hbucket : ∀ key', valueIn bucket key' =
      if key' = key then value else valueIn (map.buckets (simpleHash key)) key') :
    Represents ⟨Function.update map.buckets (simpleHash key) bucket, permanent⟩ (Function.update law key value) := by
  intro key' hrange
  dsimp only
  by_cases hkey : key' = key
  · subst hkey
    rw [Function.update_self, Function.update_self, hbucket, if_pos rfl]
  · rw [Function.update_of_ne hkey, ← h key' hrange]
    by_cases hhash : simpleHash key' = simpleHash key
    · rw [hhash, Function.update_self, hbucket, if_neg hkey]
    · rw [Function.update_of_ne hhash]

theorem Represents.put (h : Represents map law) {value : Int32} (hmemory : (palloc map.permanent 12).1.isSome) :
    Represents (hashmapPut map key value) (Function.update law key (some value)) := by
  obtain ⟨newNode, hnode⟩ := Option.isSome_iff_exists.mp hmemory
  rw [hashmapPut]
  dsimp only
  rw [hnode]
  refine h.update _ fun key' => ?_
  rw [valueIn_cons]
  exact if_congr eq_comm rfl rfl

theorem Represents.get (h : Represents map law) (hrange : 0 ≤ simpleHash key)
    (hforemost : Foremost key (map.buckets (simpleHash key))) : hashmapGet map key = (law key).getD (-1) := by
  rw [hashmapGet, find?_matches hforemost, ← h key hrange, valueIn]
  cases (map.buckets (simpleHash key)).find? (·.key = key) with
  | none => rfl
  | some current => rfl

theorem Law.perform_add (law : Law) (key : Str) (value : Int32) :
    law.perform (.add key value) =
      (some (((law key).map (· + value)).getD (-1)), Function.update law key ((law key).map (· + value))) := by
  rw [Law.perform]
  cases hlaw : law key with
  | none =>
    have hsame : Function.update law key none = law := by rw [← hlaw, Function.update_eq_self]
    rw [Option.map_none, hsame]
    rfl
  | some old => rfl

/-- The result of `hashmap_add`, and the values behind it. -/
theorem Represents.add (h : Represents map law) (value : Int32) (hrange : 0 ≤ simpleHash key)
    (hforemost : Foremost key (map.buckets (simpleHash key))) :
    some (hashmapAdd map key value).1 = (law.perform (.add key value)).1 ∧
      Represents (hashmapAdd map key value).2 (law.perform (.add key value)).2 := by
  have hvalue := h key hrange
  rw [hashmapAdd, addLoop_matches value hforemost, Law.perform_add]
  dsimp only
  refine ⟨?_, h.update _ fun key' => ?_⟩
  · rw [addLoop_fst, hvalue]
  · rw [valueIn_addLoop, hvalue]

/-- An operation that meets the condition is that of the map. -/
theorem Represents.perform (h : Represents map law) (hgood : Good map op) :
    Exact (map, law) op ∧ Represents (Hashmap.perform map op).2 (law.perform op).2 := by
  cases op with
  | put key value => exact ⟨⟨⟨hgood.1, simpleHash_lt key⟩, rfl⟩, h.put hgood.2⟩
  | add key value =>
    obtain ⟨hresult, hnext⟩ := h.add value hgood.1 hgood.2
    exact ⟨⟨⟨hgood.1, simpleHash_lt key⟩, hresult⟩, hnext⟩
  | get key => exact ⟨⟨⟨hgood.1, simpleHash_lt key⟩, congrArg some (h.get hgood.1 hgood.2)⟩, h⟩

/-- The buckets are empty at first. -/
def Empty (map : HashMap) : Prop := ∀ h, 0 ≤ h → h < HASH_SIZE → map.buckets h = []

theorem Empty.represents (h : Empty map) : Represents map fun _ => none := by
  intro key hrange
  rw [h _ hrange (simpleHash_lt key)]
  rfl

/-- **In every run** from an empty map whose operations meet the condition, each one is that of a map on keys. -/
theorem hashmapRun_exact {s : HashMap × Law} (hempty : Empty map)
    (hrun : Run Steps (fun s op => Good s.1 op) (map, fun _ => none) ops s) :
    Run Steps Exact (map, fun _ => none) ops s := by
  have hstep : ∀ s op t, Represents s.1 s.2 → Good s.1 op → Steps s op t → Represents t.1 t.2 := by
    rintro s op t hrep hgood rfl
    exact (hrep.perform hgood).2
  exact hrun.mono_of_invariant hstep (fun s op _ hrep hgood _ => (hrep.perform hgood).1) hempty.represents

end Runs

/-- An empty map with a megabyte of permanent memory. -/
def newMap : HashMap := ⟨fun _ => [], ⟨0x1000000, 0x1100000⟩⟩

theorem hashmapRun_exact_twice : ∃ s, Run Steps Exact (newMap, fun _ => none)
    [.put ['a'.toUInt8] 1, .add ['a'.toUInt8] 2, .get ['a'.toUInt8]] s := by
  refine ⟨_, hashmapRun_exact (fun _ _ _ => rfl) (.cons ⟨by decide, by decide⟩ rfl (.cons ⟨by decide, ?_⟩ rfl
    (.cons ⟨by decide, ?_⟩ rfl (.nil _))))⟩
  · exact foremost_of_forall (by decide)
  · exact foremost_of_forall (by decide)

/-- `a` is not in the map, but a key that begins with it and has its hash. -/
theorem not_exact_prefix : ¬ ∀ ops s, AnyRun Steps (newMap, fun _ => none) ops s →
    Run Steps Exact (newMap, fun _ => none) ops s := by
  intro h
  cases h [.put ['a'.toUInt8, 'U'.toUInt8, 'U'.toUInt8, 'V'.toUInt8] 1, .get ['a'.toUInt8]] _
    (.cons trivial rfl (.cons trivial rfl (.nil _))) with
  | cons _ hput hrun =>
    cases hrun with
    | cons hexact _ _ =>
      obtain rfl := hput
      exact absurd hexact.result (by decide)

end RetrOS.Hashmap
