/-
  FiberProxy.Common.MultiThreadObjMgr

  `MultiThreadObjMgr`: one object per thread, in a table of buckets that the
  text of the thread's id is hashed into (`common/MultiThreadObjMgr.hpp`).  Each
  bucket has a lock and a list of ids with their objects; a call searches the
  list of its bucket and appends a new object if it is not there.

  The threads interleave at every access: a call computes its bucket, takes the
  lock, looks at one entry of the list at a time, and releases the lock with its
  result.  Threads begin and end; an id is not given to two threads at a time,
  but it may be given again once its thread has ended.

  What a call returns is the object created for the caller's id
  (`perThread_of_run`).
-/

import FiberProxy.Lib.Lists
import FiberProxy.Lib.Run
import Mathlib.Data.List.Nodup
import Mathlib.Logic.Function.Basic

namespace FiberProxy.MultiThreadObjMgr

open Lib

/-! ## The size of the table -/

/-- `PRIME_LIST`. -/
def primeList : List Int64 :=
  [53, 97, 193, 389, 769,
    1543, 3079, 6151, 12289, 24593,
    49157, 98317, 196613, 393241, 786433,
    1572869, 3145739, 6291469, 12582917, 25165843,
    50331653, 100663319, 201326611, 402653189, 805306457,
    1610612741, 3221225473, 4294967291]

/-- `cal_next_prime`; `std::lower_bound` is the first entry that is not less. -/
def calNextPrime (n : Int64) : Int64 :=
  if 0 < n then (primeList.find? (n ≤ ·)).getD 4294967291 else n

/-- `obj_list_.max_size()`. -/
def maxSize : UInt64 := 0xFFFFFFFFFFFFFFFF / 16

/-- The size that `init(num)` gives the table; `none`: `resize` throws. -/
def tableSize (num : UInt64) : Option UInt64 :=
  let size := (calNextPrime (num * 2).toInt64).toUInt64
  if maxSize < size then none else some size

/-! ## The table -/

/-- `ObjectItem`: who holds `rw_lock`, and `item_list`.  An object is the number of its
    creation. -/
structure ObjectItem (Id : Type) where
  lock : Option Nat := none
  itemList : List (Id × Nat) := []

/-- Where a thread is in `getThreadObj`. -/
inductive Place where
  | idle
  /-- The bucket is known, its lock is not held yet. -/
  | locking (bucket : UInt64)
  /-- The lock is held, and the iterator is at entry `i`. -/
  | scanning (bucket : UInt64) (i : Nat)
  /-- The bucket was computed modulo zero. -/
  | crashed
  /-- The thread has ended. -/
  | ended
deriving DecidableEq, Repr

structure Thread (Id : Type) where
  id : Id
  place : Place := .idle

structure State (Id : Type) where
  /-- `obj_list_.size()`. -/
  total : UInt64
  /-- `obj_list_`. -/
  items : UInt64 → ObjectItem Id := fun _ => {}
  threads : List (Thread Id) := []
  /-- The ids that objects were created for. -/
  created : List Id := []
  /-- The calls that returned: the thread and its object. -/
  returned : List (Nat × Nat) := []

/-- `init(num)`. -/
def init (Id : Type) (num : UInt64) : Option (State Id) :=
  (tableSize num).map fun total => { total := total }

/-- What the threads do. -/
inductive Event (Id : Type) where
  /-- A thread begins. -/
  | start (id : Id)
  /-- `getThreadObj` is called, and the bucket computed. -/
  | call (k : Nat)
  /-- The write lock of the bucket is taken. -/
  | lock (k : Nat)
  /-- One turn of the search, or the creation at its end. -/
  | look (k : Nat)
  /-- The thread ends. -/
  | exit (k : Nat)

section Machine

variable {Id : Type} [DecidableEq Id]

-- the hash of the text of an id
variable (hash : Id → UInt64)

/-- `getBucketIndex`; `none`: the remainder by zero. -/
def getBucketIndex (total : UInt64) (id : Id) : Option UInt64 :=
  if total = 0 then none else some (hash id % total)

/-- The thread is now at `place`. -/
def State.move (s : State Id) (k : Nat) (id : Id) (place : Place) : State Id :=
  { s with threads := s.threads.set k ⟨id, place⟩ }

def State.setItem (s : State Id) (b : UInt64) (item : ObjectItem Id) : State Id :=
  { s with items := Function.update s.items b item }

/-- The call ends: the guard releases the lock, and the object is returned. -/
def State.release (s : State Id) (k : Nat) (id : Id) (b : UInt64) (object : Nat) : State Id :=
  { (s.setItem b { s.items b with lock := none }).move k id .idle with
    returned := s.returned ++ [(k, object)] }

/-- `item.item_list.push_back` of a new object. -/
def State.create (s : State Id) (id : Id) (b : UInt64) : State Id :=
  { s.setItem b { s.items b with
      itemList := (s.items b).itemList ++ [(id, s.created.length)] } with
    created := s.created ++ [id] }

/-- One turn of the loop of `getThreadObj`. -/
def State.lookAt (s : State Id) (k : Nat) (id : Id) (b : UInt64) (i : Nat) : State Id :=
  match (s.items b).itemList[i]? with
  | some (id', object) =>
    if id' = id then s.release k id b object else s.move k id (.scanning b (i + 1))
  | none => (s.create id b).release k id b s.created.length

def step (s : State Id) : Event Id → Option (State Id)
  | .start id =>
    -- no other thread has this id now
    if s.threads.any fun t => t.id = id ∧ t.place ≠ .ended then none
    else some { s with threads := s.threads ++ [⟨id, .idle⟩] }
  | .call k =>
    match s.threads[k]? with
    | some ⟨id, .idle⟩ =>
      match getBucketIndex hash s.total id with
      | some b => some (s.move k id (.locking b))
      | none => some (s.move k id .crashed)
    | _ => none
  | .lock k =>
    match s.threads[k]? with
    | some ⟨id, .locking b⟩ =>
      if (s.items b).lock = none then
        some ((s.setItem b { s.items b with lock := some k }).move k id (.scanning b 0))
      else none
    | _ => none
  | .look k =>
    match s.threads[k]? with
    | some ⟨id, .scanning b i⟩ => some (s.lookAt k id b i)
    | _ => none
  | .exit k =>
    match s.threads[k]? with
    | some ⟨id, .idle⟩ => some (s.move k id .ended)
    | _ => none

/-! ## What a step can do -/

inductive Stepped (s : State Id) : Event Id → State Id → Prop where
  | started {id : Id} :
      Stepped s (.start id) { s with threads := s.threads ++ [⟨id, .idle⟩] }
  | called {k : Nat} {id : Id} (hk : s.threads[k]? = some ⟨id, .idle⟩) (htotal : s.total ≠ 0) :
      Stepped s (.call k) (s.move k id (.locking (hash id % s.total)))
  | crashed {k : Nat} {id : Id} (hk : s.threads[k]? = some ⟨id, .idle⟩) (htotal : s.total = 0) :
      Stepped s (.call k) (s.move k id .crashed)
  | locked {k : Nat} {id : Id} {b : UInt64} (hk : s.threads[k]? = some ⟨id, .locking b⟩)
      (hfree : (s.items b).lock = none) :
      Stepped s (.lock k)
        ((s.setItem b { s.items b with lock := some k }).move k id (.scanning b 0))
  | found {k : Nat} {id : Id} {b : UInt64} {i object : Nat}
      (hk : s.threads[k]? = some ⟨id, .scanning b i⟩)
      (hentry : (s.items b).itemList[i]? = some (id, object)) :
      Stepped s (.look k) (s.release k id b object)
  | passed {k : Nat} {id id' : Id} {b : UInt64} {i object : Nat}
      (hk : s.threads[k]? = some ⟨id, .scanning b i⟩)
      (hentry : (s.items b).itemList[i]? = some (id', object)) (hne : id' ≠ id) :
      Stepped s (.look k) (s.move k id (.scanning b (i + 1)))
  | made {k : Nat} {id : Id} {b : UInt64} {i : Nat}
      (hk : s.threads[k]? = some ⟨id, .scanning b i⟩)
      (hend : (s.items b).itemList[i]? = none) :
      Stepped s (.look k) ((s.create id b).release k id b s.created.length)
  | ended {k : Nat} {id : Id} (hk : s.threads[k]? = some ⟨id, .idle⟩) :
      Stepped s (.exit k) (s.move k id .ended)

variable {hash}

theorem stepped_lookAt {s : State Id} {k i : Nat} {id : Id} {b : UInt64}
    (hk : s.threads[k]? = some ⟨id, .scanning b i⟩) :
    Stepped hash s (.look k) (s.lookAt k id b i) := by
  unfold State.lookAt
  split
  · rename_i id' object hentry
    split
    · rename_i heq
      subst heq
      exact .found hk hentry
    · rename_i hne
      exact .passed hk hentry hne
  · rename_i hend
    exact .made hk hend

theorem stepped_of_step {s s' : State Id} {e : Event Id} (h : step hash s e = some s') :
    Stepped hash s e s' := by
  cases e with
  | start id =>
    obtain ⟨-, heq⟩ := Option.ite_none_left_eq_some.mp h
    obtain rfl := Option.some.inj heq
    exact .started
  | call k =>
    simp only [step, getBucketIndex] at h
    split at h
    · rename_i id hk
      split at h
      · rename_i b hb
        obtain ⟨htotal, hb⟩ := Option.ite_none_left_eq_some.mp hb
        obtain rfl := Option.some.inj hb
        obtain rfl := Option.some.inj h
        exact .called hk htotal
      · rename_i hb
        obtain rfl := Option.some.inj h
        refine .crashed hk ?_
        by_contra htotal
        rw [if_neg htotal] at hb
        cases hb
    · cases h
  | lock k =>
    simp only [step] at h
    split at h
    · rename_i id b hk
      obtain ⟨hfree, heq⟩ := Option.ite_none_right_eq_some.mp h
      obtain rfl := Option.some.inj heq
      exact .locked hk hfree
    · cases h
  | look k =>
    simp only [step] at h
    split at h
    · rename_i id b i hk
      obtain rfl := Option.some.inj h
      exact stepped_lookAt hk
    · cases h
  | exit k =>
    simp only [step] at h
    split at h
    · rename_i id hk
      obtain rfl := Option.some.inj h
      exact .ended hk
    · cases h

end Machine

/-! ## The objects are those of the ids -/

section Objects

variable {Id : Type} {hash : Id → UInt64}

variable (hash) in
/-- A thread in a call is at the bucket of its id; while it searches it holds the lock, and
    the entries it has passed are not its own. -/
def Placed (s : State Id) (k : Nat) (t : Thread Id) : Prop :=
  match t.place with
  | .idle | .ended => True
  | .locking b => hash t.id % s.total = b
  | .scanning b i => hash t.id % s.total = b ∧ (s.items b).lock = some k ∧
      ∀ e ∈ (s.items b).itemList.take i, e.1 ≠ t.id
  | .crashed => False

variable (hash) in
structure Inv (s : State Id) : Prop where
  total : s.total ≠ 0
  /-- No id has two objects. -/
  nodup : s.created.Nodup
  /-- An object is in the bucket of its id. -/
  homes : ∀ b id object, (id, object) ∈ (s.items b).itemList ↔
    s.created[object]? = some id ∧ hash id % s.total = b
  placed : ∀ k t, s.threads[k]? = some t → Placed hash s k t
  returned : ∀ c ∈ s.returned, ∃ t, s.threads[c.1]? = some t ∧ s.created[c.2]? = some t.id

variable {s s' : State Id} {k : Nat} {id : Id} {place place' : Place} {b : UInt64}

/-- What the others do does not matter to a thread: not to the bucket whose lock it holds. -/
theorem Placed.frame {t : Thread Id} (h : Placed hash s k t) (htotal : s'.total = s.total)
    (hitems : ∀ b, (s.items b).lock = some k → s'.items b = s.items b) : Placed hash s' k t := by
  unfold Placed at h ⊢
  split
  · trivial
  · trivial
  · rename_i b hplace
    rw [hplace] at h
    rw [htotal]
    exact h
  · rename_i b i hplace
    rw [hplace] at h
    rw [htotal, hitems b h.2.1]
    exact h
  · rename_i hplace
    rw [hplace] at h
    exact h

/-- One thread moves; the buckets locked by others, and the objects there are, stay. -/
theorem Inv.moved (h : Inv hash s) (hk : s.threads[k]? = some ⟨id, place⟩)
    (htotal : s'.total = s.total) (hthreads : s'.threads = s.threads.set k ⟨id, place'⟩)
    (hframe : ∀ j ≠ k, ∀ b, (s.items b).lock = some j → s'.items b = s.items b)
    (hplaced : Placed hash s' k ⟨id, place'⟩) (hcreated : s.created <+: s'.created)
    (hnodup : s'.created.Nodup)
    (hhomes : ∀ b id object, (id, object) ∈ (s'.items b).itemList ↔
      s'.created[object]? = some id ∧ hash id % s'.total = b)
    (hreturned : ∀ c ∈ s'.returned, c ∈ s.returned ∨
      c.1 = k ∧ s'.created[c.2]? = some id) : Inv hash s' := by
  have hlt : k < s.threads.length := (List.getElem?_eq_some_iff.mp hk).1
  refine ⟨htotal ▸ h.total, hnodup, hhomes, fun j t hj => ?_, fun c hc => ?_⟩
  · rw [hthreads] at hj
    rcases getElem?_set_eq_some hj with ⟨rfl, rfl⟩ | ⟨hne, hj⟩
    · exact hplaced
    · exact (h.placed j t hj).frame htotal (hframe j hne)
  · rw [hthreads]
    rcases hreturned c hc with hold | ⟨rfl, hobject⟩
    · obtain ⟨t, ht, hobject⟩ := h.returned c hold
      have hobject' : s'.created[c.2]? = some t.id := by
        obtain ⟨rest, hrest⟩ := hcreated
        rw [← hrest, List.getElem?_append_left (List.getElem?_eq_some_iff.mp hobject).1]
        exact hobject
      by_cases hc1 : c.1 = k
      · -- its own id does not change
        rw [hc1] at ht ⊢
        obtain rfl := Option.some.inj (ht.symm.trans hk)
        exact ⟨⟨id, place'⟩, List.getElem?_set_self hlt, hobject'⟩
      · exact ⟨t, by rw [List.getElem?_set_ne (Ne.symm hc1)]; exact ht, hobject'⟩
    · exact ⟨⟨id, place'⟩, List.getElem?_set_self hlt, hobject⟩

/-- A thread moves and touches no bucket. -/
theorem Inv.move (h : Inv hash s) (hk : s.threads[k]? = some ⟨id, place⟩)
    (hplaced : Placed hash s k ⟨id, place'⟩) : Inv hash (s.move k id place') :=
  h.moved hk rfl rfl (fun _ _ _ _ => rfl) hplaced (List.prefix_refl _) h.nodup h.homes
    fun _ hc => .inl hc

/-- Taking or releasing a lock changes no list. -/
theorem itemList_relock (l : Option Nat) (b' : UInt64) :
    ((s.setItem b { s.items b with lock := l }).items b').itemList = (s.items b').itemList := by
  show (Function.update s.items b _ b').itemList = _
  by_cases hb : b' = b
  · subst hb
    rw [Function.update_self]
  · rw [Function.update_of_ne hb]

theorem items_setItem_of_ne {item : ObjectItem Id} {b' : UInt64} (h : b' ≠ b) :
    (s.setItem b item).items b' = s.items b' :=
  Function.update_of_ne h _ _

theorem items_setItem_self {item : ObjectItem Id} : (s.setItem b item).items b = item :=
  Function.update_self _ _ _

theorem Inv.lock (h : Inv hash s) (hk : s.threads[k]? = some ⟨id, .locking b⟩)
    (hfree : (s.items b).lock = none) :
    Inv hash ((s.setItem b { s.items b with lock := some k }).move k id (.scanning b 0)) := by
  refine h.moved hk rfl rfl (fun j _ b' hb' => ?_) ⟨h.placed k _ hk, ?_, ?_⟩ (List.prefix_refl _)
    h.nodup (fun b' id object => ?_) fun _ hc => .inl hc
  · refine items_setItem_of_ne fun heq => ?_
    rw [heq, hfree] at hb'
    cases hb'
  · show ((s.setItem b _).items b).lock = some k
    rw [items_setItem_self]
  · simp
  · show _ ∈ ((s.setItem b _).items b').itemList ↔ _
    rw [itemList_relock]
    exact h.homes b' id object

theorem Inv.release {i object : Nat} (h : Inv hash s)
    (hk : s.threads[k]? = some ⟨id, .scanning b i⟩) (hobject : s.created[object]? = some id) :
    Inv hash (s.release k id b object) := by
  obtain ⟨-, hlock, -⟩ : Placed hash s k ⟨id, .scanning b i⟩ := h.placed k _ hk
  refine h.moved hk rfl rfl (fun j hj b' hb' => ?_) trivial (List.prefix_refl _) h.nodup
    (fun b' id object => ?_) fun c hc => ?_
  · refine items_setItem_of_ne fun heq => ?_
    rw [heq, hlock] at hb'
    exact hj (Option.some.inj hb').symm
  · show _ ∈ ((s.setItem b _).items b').itemList ↔ _
    rw [itemList_relock]
    exact h.homes b' id object
  · rcases List.mem_append.mp hc with hold | hnew
    · exact .inl hold
    · obtain rfl := List.mem_singleton.mp hnew
      exact .inr ⟨rfl, hobject⟩

/-- The search has passed every entry of the bucket: the id has no object. -/
theorem Inv.not_created {i : Nat} (h : Inv hash s)
    (hk : s.threads[k]? = some ⟨id, .scanning b i⟩) (hend : (s.items b).itemList[i]? = none) :
    id ∉ s.created := by
  obtain ⟨hb, -, hpassed⟩ : Placed hash s k ⟨id, .scanning b i⟩ := h.placed k _ hk
  intro hmem
  obtain ⟨object, hobject⟩ := List.mem_iff_getElem?.mp hmem
  have hentry := (h.homes b id object).mpr ⟨hobject, hb⟩
  rw [List.getElem?_eq_none_iff] at hend
  rw [List.take_of_length_le hend] at hpassed
  exact hpassed _ hentry rfl

/-- The new object is in the bucket of its id, and the others are where they were. -/
theorem Inv.homes_create (h : Inv hash s) (hb : hash id % s.total = b) (b' : UInt64) (id' : Id)
    (object : Nat) : (id', object) ∈ ((s.create id b).items b').itemList ↔
      (s.create id b).created[object]? = some id' ∧ hash id' % s.total = b' := by
  show _ ∈ ((s.setItem b _).items b').itemList ↔ (s.created ++ [id])[object]? = some id' ∧ _
  rw [getElem?_snoc_iff]
  by_cases hbb : b' = b
  · subst hbb
    rw [items_setItem_self, List.mem_append, h.homes, List.mem_singleton, Prod.mk.injEq]
    constructor
    · rintro (⟨hold, hid⟩ | ⟨rfl, rfl⟩)
      · exact ⟨.inl hold, hid⟩
      · exact ⟨.inr ⟨rfl, rfl⟩, hb⟩
    · rintro ⟨hold | ⟨rfl, rfl⟩, hid⟩
      · exact .inl ⟨hold, hid⟩
      · exact .inr ⟨rfl, rfl⟩
  · rw [items_setItem_of_ne hbb, h.homes]
    constructor
    · rintro ⟨hold, hid⟩
      exact ⟨.inl hold, hid⟩
    · rintro ⟨hold | ⟨rfl, rfl⟩, hid⟩
      · exact ⟨hold, hid⟩
      · exact absurd (hid.symm.trans hb) hbb

theorem Inv.create {i : Nat} (h : Inv hash s) (hk : s.threads[k]? = some ⟨id, .scanning b i⟩)
    (hend : (s.items b).itemList[i]? = none) :
    Inv hash ((s.create id b).release k id b s.created.length) := by
  obtain ⟨hb, hlock, -⟩ : Placed hash s k ⟨id, .scanning b i⟩ := h.placed k _ hk
  refine h.moved hk rfl rfl (fun j hj b' hb' => ?_) trivial (List.prefix_append _ _) ?_
    (fun b' id' object => ?_) fun c hc => ?_
  · have hne : b' ≠ b := by
      rintro rfl
      rw [hlock] at hb'
      exact hj (Option.some.inj hb').symm
    exact (items_setItem_of_ne hne).trans (items_setItem_of_ne hne)
  · exact List.nodup_append.mpr ⟨h.nodup, List.nodup_singleton id, fun x hx y hy hxy =>
      h.not_created hk hend (List.mem_singleton.mp hy ▸ hxy ▸ hx)⟩
  · show _ ∈ (((s.create id b).setItem b _).items b').itemList ↔ _
    rw [itemList_relock]
    exact h.homes_create hb b' id' object
  · rcases List.mem_append.mp hc with hold | hnew
    · exact .inl hold
    · obtain rfl := List.mem_singleton.mp hnew
      exact .inr ⟨rfl, List.getElem?_concat_length⟩

variable [DecidableEq Id] in
theorem inv_step {e : Event Id} (h : Inv hash s) (hstep : step hash s e = some s') :
    Inv hash s' := by
  cases stepped_of_step hstep with
  | started =>
    refine ⟨h.total, h.nodup, h.homes, fun k t hk => ?_, fun c hc => ?_⟩
    · rcases getElem?_snoc_iff.mp hk with hold | ⟨-, rfl⟩
      · exact (h.placed k t hold).frame rfl fun _ _ => rfl
      · trivial
    · obtain ⟨t, ht, hobject⟩ := h.returned c hc
      exact ⟨t, getElem?_snoc_of_some ht, hobject⟩
  | called hk => exact h.move hk rfl
  | crashed _ htotal => exact absurd htotal h.total
  | locked hk hfree => exact h.lock hk hfree
  | found hk hentry =>
    have hmem := List.mem_of_getElem? hentry
    exact h.release hk ((h.homes _ _ _).mp hmem).1
  | @passed k id id' b i object hk hentry hne =>
    obtain ⟨hb, hlock, hpassed⟩ : Placed hash s k ⟨id, .scanning b i⟩ := h.placed k _ hk
    refine h.move hk ⟨hb, hlock, ?_⟩
    rw [List.take_add_one, hentry]
    exact forall_mem_snoc hpassed hne
  | made hk hend => exact h.create hk hend
  | ended hk => exact h.move hk trivial

end Objects

/-! ## Every interleaving -/

/-- The bucket that a thread in a call uses. -/
def Place.bucket : Place → Option UInt64
  | .locking b => some b
  | .scanning b _ => some b
  | .idle | .crashed | .ended => none

/-- The objects are those of the ids of their threads. -/
structure State.PerThread {Id : Type} (s : State Id) : Prop where
  /-- Bucket indices are in range, and none was computed modulo zero. -/
  inRange : ∀ t ∈ s.threads, t.place ≠ .crashed ∧ ∀ b, t.place.bucket = some b → b < s.total
  /-- A thread always gets the same object. -/
  same : ∀ c ∈ s.returned, ∀ c' ∈ s.returned, c.1 = c'.1 → c.2 = c'.2
  /-- Threads with different ids get different objects. -/
  different : ∀ c ∈ s.returned, ∀ c' ∈ s.returned, ∀ t t', s.threads[c.1]? = some t →
    s.threads[c'.1]? = some t' → t.id ≠ t'.id → c.2 ≠ c'.2
  /-- At most one object is created for an id. -/
  once : s.created.Nodup

variable {Id : Type} {hash : Id → UInt64}

theorem Inv.inRange {s : State Id} (h : Inv hash s) {t : Thread Id} (ht : t ∈ s.threads) :
    t.place ≠ .crashed ∧ ∀ b, t.place.bucket = some b → b < s.total := by
  obtain ⟨k, hk⟩ := List.mem_iff_getElem?.mp ht
  have hplaced := h.placed k t hk
  have hlt (b : UInt64) (hb : hash t.id % s.total = b) : b < s.total := by
    subst hb
    exact UInt64.mod_lt _ (UInt64.pos_iff_ne_zero.mpr h.total)
  unfold Placed at hplaced
  refine ⟨fun hplace => ?_, fun b hb => ?_⟩
  · rw [hplace] at hplaced
    exact hplaced
  · cases hplace : t.place with
    | idle | crashed | ended =>
      rw [hplace] at hb
      cases hb
    | locking b' =>
      rw [hplace] at hb hplaced
      obtain rfl := Option.some.inj hb
      exact hlt _ hplaced
    | scanning b' i =>
      rw [hplace] at hb hplaced
      obtain rfl := Option.some.inj hb
      exact hlt _ hplaced.1

theorem Inv.perThread {s : State Id} (h : Inv hash s) : s.PerThread where
  inRange := fun t ht => h.inRange ht
  same := fun c hc c' hc' hthread => by
    obtain ⟨t, ht, hobject⟩ := h.returned c hc
    obtain ⟨t', ht', hobject'⟩ := h.returned c' hc'
    rw [hthread] at ht
    obtain rfl : t = t' := Option.some.inj (ht.symm.trans ht')
    -- both objects were created for the id of the thread
    have hlt := (List.getElem?_eq_some_iff.mp hobject).1
    exact (List.getElem?_inj hlt h.nodup).mp (hobject.trans hobject'.symm)
  different := fun c hc c' hc' t t' ht ht' hne heq => by
    obtain ⟨u, hu, hobject⟩ := h.returned c hc
    obtain ⟨u', hu', hobject'⟩ := h.returned c' hc'
    obtain rfl : t = u := Option.some.inj (ht.symm.trans hu)
    obtain rfl : t' = u' := Option.some.inj (ht'.symm.trans hu')
    rw [heq] at hobject
    exact hne (Option.some.inj (hobject.symm.trans hobject'))
  once := h.nodup

/-- The table has a prime size when `num * 2` is positive as a signed number. -/
theorem tableSize_of_pos {num : UInt64} (h : 0 < (num * 2).toInt64) :
    ∃ size, tableSize num = some size ∧ size ≠ 0 := by
  have hprimes : primeList.all fun p => p.toUInt64 ≠ 0 ∧ ¬ maxSize < p.toUInt64 := by
    decide +kernel
  have hmem : calNextPrime (num * 2).toInt64 ∈ primeList := by
    unfold calNextPrime
    rw [if_pos h]
    cases hfind : primeList.find? ((num * 2).toInt64 ≤ ·) with
    | none => decide +kernel
    | some p => exact List.mem_of_find?_eq_some hfind
  obtain ⟨hpos, hsize⟩ := of_decide_eq_true (List.all_eq_true.mp hprimes _ hmem)
  exact ⟨_, if_neg hsize, hpos⟩

theorem inv_init {total : UInt64} (h : total ≠ 0) : Inv hash ({ total := total } : State Id) :=
  ⟨h, List.nodup_nil, by simp, by simp, by simp⟩

variable [DecidableEq Id]

/-- **Per-thread objects**, for any hash and any interleaving of calls, beginnings and ends of
    threads. -/
theorem perThread_of_run (hash : Id → UInt64) {num : UInt64} (h : 0 < (num * 2).toInt64) :
    ∃ s₀, init Id num = some s₀ ∧
      ∀ es s, run (step hash) s₀ es = some s → s.PerThread := by
  obtain ⟨total, htotal, hne⟩ := tableSize_of_pos h
  refine ⟨{ total := total }, by rw [init, htotal]; rfl, fun es s hrun => ?_⟩
  have hinv : Inv hash s := run_inv (fun _ _ _ hs hstep => inv_step hs hstep) (inv_init hne) hrun
  exact hinv.perThread

/-- A call of thread `k` whose search ends at entry `i`. -/
def wholeCall (k i : Nat) : List (Event Nat) :=
  [.call k, .lock k] ++ List.replicate (i + 1) (.look k)

/-- Two threads in one bucket: the second passes the entry of the first. -/
theorem twoThreads_perThread :
    ∃ s₀ s, init Nat 4 = some s₀ ∧
      run (step fun _ => 7) s₀ ([.start 1, .start 2] ++ wholeCall 0 0 ++ wholeCall 1 1 ++
        wholeCall 0 0) = some s ∧
      s.returned = [(0, 0), (1, 1), (0, 0)] ∧ s.PerThread := by
  obtain ⟨s₀, hinit, hall⟩ := @perThread_of_run Nat _ (fun _ => 7) 4 (by decide)
  have hview : ((init Nat 4).bind fun s₀ => (run (step fun _ => 7) s₀ ([.start 1, .start 2] ++
      wholeCall 0 0 ++ wholeCall 1 1 ++ wholeCall 0 0)).map State.returned) =
      some [(0, 0), (1, 1), (0, 0)] := by decide +kernel
  rw [hinit, Option.bind_some] at hview
  obtain ⟨s, hrun, hs⟩ := Option.map_eq_some_iff.mp hview
  exact ⟨s₀, s, hinit, hrun, hs, hall _ s hrun⟩

/-- **Not every size, not every thread.**  `2 ^ 63 * 2` wraps around to an empty table, and
    the bucket is computed modulo zero.  A thread that is given the id of one that has ended
    gets the object of that thread. -/
theorem not_perThread :
    (∃ s₀ s, init Nat 0x8000000000000000 = some s₀ ∧
      run (step fun _ => 7) s₀ [.start 1, .call 0] = some s ∧
      s.threads.map Thread.place = [.crashed]) ∧
    ∃ s₀ s, init Nat 4 = some s₀ ∧
      run (step fun _ => 7) s₀ ([.start 1] ++ wholeCall 0 0 ++ [.exit 0, .start 1] ++
        wholeCall 1 0) = some s ∧
      s.returned = [(0, 0), (1, 0)] := by
  constructor
  · have hview : ((init Nat 0x8000000000000000).bind fun s₀ =>
        (run (step fun _ => 7) s₀ [.start 1, .call 0]).map fun s =>
          s.threads.map Thread.place) = some [.crashed] := by decide +kernel
    obtain ⟨s₀, hinit, hrest⟩ := Option.bind_eq_some_iff.mp hview
    obtain ⟨s, hrun, hs⟩ := Option.map_eq_some_iff.mp hrest
    exact ⟨s₀, s, hinit, hrun, hs⟩
  · have hview : ((init Nat 4).bind fun s₀ => (run (step fun _ => 7) s₀ ([.start 1] ++
        wholeCall 0 0 ++ [.exit 0, .start 1] ++ wholeCall 1 0)).map State.returned) =
        some [(0, 0), (1, 0)] := by decide +kernel
    obtain ⟨s₀, hinit, hrest⟩ := Option.bind_eq_some_iff.mp hview
    obtain ⟨s, hrun, hs⟩ := Option.map_eq_some_iff.mp hrest
    exact ⟨s₀, s, hinit, hrun, hs⟩

end FiberProxy.MultiThreadObjMgr
