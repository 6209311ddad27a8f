/-
  FiberProxy.Lib.LinkedList

  Intrusive doubly linked lists.  Every node carries a pointer to its predecessor
  and one to its successor (`Links`); a list is known by its two ends (`Ends`), and
  several lists may live in the same links as long as they share no node.

  `Seg l p xs n` says that the nodes `xs` are linked in this order, that the first
  one points back to `p` and the last one on to `n`.  `seg_link` joins two segments,
  whatever their facing pointers were; every insertion is an instance of it.
  `Holds l e xs` is a whole list, and the lemmas below it give the list after each
  operation; `Holds.frame` keeps a list whose nodes are not written.
-/

import Mathlib.Data.List.Nodup
import Mathlib.Logic.Function.Basic

namespace FiberProxy.Lib

variable {α : Type*}

/-- The two pointers of every node. -/
structure Links (α : Type*) where
  prev : α → Option α
  next : α → Option α

/-- The two ends of a list. -/
structure Ends (α : Type*) where
  head : Option α := none
  tail : Option α := none
deriving DecidableEq, Repr

namespace Links

/-- No node points anywhere. -/
def empty : Links α := ⟨fun _ => none, fun _ => none⟩

/-- The nodes `xs` in this order, between `p` and `n`. -/
def Seg (l : Links α) : Option α → List α → Option α → Prop
  | _, [], _ => True
  | p, x :: xs, n => l.prev x = p ∧ l.next x = xs.head?.or n ∧ l.Seg (some x) xs n

/-- A node that points nowhere. -/
def Detached (l : Links α) (a : α) : Prop := l.prev a = none ∧ l.next a = none

theorem seg_append {l : Links α} {p n : Option α} {xs ys : List α} :
    l.Seg p (xs ++ ys) n ↔ l.Seg p xs (ys.head?.or n) ∧ l.Seg (xs.getLast?.or p) ys n := by
  induction xs generalizing p with
  | nil => simp [Seg]
  | cons x xs ih =>
    have hlast : (x :: xs).getLast?.or p = xs.getLast?.or (some x) := by
      rw [List.getLast?_cons]
      cases xs.getLast? <;> rfl
    have hhead : ((xs ++ ys).head?).or n = xs.head?.or (ys.head?.or n) := by
      rw [List.head?_append, Option.or_assoc]
    simp only [List.cons_append, Seg, ih, hlast, hhead, and_assoc]

/-- A segment whose nodes are not written stays. -/
theorem Seg.frame {l l' : Links α} {p n : Option α} {xs : List α} (h : l.Seg p xs n)
    (hsame : ∀ x ∈ xs, l'.prev x = l.prev x ∧ l'.next x = l.next x) : l'.Seg p xs n := by
  induction xs generalizing p with
  | nil => trivial
  | cons x xs ih =>
    obtain ⟨hprev, hnext, hrest⟩ := h
    obtain ⟨hp, hn⟩ := hsame x List.mem_cons_self
    exact ⟨hp.trans hprev, hn.trans hnext,
      ih hrest fun y hy => hsame y (List.mem_cons_of_mem x hy)⟩

/-! ## Whole lists -/

/-- The list `xs` with the ends `e`. -/
structure Holds (l : Links α) (e : Ends α) (xs : List α) : Prop where
  head : e.head = xs.head?
  tail : e.tail = xs.getLast?
  nodup : xs.Nodup
  seg : l.Seg none xs none

section Lists

variable {l l' : Links α} {e : Ends α} {a f : α} {xs ys : List α}

theorem holds_nil (l : Links α) : l.Holds {} [] := ⟨rfl, rfl, List.nodup_nil, trivial⟩

theorem seg_singleton (l : Links α) (a : α) : l.Seg (l.prev a) [a] (l.next a) :=
  ⟨rfl, by simp, trivial⟩

theorem holds_singleton (h : l.Detached a) : l.Holds ⟨some a, some a⟩ [a] :=
  ⟨rfl, rfl, List.nodup_singleton a, h.1, h.2, trivial⟩

theorem Holds.frame (h : l.Holds e xs)
    (hsame : ∀ x ∈ xs, l'.prev x = l.prev x ∧ l'.next x = l.next x) : l'.Holds e xs :=
  ⟨h.head, h.tail, h.nodup, h.seg.frame hsame⟩

theorem Holds.eq_nil (h : l.Holds e xs) (hhead : e.head = none) : xs = [] :=
  List.head?_eq_none_iff.mp (h.head ▸ hhead)

theorem Holds.eq_cons (h : l.Holds e xs) (hhead : e.head = some a) : ∃ ys, xs = a :: ys :=
  List.head?_eq_some_iff.mp (h.head ▸ hhead)

theorem Holds.eq_snoc (h : l.Holds e xs) (htail : e.tail = some a) : ∃ ys, xs = ys ++ [a] :=
  List.getLast?_eq_some_iff.mp (h.tail ▸ htail)

theorem Holds.exists_head (h : l.Holds e xs) (hxs : xs ≠ []) : ∃ b, e.head = some b :=
  ⟨xs.head hxs, h.head.trans (List.head?_eq_some_head hxs)⟩

theorem Holds.exists_tail (h : l.Holds e xs) (hxs : xs ≠ []) : ∃ t, e.tail = some t :=
  ⟨xs.getLast hxs, h.tail.trans (List.getLast?_eq_some_getLast hxs)⟩

/-- The successor of a node is the next one in the list. -/
theorem Holds.next (h : l.Holds e (xs ++ f :: ys)) : l.next f = ys.head? := by
  obtain ⟨-, -, hnext, -⟩ := seg_append.mp h.seg
  simpa using hnext

theorem Holds.next_first (h : l.Holds e (f :: ys)) : l.next f = ys.head? := by
  rw [← List.nil_append (f :: ys)] at h
  exact h.next

/-- The predecessor of a node is the one before it in the list. -/
theorem Holds.prev (h : l.Holds e (xs ++ f :: ys)) : l.prev f = xs.getLast? := by
  obtain ⟨-, hprev, -, -⟩ := seg_append.mp h.seg
  simpa using hprev

/-- Only the first node is the head. -/
theorem Holds.head_ne (h : l.Holds e (xs ++ f :: ys)) (hxs : xs ≠ []) : e.head ≠ some f := by
  obtain ⟨b, bs, rfl⟩ := List.exists_cons_of_ne_nil hxs
  have hnodup := (List.nodup_cons.mp h.nodup).1
  rw [h.head]
  rintro heq
  obtain rfl : b = f := by simpa using heq
  exact hnodup (by simp)

/-- Only the last node is the tail. -/
theorem Holds.tail_ne (h : l.Holds e (xs ++ f :: ys)) (hys : ys ≠ []) : e.tail ≠ some f := by
  have hnodup := (List.nodup_cons.mp (List.nodup_append.mp h.nodup).2.1).1
  rw [h.tail, List.getLast?_append]
  intro heq
  refine hnodup (List.mem_of_getLast? (l := ys) ?_)
  simpa [List.getLast?_cons, List.getLast?_eq_some_getLast hys] using heq

end Lists

/-! ## Writing pointers -/

variable [DecidableEq α]

def setPrev (l : Links α) (a : α) (p : Option α) : Links α :=
  { l with prev := Function.update l.prev a p }

def setNext (l : Links α) (a : α) (n : Option α) : Links α :=
  { l with next := Function.update l.next a n }

/-- `a` and `b` become neighbours. -/
def link (l : Links α) (a b : α) : Links α := (l.setNext a (some b)).setPrev b (some a)

/-- `a` points nowhere any more. -/
def detach (l : Links α) (a : α) : Links α := (l.setNext a none).setPrev a none

/-- The first node is taken off, and points nowhere any more. -/
def pop (l : Links α) (e : Ends α) (a : α) : Links α × Ends α :=
  match l.next a with
  | none => (l.detach a, {})
  | some b => ((l.setPrev b none).detach a, { e with head := some b })

/-- The node `a`, with `p` before it, goes in front of the first node `h`. -/
def toFront (l : Links α) (e : Ends α) (a p h : α) : Links α × Ends α :=
  let (l, tail) :=
    match l.next a with
    | none => (l.setNext p none, some p)
    | some n => (l.link p n, e.tail)
  (((l.setNext a (some h)).setPrev a none).setPrev h (some a), ⟨some a, tail⟩)

section Writes

variable {l : Links α} {a b x : α} {p n q : Option α}

@[simp] theorem setPrev_next : (l.setPrev a q).next = l.next := rfl

@[simp] theorem setNext_prev : (l.setNext a q).prev = l.prev := rfl

@[simp] theorem setPrev_prev_self : (l.setPrev a q).prev a = q := Function.update_self ..

@[simp] theorem setNext_next_self : (l.setNext a q).next a = q := Function.update_self ..

theorem setPrev_prev_of_ne (h : x ≠ a) : (l.setPrev a q).prev x = l.prev x :=
  Function.update_of_ne h ..

theorem setNext_next_of_ne (h : x ≠ a) : (l.setNext a q).next x = l.next x :=
  Function.update_of_ne h ..

/-- `link` writes at its two nodes only. -/
theorem link_same (ha : x ≠ a) (hb : x ≠ b) :
    (l.link a b).prev x = l.prev x ∧ (l.link a b).next x = l.next x :=
  ⟨setPrev_prev_of_ne hb, setNext_next_of_ne ha⟩

theorem detach_same (ha : x ≠ a) :
    (l.detach a).prev x = l.prev x ∧ (l.detach a).next x = l.next x :=
  ⟨setPrev_prev_of_ne ha, setNext_next_of_ne ha⟩

@[simp] theorem detached_detach : (l.detach a).Detached a :=
  ⟨setPrev_prev_self, setNext_next_self⟩

end Writes

/-! ## Segments -/

section Segments

variable {l : Links α} {p q n m : Option α} {a b : α} {xs ys : List α}

/-- A segment may end elsewhere: its last node is redirected. -/
theorem Seg.setNext_last (h : l.Seg p (xs ++ [a]) n) (ha : a ∉ xs) :
    (l.setNext a m).Seg p (xs ++ [a]) m := by
  obtain ⟨hxs, hprev, -, -⟩ := seg_append.mp h
  refine seg_append.mpr ⟨hxs.frame fun x hx => ⟨rfl, ?_⟩, hprev, setNext_next_self, trivial⟩
  exact setNext_next_of_ne fun heq => ha (heq ▸ hx)

/-- A segment may begin elsewhere: its first node is redirected. -/
theorem Seg.setPrev_head (h : l.Seg p (b :: ys) n) (hb : b ∉ ys) :
    (l.setPrev b q).Seg q (b :: ys) n := by
  obtain ⟨-, hnext, hys⟩ := h
  refine ⟨setPrev_prev_self, hnext, hys.frame fun y hy => ⟨?_, rfl⟩⟩
  exact setPrev_prev_of_ne fun heq => hb (heq ▸ hy)

/-- **Joining rule.** Two segments become one when their facing nodes are linked. -/
theorem seg_link (hxs : l.Seg p (xs ++ [a]) m) (hys : l.Seg q (b :: ys) n)
    (hnodup : (xs ++ a :: b :: ys).Nodup) : (l.link a b).Seg p (xs ++ a :: b :: ys) n := by
  have hsplit : xs ++ a :: b :: ys = (xs ++ [a]) ++ b :: ys := by simp
  rw [hsplit] at hnodup ⊢
  obtain ⟨hn₁, hn₂, hdisj⟩ := List.nodup_append'.mp hnodup
  have ha : a ∉ xs := fun h => (List.disjoint_of_nodup_append hn₁) h List.mem_cons_self
  have hb : b ∉ ys := (List.nodup_cons.mp hn₂).1
  refine seg_append.mpr ⟨?_, ?_⟩
  · -- the write at `b` leaves the first segment as it is
    refine (hxs.setNext_last (m := some b) ha).frame fun x hx => ⟨?_, rfl⟩
    exact setPrev_prev_of_ne fun heq => hdisj hx (by simp [heq])
  · -- and the write at `a` the second one
    have hframe : (l.setNext a (some b)).Seg q (b :: ys) n := hys.frame fun y hy =>
      ⟨rfl, setNext_next_of_ne fun heq => hdisj (by simp) (heq ▸ hy)⟩
    simpa [link] using hframe.setPrev_head (q := some a) hb

end Segments

/-! ## The operations on a list -/

section Operations

variable {l : Links α} {e : Ends α} {a b f : α} {xs ys : List α}

/-- A node is put in front; only its back pointer has to be clear. -/
theorem Holds.pushFront (h : l.Holds e (b :: ys)) (ha : l.prev a = none) (hnot : a ∉ b :: ys) :
    (l.link a b).Holds { e with head := some a } (a :: b :: ys) where
  head := rfl
  tail := by simp [h.tail]
  nodup := List.nodup_cons.mpr ⟨hnot, h.nodup⟩
  seg := by
    have ha' : l.Seg none ([] ++ [a]) (l.next a) := ⟨ha, by simp, trivial⟩
    exact seg_link ha' h.seg (List.nodup_cons.mpr ⟨hnot, h.nodup⟩)

theorem Holds.pushBack (h : l.Holds e (xs ++ [b])) (ha : l.next a = none)
    (hnot : a ∉ xs ++ [b]) :
    (l.link b a).Holds { e with tail := some a } (xs ++ [b] ++ [a]) where
  head := by simp [h.head]
  tail := by simp
  nodup := List.nodup_append.mpr ⟨h.nodup, List.nodup_singleton a, by
    intro x hx y hy heq
    exact hnot (List.mem_singleton.mp hy ▸ heq ▸ hx)⟩
  seg := by
    have ha' : l.Seg (l.prev a) [a] none := ⟨rfl, by simpa using ha, trivial⟩
    have hnodup : (xs ++ b :: [a]).Nodup := by
      have := h.nodup
      simp only [List.nodup_append, List.mem_append, List.mem_singleton] at this hnot ⊢
      grind
    simpa using seg_link h.seg ha' hnodup

/-- A node is put between two neighbours. -/
theorem Holds.insert (h : l.Holds e (xs ++ b :: f :: ys)) (hnot : a ∉ xs ++ b :: f :: ys) :
    ((l.link a f).link b a).Holds e (xs ++ b :: a :: f :: ys) where
  head := by simp [h.head, List.head?_append]
  tail := by simp [h.tail, List.getLast?_append, List.getLast?_cons]
  nodup := by
    have := h.nodup
    grind
  seg := by
    have hsplit : xs ++ b :: f :: ys = (xs ++ [b]) ++ f :: ys := by simp
    have hnodup := h.nodup
    have hseg := h.seg
    rw [hsplit] at hseg
    obtain ⟨hfirst, hsecond⟩ := seg_append.mp hseg
    -- the node and the second half, then the first half and both
    have ha : l.Seg (l.prev a) ([] ++ [a]) (l.next a) := seg_singleton l a
    have hright := seg_link ha hsecond (by grind)
    have hleft : (l.link a f).Seg none (xs ++ [b]) (some f) := by
      refine hfirst.frame fun x hx => link_same ?_ ?_
      · rintro rfl
        grind
      · rintro rfl
        grind
    exact seg_link hleft hright (by grind)

theorem Holds.pop (h : l.Holds e (a :: ys)) : (l.pop e a).1.Holds (l.pop e a).2 ys := by
  have hnext : l.next a = ys.head? := h.next_first
  obtain ⟨ha, hnodup⟩ := List.nodup_cons.mp h.nodup
  cases ys with
  | nil =>
    simp only [Links.pop, hnext, List.head?_nil]
    exact holds_nil _
  | cons b ys =>
    simp only [Links.pop, hnext, List.head?_cons]
    refine ⟨rfl, by simp [h.tail], hnodup, ?_⟩
    have hseg := h.seg.2.2.setPrev_head (q := none) (List.nodup_cons.mp hnodup).1
    exact hseg.frame fun x hx => detach_same fun heq => ha (heq ▸ hx)

/-- `pop` writes in its own list only. -/
theorem Holds.pop_same (h : l.Holds e (a :: ys)) {x : α} (hx : x ∉ a :: ys) :
    (l.pop e a).1.prev x = l.prev x ∧ (l.pop e a).1.next x = l.next x := by
  have hnext : l.next a = ys.head? := h.next_first
  obtain ⟨hxa, hxs⟩ := not_or.mp (mt List.mem_cons.mpr hx)
  cases ys with
  | nil =>
    simp only [Links.pop, hnext, List.head?_nil]
    exact detach_same hxa
  | cons b ys =>
    simp only [Links.pop, hnext, List.head?_cons]
    obtain ⟨hp, hn⟩ := detach_same (l := l.setPrev b none) hxa
    have hxb : x ≠ b := fun heq => hxs (heq ▸ List.mem_cons_self)
    exact ⟨hp.trans (setPrev_prev_of_ne hxb), hn⟩

theorem detached_pop (l : Links α) (e : Ends α) (a : α) : (l.pop e a).1.Detached a := by
  unfold Links.pop
  split <;> exact detached_detach

/-- A node between two others is taken out. -/
theorem Holds.unlink (h : l.Holds e (xs ++ b :: a :: f :: ys)) :
    (l.link b f).Holds e (xs ++ b :: f :: ys) where
  head := by simp [h.head, List.head?_append]
  tail := by simp [h.tail, List.getLast?_append, List.getLast?_cons]
  nodup := by
    have := h.nodup
    grind
  seg := by
    have hsplit : xs ++ b :: a :: f :: ys = (xs ++ [b]) ++ ([a] ++ f :: ys) := by simp
    have hnodup := h.nodup
    have hseg := h.seg
    rw [hsplit] at hseg
    obtain ⟨hfirst, hrest⟩ := seg_append.mp hseg
    obtain ⟨-, hsecond⟩ := seg_append.mp hrest
    exact seg_link hfirst hsecond (by grind)

/-- The last node is taken off. -/
theorem Holds.unlink_last (h : l.Holds e (xs ++ [b, a])) :
    (l.setNext b none).Holds { e with tail := some b } (xs ++ [b]) where
  head := by simp [h.head, List.head?_append]
  tail := by simp
  nodup := by
    have := h.nodup
    grind
  seg := by
    have hnodup := h.nodup
    have hseg := h.seg
    rw [show xs ++ [b, a] = (xs ++ [b]) ++ [a] by simp] at hseg
    exact (seg_append.mp hseg).1.setNext_last (by grind)

/-- A node that is out of its list goes in front of it. -/
theorem Holds.redirectFront (h : l.Holds e ys) (hhead : e.head = some b) (ha : a ∉ ys) :
    (((l.setNext a (some b)).setPrev a none).setPrev b (some a)).Holds { e with head := some a }
      (a :: ys) := by
  obtain ⟨zs, rfl⟩ := h.eq_cons hhead
  have hframe : (l.setPrev a none).Holds e (b :: zs) :=
    h.frame fun x hx => ⟨setPrev_prev_of_ne fun heq => ha (heq ▸ hx), rfl⟩
  exact hframe.pushFront setPrev_prev_self ha

theorem Holds.toFront (h : l.Holds e (xs ++ b :: a :: ys)) (hhead : e.head = some f) :
    (l.toFront e a b f).1.Holds (l.toFront e a b f).2 (a :: (xs ++ b :: ys)) := by
  have hsplit : xs ++ b :: a :: ys = (xs ++ [b]) ++ a :: ys := by simp
  have hnext : l.next a = ys.head? := (hsplit ▸ h).next
  have ha : a ∉ xs ++ b :: ys := by
    have := h.nodup
    grind
  cases ys with
  | nil =>
    simp only [Links.toFront, hnext, List.head?_nil]
    exact h.unlink_last.redirectFront hhead ha
  | cons n ys =>
    simp only [Links.toFront, hnext, List.head?_cons]
    exact h.unlink.redirectFront hhead ha

/-- `toFront` writes in its own list only. -/
theorem Holds.toFront_same (h : l.Holds e (xs ++ b :: a :: ys)) (hhead : e.head = some f) {x : α}
    (hx : x ∉ xs ++ b :: a :: ys) :
    (l.toFront e a b f).1.prev x = l.prev x ∧ (l.toFront e a b f).1.next x = l.next x := by
  have hsplit : xs ++ b :: a :: ys = (xs ++ [b]) ++ a :: ys := by simp
  have hnext : l.next a = ys.head? := (hsplit ▸ h).next
  have hxa : x ≠ a := fun heq => hx (by simp [heq])
  have hxb : x ≠ b := fun heq => hx (by simp [heq])
  have hxf : x ≠ f := by
    rintro rfl
    exact hx (List.mem_of_head? (h.head ▸ hhead))
  cases ys with
  | nil =>
    simp only [Links.toFront, hnext, List.head?_nil]
    refine ⟨?_, ?_⟩
    · rw [setPrev_prev_of_ne hxf, setPrev_prev_of_ne hxa]
      rfl
    · exact (setNext_next_of_ne hxa).trans (setNext_next_of_ne hxb)
  | cons n ys =>
    simp only [Links.toFront, hnext, List.head?_cons]
    have hxn : x ≠ n := fun heq => hx (by simp [heq])
    obtain ⟨hp, hn⟩ := link_same (l := l) hxb hxn
    refine ⟨?_, ?_⟩
    · rw [setPrev_prev_of_ne hxf, setPrev_prev_of_ne hxa]
      exact hp
    · exact (setNext_next_of_ne hxa).trans hn

end Operations

end Links

end FiberProxy.Lib
