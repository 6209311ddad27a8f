/-
  FiberProxy.Lib.Lists

  Counting and summing over a list one of whose entries is replaced, where a beginning
  of a list ends, and the entries of a log that each turn of a loop has written.
-/

import Mathlib.Algebra.GroupWithZero.Nat
import Mathlib.Data.List.Infix
import Mathlib.Tactic.Common

namespace FiberProxy.Lib

variable {α : Type}

/-- Replacing an entry moves a count by that entry only. -/
theorem countP_set_add {l : List α} {i : Nat} {a : α} (h : l[i]? = some a) (b : α)
    (p : α → Bool) :
    (l.set i b).countP p + (if p a then 1 else 0) = l.countP p + (if p b then 1 else 0) := by
  induction l generalizing i with
  | nil => simp at h
  | cons x xs ih =>
    cases i with
    | zero =>
      obtain rfl : x = a := by simpa using h
      simp only [List.set_cons_zero, List.countP_cons]
      omega
    | succ i =>
      have hrec := ih (i := i) (by simpa using h)
      simp only [List.set_cons_succ, List.countP_cons]
      omega

/-- Replacing an entry moves a sum by that entry only. -/
theorem sum_map_set_add {l : List α} {i : Nat} {a : α} (h : l[i]? = some a) (b : α)
    (f : α → Nat) : ((l.set i b).map f).sum + f a = (l.map f).sum + f b := by
  induction l generalizing i with
  | nil => simp at h
  | cons x xs ih =>
    cases i with
    | zero =>
      obtain rfl : x = a := by simpa using h
      simp only [List.set_cons_zero, List.map_cons, List.sum_cons]
      omega
    | succ i =>
      have hrec := ih (i := i) (by simpa using h)
      simp only [List.set_cons_succ, List.map_cons, List.sum_cons]
      omega

theorem any_getElem?_set {l : List α} {i : Nat} {a : α} (h : l[i]? = some a) (b : α)
    (p : α → Bool) (j : Nat) :
    ((l.set i b)[j]?).any p = if j = i then p b else (l[j]?).any p := by
  have hi : i < l.length := (List.getElem?_eq_some_iff.mp h).1
  by_cases hj : j = i
  · subst hj
    simp [hi]
  · simp [List.getElem?_set_ne (Ne.symm hj), hj]

/-- An entry after a replacement is the new one, or an old one elsewhere. -/
theorem getElem?_set_eq_some {l : List α} {i j : Nat} {b x : α} (h : (l.set i b)[j]? = some x) :
    (j = i ∧ x = b) ∨ (j ≠ i ∧ l[j]? = some x) := by
  rw [List.getElem?_set] at h
  by_cases hj : i = j
  · rw [if_pos hj] at h
    split at h
    · exact .inl ⟨hj.symm, (Option.some.inj h).symm⟩
    · simp at h
  · exact .inr ⟨Ne.symm hj, by rwa [if_neg hj] at h⟩

/-- An entry stays where it is when another is added at the end. -/
theorem getElem?_snoc_of_some {l : List α} {i : Nat} {a b : α} (h : l[i]? = some a) :
    (l ++ [b])[i]? = some a := by
  rw [List.getElem?_append_left (List.getElem?_eq_some_iff.mp h).1, h]

/-- An entry after an addition is an old one, or the new one at the end. -/
theorem getElem?_snoc_eq_some {l : List α} {i : Nat} {a b : α} (h : (l ++ [b])[i]? = some a) :
    l[i]? = some a ∨ (i = l.length ∧ a = b) := by
  rw [List.getElem?_append] at h
  split at h
  · exact .inl h
  · rw [List.getElem?_singleton] at h
    split at h
    · exact .inr ⟨by omega, (Option.some.inj h).symm⟩
    · simp at h

theorem getElem?_snoc_iff {l : List α} {i : Nat} {a b : α} :
    (l ++ [b])[i]? = some a ↔ l[i]? = some a ∨ (i = l.length ∧ a = b) := by
  refine ⟨getElem?_snoc_eq_some, ?_⟩
  rintro (h | ⟨rfl, rfl⟩)
  · exact getElem?_snoc_of_some h
  · exact List.getElem?_concat_length

/-- Replacing an entry by itself. -/
theorem set_getElem?_self {l : List α} {i : Nat} {a : α} (h : l[i]? = some a) : l.set i a = l := by
  apply List.ext_getElem?
  intro j
  by_cases hj : i = j
  · subst hj
    rw [List.getElem?_set_self (List.getElem?_eq_some_iff.mp h).1, h]
  · rw [List.getElem?_set_ne hj]

theorem count_singleton_eq [DecidableEq α] (a b : α) :
    [a].count b = if b = a then 1 else 0 := by
  rw [List.count_singleton]
  by_cases h : b = a
  · simp [h]
  · simp [h, Ne.symm h]

theorem count_erase_add [DecidableEq α] {l : List α} {a : α} (h : a ∈ l) (b : α) :
    (l.erase a).count b + (if b = a then 1 else 0) = l.count b := by
  rw [List.count_erase]
  by_cases hb : b = a
  · subst hb
    have hpos := List.count_pos_iff.mpr h
    simp only [beq_self_eq_true, if_true]
    omega
  · simp [hb, Ne.symm hb]

/-- A property of the entries survives a replacement that has it. -/
theorem forall_mem_set {P : α → Prop} {l : List α} {i : Nat} {b : α}
    (h : ∀ x ∈ l, P x) (hb : P b) : ∀ x ∈ l.set i b, P x := by
  intro x hx
  rcases List.mem_or_eq_of_mem_set hx with hx | rfl
  · exact h x hx
  · exact hb

/-- A property of the entries survives an entry more that has it. -/
theorem forall_mem_snoc {P : α → Prop} {l : List α} {a : α} (h : ∀ x ∈ l, P x) (ha : P a) :
    ∀ x ∈ l ++ [a], P x :=
  List.forall_mem_append.mpr ⟨h, List.forall_mem_singleton.mpr ha⟩

/-- One entry starts to be counted. -/
theorem filter_set_perm {p : α → Bool} {l : List α} {i : Nat} {a b : α} (h : l[i]? = some a)
    (ha : p a = false) (hb : p b = true) : ((l.set i b).filter p).Perm (b :: l.filter p) := by
  induction l generalizing i with
  | nil => simp at h
  | cons x l ih =>
    cases i with
    | zero =>
      obtain rfl : x = a := by simpa using h
      rw [List.set_cons_zero, List.filter_cons_of_pos hb,
        List.filter_cons_of_neg (by simp [ha])]
    | succ i =>
      have ih := ih (i := i) (by simpa using h)
      rw [List.set_cons_succ, List.filter_cons, List.filter_cons]
      split
      · exact (ih.cons x).trans (.swap b x _)
      · exact ih

/-- An entry that is not counted is replaced by another such one. -/
theorem filter_set_eq {p : α → Bool} {l : List α} {i : Nat} {a b : α} (h : l[i]? = some a)
    (ha : p a = false) (hb : p b = false) : (l.set i b).filter p = l.filter p := by
  induction l generalizing i with
  | nil => simp at h
  | cons x l ih =>
    cases i with
    | zero =>
      obtain rfl : x = a := by simpa using h
      rw [List.set_cons_zero, List.filter_cons_of_neg (by simp [hb]),
        List.filter_cons_of_neg (by simp [ha])]
    | succ i => rw [List.set_cons_succ, List.filter_cons, List.filter_cons, ih (by simpa using h)]

/-- A counter selects an entry of a list, round and round. -/
theorem isSome_getElem?_mod {l : List α} (h : l ≠ []) (i : Nat) :
    (l[i % l.length]?).isSome = true := by
  rw [List.getElem?_eq_getElem (Nat.mod_lt _ (List.length_pos_iff.mpr h))]
  rfl

/-- Within one round the counter selects different entries. -/
theorem getElem?_mod_inj {l : List α} (hl : l.Nodup) {i j : Nat} (hij : i ≤ j)
    (hj : j < i + l.length) (h : l[i % l.length]? = l[j % l.length]?) : i = j := by
  have hpos : 0 < l.length := by omega
  have hmod : i % l.length = j % l.length := (List.getElem?_inj (Nat.mod_lt _ hpos) hl).mp h
  have hzero : (j - i) % l.length = 0 := Nat.sub_mod_eq_zero_of_mod_eq hmod.symm
  rw [Nat.mod_eq_of_lt (by omega)] at hzero
  omega

/-- A list found at a position has its head there. -/
theorem getElem?_of_prefix_drop {a : α} {w l : List α} {i : Nat} (h : a :: w <+: l.drop i) :
    l[i]? = some a := by
  obtain ⟨t, ht⟩ := h
  rw [← List.head?_drop, ← ht]
  rfl

theorem take_ne_nil {l : List α} {n : Nat} (hn : 0 < n) (hlen : n ≤ l.length) : l.take n ≠ [] := by
  rw [ne_eq, List.take_eq_nil_iff]
  rintro (rfl | rfl)
  · exact Nat.lt_irrefl 0 hn
  · exact Nat.not_le_of_lt hn hlen

/-- A beginning of two parts ends in the first part, or takes all of it and a beginning
    of the second. -/
theorem prefix_append_split {w xs ys : List α} (h : w <+: xs ++ ys) :
    w <+: xs ∨ ∃ v, w = xs ++ v ∧ v <+: ys := by
  induction xs generalizing w with
  | nil => exact .inr ⟨w, rfl, h⟩
  | cons x xs ih =>
    rcases List.prefix_cons_iff.mp h with rfl | ⟨u, rfl, hu⟩
    · exact .inl List.nil_prefix
    · rcases ih hu with hu | ⟨v, rfl, hv⟩
      · exact .inl (List.cons_prefix_cons.mpr ⟨rfl, hu⟩)
      · exact .inr ⟨v, rfl, hv⟩

/-! ## Up to the first that meets a condition -/

/-- The elements up to the first that meets `p`, which is included. -/
def upTo (p : α → Bool) : List α → List α
  | [] => []
  | a :: l => if p a then [a] else a :: upTo p l

@[simp] theorem upTo_nil (p : α → Bool) : upTo p [] = [] := rfl

theorem forall_mem_upTo_cons {p : α → Bool} {P : α → Prop} {a : α} {l : List α} :
    (∀ x ∈ upTo p (a :: l), P x) ↔ P a ∧ (p a = false → ∀ x ∈ upTo p l, P x) := by
  cases hp : p a <;> simp [upTo, hp]

/-! ## Folds that can fail -/

/-- If it does not depend on the accumulator where a fold fails, it is an element that
    makes it fail. -/
theorem isSome_foldlM {β : Type*} {f : β → α → Option β} {P : α → Prop}
    (hf : ∀ b a, (f b a).isSome ↔ P a) {b : β} {l : List α} :
    (l.foldlM f b).isSome ↔ ∀ a ∈ l, P a := by
  induction l generalizing b with
  | nil => simp
  | cons a l ih =>
    rw [List.foldlM_cons, List.forall_mem_cons, ← hf b a]
    cases f b a with
    | none => simp
    | some b' => simpa using ih

/-- A fold that succeeds keeps what each of its steps keeps. -/
theorem foldlM_inv {β : Type*} {f : β → α → Option β} {I : β → Prop}
    (hf : ∀ b a b', I b → f b a = some b' → I b') {b c : β} {l : List α} (hb : I b)
    (h : l.foldlM f b = some c) : I c := by
  induction l generalizing b with
  | nil =>
    obtain rfl : b = c := by simpa using h
    exact hb
  | cons a l ih =>
    rw [List.foldlM_cons] at h
    obtain ⟨b', hb', hl⟩ := Option.bind_eq_some_iff.mp h
    exact ih (hf b a b' hb hb') hl

/-! ## The beginning of a list under two tests -/

theorem takeWhile_congr {p q : α → Bool} {l : List α} (h : ∀ x ∈ l, p x = q x) :
    l.takeWhile p = l.takeWhile q := by
  induction l with
  | nil => rfl
  | cons x xs ih =>
    have hx := h x List.mem_cons_self
    have hrec := ih fun y hy => h y (List.mem_cons_of_mem x hy)
    simp only [List.takeWhile_cons, hx, hrec]

theorem dropWhile_congr {p q : α → Bool} {l : List α} (h : ∀ x ∈ l, p x = q x) :
    l.dropWhile p = l.dropWhile q := by
  induction l with
  | nil => rfl
  | cons x xs ih =>
    have hx := h x List.mem_cons_self
    have hrec := ih fun y hy => h y (List.mem_cons_of_mem x hy)
    simp only [List.dropWhile_cons, hx, hrec]

/-! ## Entries that carry the turn they were made in -/

end FiberProxy.Lib
