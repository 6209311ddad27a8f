/-
  FiberProxy.Lib.Bytes

  Byte strings as lists of octets: literals, splitting at a byte or at a CRLF
  pair, ASCII case folding, and decimal numbers with the round trip
  `readDecimal (decimal n) = some n`.
-/

import Mathlib.Data.List.Basic
import Mathlib.Tactic.Common
import Mathlib.Tactic.IntervalCases

namespace FiberProxy.Lib

/-- A byte string. -/
abbrev Bytes := List UInt8

/-- The bytes of an ASCII literal. -/
def ascii (s : String) : Bytes := s.toList.map fun c => UInt8.ofNat c.toNat

/-- ASCII lower case; other octets are left alone. -/
def lowerByte (b : UInt8) : UInt8 := if 65 ≤ b ∧ b ≤ 90 then b + 32 else b

def toLower (bs : Bytes) : Bytes := bs.map lowerByte

theorem lowerByte_idem (b : UInt8) : lowerByte (lowerByte b) = lowerByte b := by
  unfold lowerByte
  by_cases h : 65 ≤ b ∧ b ≤ 90
  · -- a capital becomes an octet from 97 on, and that is no capital
    rw [if_pos h, if_neg]
    rintro ⟨-, h2⟩
    rw [UInt8.le_iff_toNat_le] at h2
    simp only [UInt8.le_iff_toNat_le, UInt8.toNat_add] at h h2
    simp at h h2
    omega
  · rw [if_neg h, if_neg h]

theorem toLower_idem (bs : Bytes) : toLower (toLower bs) = toLower bs := by
  simp [toLower, lowerByte_idem]

@[simp] theorem toLower_append (xs ys : Bytes) :
    toLower (xs ++ ys) = toLower xs ++ toLower ys := by
  simp [toLower]

/-- A 32-bit number in network byte order. -/
def be32 (n : UInt32) : Bytes :=
  [(n >>> 24).toUInt8, (n >>> 16).toUInt8, (n >>> 8).toUInt8, n.toUInt8]

@[simp] theorem length_be32 (n : UInt32) : (be32 n).length = 4 := rfl

/-- The number that bytes in network byte order stand for. -/
def readBe32 (bs : Bytes) : UInt32 := UInt32.ofNat (bs.foldl (fun n b => n * 256 + b.toNat) 0)

@[simp] theorem readBe32_be32 (n : UInt32) : readBe32 (be32 n) = n := by
  have hlt := n.toNat_lt
  apply UInt32.toNat_inj.mp
  simp only [readBe32, be32, List.foldl_cons, List.foldl_nil, UInt32.toNat_ofNat',
    UInt32.toNat_toUInt8, UInt32.toNat_shiftRight, Nat.shiftRight_eq_div_pow,
    UInt32.reduceToNat, Nat.reduceMod, Nat.reducePow]
  omega

/-! ## Splitting at a byte -/

/-- What stands before and after the first `c`. -/
def cut (c : UInt8) : Bytes → Option (Bytes × Bytes)
  | [] => none
  | b :: bs => if b = c then some ([], bs) else (cut c bs).map fun p => (b :: p.1, p.2)

theorem cut_append {c : UInt8} {xs : Bytes} (h : c ∉ xs) (ys : Bytes) :
    cut c (xs ++ c :: ys) = some (xs, ys) := by
  induction xs with
  | nil => simp [cut]
  | cons x xs ih =>
    simp only [List.mem_cons, not_or] at h
    simp [cut, Ne.symm h.1, ih h.2]

theorem cut_eq_none {c : UInt8} {xs : Bytes} : cut c xs = none ↔ c ∉ xs := by
  induction xs with
  | nil => simp [cut]
  | cons x xs ih =>
    by_cases hx : x = c
    · simp [cut, hx]
    · simp [cut, hx, ih, Ne.symm hx]

theorem cut_eq_some {c : UInt8} {xs ys zs : Bytes} (h : cut c xs = some (ys, zs)) :
    xs = ys ++ c :: zs ∧ c ∉ ys := by
  induction xs generalizing ys with
  | nil => simp [cut] at h
  | cons x xs ih =>
    simp only [cut] at h
    by_cases hx : x = c
    · simp only [hx, if_true, Option.some.injEq, Prod.mk.injEq] at h
      obtain ⟨rfl, rfl⟩ := h
      simp [hx]
    · simp only [hx, if_false, Option.map_eq_some_iff, Prod.mk.injEq] at h
      obtain ⟨⟨y, z⟩, hyz, rfl, rfl⟩ := h
      obtain ⟨hxs, hc⟩ := ih hyz
      exact ⟨by simp [hxs], by simp [hc, Ne.symm hx]⟩

/-! ## Substrings -/

/-- Where a needle first occurs. -/
def findSub (needle : Bytes) : Bytes → Option Nat
  | [] => if needle = [] then some 0 else none
  | b :: bs =>
    if needle.isPrefixOf (b :: bs) then some 0 else (findSub needle bs).map (· + 1)

/-- Where a needle first occurs at or after a position. -/
def findFrom (needle hay : Bytes) (pos : Nat) : Option Nat :=
  (findSub needle (hay.drop pos)).map (· + pos)

theorem findSub_eq_some {needle hay : Bytes} {i : Nat} :
    findSub needle hay = some i ↔ needle <+: hay.drop i ∧ ∀ j < i, ¬ needle <+: hay.drop j := by
  induction hay generalizing i with
  | nil =>
    by_cases hn : needle = []
    · subst hn
      cases i with
      | zero => simp [findSub]
      | succ i =>
        simp only [findSub, if_true, Option.some.injEq, List.nil_prefix, true_and]
        exact ⟨fun h => absurd h (by simp), fun h => absurd trivial (h 0 (by simp))⟩
    · simp [findSub, hn, List.prefix_nil]
  | cons b bs ih =>
    by_cases hhere : needle <+: b :: bs
    · rw [findSub, if_pos (List.isPrefixOf_iff_prefix.mpr hhere)]
      cases i with
      | zero => simpa using hhere
      | succ i =>
        simp only [Option.some.injEq, Nat.right_eq_add, Nat.add_eq_zero_iff, reduceCtorEq,
          and_false, false_iff, not_and]
        exact fun _ hmin => hmin 0 (by simp) (by simpa using hhere)
    · rw [findSub, if_neg (by simpa using hhere)]
      cases i with
      | zero => simp [hhere]
      | succ i =>
        simp only [Option.map_eq_some_iff, Nat.add_right_cancel_iff, exists_eq_right, ih,
          List.drop_succ_cons]
        refine and_congr_right fun _ => ⟨fun h j hj => ?_, fun h j hj => ?_⟩
        · cases j with
          | zero => simpa using hhere
          | succ j => simpa using h j (by omega)
        · simpa using h (j + 1) (by omega)

theorem findSub_eq_none {needle hay : Bytes} :
    findSub needle hay = none ↔ ∀ j, ¬ needle <+: hay.drop j := by
  induction hay with
  | nil => simp [findSub, List.prefix_nil]
  | cons b bs ih =>
    by_cases hhere : needle <+: b :: bs
    · rw [findSub, if_pos (List.isPrefixOf_iff_prefix.mpr hhere)]
      simp only [reduceCtorEq, false_iff]
      exact fun h => h 0 (by simpa using hhere)
    · rw [findSub, if_neg (by simpa using hhere), Option.map_eq_none_iff, ih]
      refine ⟨fun h j => ?_, fun h j => by simpa using h (j + 1)⟩
      cases j with
      | zero => simpa using hhere
      | succ j => simpa using h j

/-! ## Lines -/

/-- The line ending of HTTP. -/
def crlf : Bytes := [13, 10]

/-- What stands before and after the first CR LF pair. -/
def splitCrlf : Bytes → Option (Bytes × Bytes)
  | [] => none
  | b :: bs =>
    if b = 13 ∧ bs.head? = some 10 then some ([], bs.tail)
    else (splitCrlf bs).map fun p => (b :: p.1, p.2)

theorem splitCrlf_append {l : Bytes} (h : splitCrlf l = none) (rest : Bytes) :
    splitCrlf (l ++ (crlf ++ rest)) = some (l, rest) := by
  induction l with
  | nil => simp [splitCrlf, crlf]
  | cons b bs ih =>
    simp only [splitCrlf] at h
    by_cases hb : b = 13 ∧ bs.head? = some 10
    · simp [hb] at h
    · rw [if_neg hb, Option.map_eq_none_iff] at h
      -- the line is followed by a CR, so no pair begins at its last octet
      have hb' : ¬ (b = 13 ∧ (bs ++ (crlf ++ rest)).head? = some 10) := by
        rintro ⟨h13, h10⟩
        cases bs with
        | nil => simp [crlf] at h10
        | cons x xs => exact hb ⟨h13, by simpa using h10⟩
      simp only [List.cons_append, splitCrlf, if_neg hb', ih h, Option.map_some]

/-- A CR on its own keeps a line together: only the pair ends it. -/
theorem splitCrlf_eq_none_of_notMem {l : Bytes} (h : (13 : UInt8) ∉ l) : splitCrlf l = none := by
  induction l with
  | nil => rfl
  | cons b bs ih =>
    simp only [List.mem_cons, not_or] at h
    simp [splitCrlf, Ne.symm h.1, ih h.2]

/-- The lines of a text, split at every CR LF pair. -/
def crlfLines : Bytes → List Bytes
  | [] => [[]]
  | [b] => [[b]]
  | b :: c :: bs =>
    if b = 13 ∧ c = 10 then [] :: crlfLines bs
    else match crlfLines (c :: bs) with
      | [] => [[b]]
      | l :: ls => (b :: l) :: ls

theorem crlfLines_ne_nil (bs : Bytes) : crlfLines bs ≠ [] := by
  unfold crlfLines
  split
  · simp
  · simp
  · split
    · simp
    · split <;> simp

/-- Terminating every line gives back the text, terminated. -/
theorem flatMap_crlfLines (bs : Bytes) :
    (crlfLines bs).flatMap (· ++ crlf) = bs ++ crlf := by
  fun_induction crlfLines bs with
  | case1 => rfl
  | case2 b => rfl
  | case3 b c bs h ih =>
    obtain ⟨rfl, rfl⟩ := h
    rw [List.flatMap_cons, ih]
    rfl
  -- a text has a first line, so this branch of the definition is never taken
  | case4 b c bs h heq ih => exact absurd heq (crlfLines_ne_nil _)
  | case5 b c bs h l ls heq ih =>
    rw [heq] at ih
    simpa using ih

/-! ## Decimal numbers -/

/-- The decimal text of a number. -/
def decimal (n : Nat) : Bytes := (Nat.toDigits 10 n).map fun c => UInt8.ofNat c.toNat

/-- The value of a digit. -/
def digitVal (b : UInt8) : Option Nat := if 48 ≤ b ∧ b ≤ 57 then some (b.toNat - 48) else none

def readDigits (acc : Nat) : Bytes → Option Nat
  | [] => some acc
  | b :: bs => (digitVal b).bind fun d => readDigits (acc * 10 + d) bs

/-- Read a decimal number: one digit at least, and nothing but digits. -/
def readDecimal (bs : Bytes) : Option Nat := if bs = [] then none else readDigits 0 bs

theorem readDigits_append (acc : Nat) (xs ys : Bytes) :
    readDigits acc (xs ++ ys) = (readDigits acc xs).bind fun n => readDigits n ys := by
  induction xs generalizing acc with
  | nil => rfl
  | cons x xs ih =>
    simp only [List.cons_append, readDigits]
    cases digitVal x with
    | none => rfl
    | some d => simpa using ih (acc * 10 + d)

theorem digitVal_digitChar {d : Nat} (h : d < 10) :
    digitVal (UInt8.ofNat (Nat.digitChar d).toNat) = some d := by
  interval_cases d <;> rfl

theorem decimal_ne_nil (n : Nat) : decimal n ≠ [] := by
  simp [decimal, Nat.toDigits_ne_nil]

/-- Every byte of a decimal text is a digit. -/
theorem digit_of_mem_decimal {n : Nat} {b : UInt8} (h : b ∈ decimal n) :
    ∃ d, d < 10 ∧ b = UInt8.ofNat (Nat.digitChar d).toNat := by
  induction n using Nat.strongRecOn with
  | _ n ih =>
    rw [decimal, Nat.toDigits_eq_if (by decide)] at h
    -- the digits of a longer number are those of `n / 10` and then `n % 10`
    by_cases hn : n < 10
    · rw [if_pos hn] at h
      exact ⟨n, hn, by simpa using h⟩
    · rw [if_neg hn, List.map_append, List.mem_append] at h
      rcases h with h | h
      · exact ih (n / 10) (by omega) h
      · exact ⟨n % 10, Nat.mod_lt _ (by decide), by simpa using h⟩

theorem all_decimal {p : UInt8 → Bool}
    (hp : ∀ d < 10, p (UInt8.ofNat (Nat.digitChar d).toNat) = true) (n : Nat) :
    (decimal n).all p = true := by
  rw [List.all_eq_true]
  intro b hb
  obtain ⟨d, hd, rfl⟩ := digit_of_mem_decimal hb
  exact hp d hd

theorem notMem_decimal {b : UInt8} (hb : digitVal b = none) (n : Nat) : b ∉ decimal n := by
  intro h
  obtain ⟨d, hd, rfl⟩ := digit_of_mem_decimal h
  rw [digitVal_digitChar hd] at hb
  simp at hb

theorem readDigits_decimal (n : Nat) : readDigits 0 (decimal n) = some n := by
  induction n using Nat.strongRecOn with
  | _ n ih =>
    rw [decimal, Nat.toDigits_eq_if (by decide)]
    by_cases hn : n < 10
    · rw [if_pos hn]
      simp [readDigits, digitVal_digitChar hn]
    · rw [if_neg hn, List.map_append, readDigits_append]
      have hrec := ih (n / 10) (by omega)
      rw [decimal] at hrec
      rw [hrec]
      have hd : n % 10 < 10 := Nat.mod_lt _ (by decide)
      simp only [Option.bind_some, List.map_cons, List.map_nil, readDigits,
        digitVal_digitChar hd, Option.some.injEq]
      omega

/-- Printing and reading a number gives the number back. -/
theorem readDecimal_decimal (n : Nat) : readDecimal (decimal n) = some n := by
  rw [readDecimal, if_neg (decimal_ne_nil n), readDigits_decimal]

theorem length_decimal_le_iff {n k : Nat} (hk : 0 < k) : (decimal n).length ≤ k ↔ n < 10 ^ k := by
  rw [decimal, List.length_map]
  exact Nat.length_toDigits_le_iff (by decide) hk

end FiberProxy.Lib
