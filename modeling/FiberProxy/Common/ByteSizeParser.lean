/-
  FiberProxy.Common.ByteSizeParser

  `ByteSizeParser`: byte sizes with a unit, such as `16 KB` or `1.5g`, read into
  64-bit words (`common/ByteSizeParser.h`, `common/ByteSizeParser.cpp`).

  Every multiplication and addition is preceded by a check.  The functions below
  log their word operations (`Lib.Words`), and each checked operation, the loop
  over the digits included, is compared with the number it stands for: it gives
  that number when a word can hold it, and throws otherwise (`within`).
-/

import FiberProxy.Lib.Bytes
import FiberProxy.Lib.Words

namespace FiberProxy.ByteSizeParser

open Lib Lib.Words

/-! ## Characters, in the C locale -/

/-- `std::isspace`. -/
def isspace (c : UInt8) : Bool := c == 32 || (9 ≤ c && c ≤ 13)

/-- `std::isdigit`. -/
def isdigit (c : UInt8) : Bool := 48 ≤ c && c ≤ 57

/-- `std::toupper`. -/
def toupper (c : UInt8) : UInt8 := if 97 ≤ c && c ≤ 122 then c - 32 else c

/-- `str.c_str()`: what a walk over the characters sees ends at the first NUL. -/
def cStr (str : Bytes) : Bytes := str.takeWhile (· != 0)

/-! ## The parser -/

/-- What is thrown, with its `what()`. -/
inductive ParseError where
  | runtimeError (what : Bytes)
  | overflowError (what : Bytes)
deriving DecidableEq, Repr

/-- `kMaxByteSize`. -/
def kMaxByteSize : UInt64 := 0xFFFFFFFFFFFFFFFF

/-- What `overflow_` throws. -/
def overflowed (str : Bytes) : ParseError :=
  .overflowError (ascii "overflowed when converting " ++ str ++ ascii " to destination type")

/-- `overflow_`. -/
def overflow {α : Type} (str : Bytes) : Words ParseError α := throw (overflowed str)

/-- `checkAdd_`, the sum as its value. -/
def checkAdd (a b : UInt64) (str : Bytes) : Words ParseError UInt64 := do
  let room ← perform (.sub kMaxByteSize b)
  if a > room then overflow str else perform (.add a b)

/-- `checkMultiply_`, the product as its value. -/
def checkMultiply (a b : UInt64) (str : Bytes) : Words ParseError UInt64 :=
  if b > 0 then do
    let bound ← perform (.div kMaxByteSize b)
    if a > bound then overflow str else perform (.mul a b)
  else perform (.mul a b)

/-- `one` of the constructor. -/
def one : UInt64 := 1

/-- `unitSizeMap_`, as the constructor fills it. -/
def unitSizeMap : List (Bytes × UInt64) :=
  [(ascii "B", one),
    (ascii "K", one <<< 10), (ascii "KB", one <<< 10),
    (ascii "M", one <<< 20), (ascii "MB", one <<< 20),
    (ascii "G", one <<< 30), (ascii "GB", one <<< 30),
    (ascii "T", one <<< 40), (ascii "TB", one <<< 40),
    (ascii "P", one <<< 50), (ascii "PB", one <<< 50),
    (ascii "E", one <<< 60), (ascii "EB", one <<< 60)]

/-- The loop over the digits: the value and what is left at `p`. -/
def digitLoop (str : Bytes) : UInt64 → Bytes → Words ParseError (UInt64 × Bytes)
  | value, [] => return (value, [])
  | value, c :: p =>
    if isdigit c then do
      let value ← checkMultiply value 10 str
      let value ← checkAdd value (c - 48).toUInt64 str
      digitLoop str value p
    else return (value, c :: p)

/-- The unit as it is looked up: no blanks, capital letters. -/
def spelled (p : Bytes) : Bytes := (p.filter (! isspace ·)).map toupper

section Parser

-- `std::atof`; a double is a fraction
variable (atof : Bytes → ℚ)

/-- The fraction after a point, and what is left at `p`. -/
def readFraction : Bytes → ℚ × Bytes
  | [] => (0, [])
  | c :: p => if c = 46 then (atof (c :: p), p.dropWhile isdigit) else (0, c :: p)

/-- The value in units of what is spelled at `pUnit`. -/
def applyUnit (str : Bytes) (value : UInt64) (fraction : ℚ) (pUnit : Bytes) :
    Words ParseError UInt64 :=
  if (spelled pUnit).isEmpty then return value
  else match unitSizeMap.lookup (spelled pUnit) with
    | none => throw (.runtimeError (ascii "invalid byte unit " ++ pUnit))
    | some unitSize => do
        let value ← checkMultiply value unitSize str
        -- the product of the doubles is exact (a power of two); the cast truncates it
        if fraction = 0 then return value
        else checkAdd value (UInt64.ofNat (fraction * unitSize.toNat).floor.toNat) str

/-- `parseImpl_`. -/
def parseImpl (str : Bytes) : Words ParseError UInt64 :=
  let p := (cStr str).dropWhile isspace
  if p.head?.any isdigit then do
    let number ← digitLoop str 0 p
    let cut := readFraction atof number.2
    applyUnit str number.1 cut.1 cut.2
  else throw (.runtimeError (ascii "invalid format, digit required."))

/-- An integer type `IntT`: `std::numeric_limits<IntT>::digits` and `is_signed`. -/
structure IntT where
  digits : Nat
  signed : Bool
  fits : digits + signed.toNat ≤ 64

/-- `std::numeric_limits<IntT>::max()`. -/
def IntT.max (t : IntT) : UInt64 := UInt64.ofNat (2 ^ t.digits - 1)

/-- The conversion of a word to `IntT`. -/
def IntT.convert (t : IntT) (v : UInt64) : Int :=
  if t.signed then Int.bmod v.toNat (2 ^ (t.digits + 1)) else v.toNat % 2 ^ t.digits

/-- `parse<IntT>`. -/
def parse (t : IntT) (str : Bytes) : Words ParseError Int := do
  let result ← parseImpl atof str
  if result > t.max then overflow str else return t.convert result

end Parser

/-! ## The checked operations -/

/-- The number `n` as a word, where a word can hold it. -/
def within (str : Bytes) (n : Nat) : Except ParseError UInt64 :=
  if n < 2 ^ 64 then .ok (UInt64.ofNat n) else .error (overflowed str)

theorem within_of_lt {str : Bytes} {n : Nat} (h : n < 2 ^ 64) :
    within str n = .ok (UInt64.ofNat n) :=
  if_pos h

theorem within_of_le {str : Bytes} {n : Nat} (h : 2 ^ 64 ≤ n) :
    within str n = .error (overflowed str) :=
  if_neg (by omega)

theorem toNat_ofNat {n : Nat} (h : n < 2 ^ 64) : (UInt64.ofNat n).toNat = n :=
  UInt64.toNat_ofNat_of_lt h

/-- What `within` holds is the number itself. -/
theorem within_eq_ok {str : Bytes} {n : Nat} {v : UInt64} (h : within str n = .ok v) :
    v.toNat = n := by
  unfold within at h
  split at h
  · rename_i hn
    cases h
    exact toNat_ofNat hn
  · cases h

theorem within_eq_error {str : Bytes} {n : Nat} {e : ParseError} (h : within str n = .error e) :
    2 ^ 64 ≤ n ∧ e = overflowed str := by
  unfold within at h
  split at h
  · cases h
  · rename_i hn
    cases h
    exact ⟨by omega, rfl⟩

theorem yields_overflow {α : Type} (str : Bytes) :
    Yields (overflow str : Words ParseError α) (.error (overflowed str)) :=
  yields_throw _

theorem toNat_le_of_not_lt {a b : UInt64} (h : ¬ b < a) : a.toNat ≤ b.toNat :=
  UInt64.le_iff_toNat_le.mp (UInt64.not_lt.mp h)

theorem toNat_kMaxByteSize : kMaxByteSize.toNat = 2 ^ 64 - 1 := rfl

theorem yields_checkAdd (a b : UInt64) (str : Bytes) :
    Yields (checkAdd a b str) (within str (a.toNat + b.toNat)) := by
  have ha := a.toNat_lt
  have hb := b.toNat_lt
  have hroom : (kMaxByteSize - b).toNat = 2 ^ 64 - 1 - b.toNat := by
    rw [UInt64.toNat_sub_of_le _ _ (UInt64.le_iff_toNat_le.mpr (by rw [toNat_kMaxByteSize]; omega)),
      toNat_kMaxByteSize]
  refine (yields_perform (.sub kMaxByteSize b) ?_).bind (.ite (fun h => ?_) fun h => ?_)
  · show b.toNat ≤ kMaxByteSize.toNat
    rw [toNat_kMaxByteSize]
    omega
  · replace h : (kMaxByteSize - b).toNat < a.toNat := UInt64.lt_iff_toNat_lt.mp h
    rw [within_of_le (by omega)]
    exact yields_overflow str
  · replace h : a.toNat ≤ (kMaxByteSize - b).toNat := toNat_le_of_not_lt h
    have hsum : a.toNat + b.toNat < 2 ^ 64 := by omega
    rw [within_of_lt hsum, UInt64.ofNat_add, UInt64.ofNat_toNat, UInt64.ofNat_toNat]
    exact yields_perform (.add a b) hsum

theorem yields_checkMultiply (a b : UInt64) (str : Bytes) :
    Yields (checkMultiply a b str) (within str (a.toNat * b.toNat)) := by
  have ha := a.toNat_lt
  have hmul (h : a.toNat * b.toNat < 2 ^ 64) :
      Yields (perform (.mul a b)) (within str (a.toNat * b.toNat)) := by
    rw [within_of_lt h, UInt64.ofNat_mul, UInt64.ofNat_toNat, UInt64.ofNat_toNat]
    exact yields_perform (.mul a b) h
  refine .ite (fun hb => ?_) fun hb => ?_
  · replace hb : 0 < b.toNat := UInt64.lt_iff_toNat_lt.mp hb
    have hbound : (kMaxByteSize / b).toNat = (2 ^ 64 - 1) / b.toNat := by
      rw [UInt64.toNat_div, toNat_kMaxByteSize]
    refine (yields_perform (.div kMaxByteSize b) ?_).bind (.ite (fun h => ?_) fun h => ?_)
    · rintro rfl
      exact absurd hb (by decide)
    · replace h : (2 ^ 64 - 1) / b.toNat < a.toNat := hbound ▸ UInt64.lt_iff_toNat_lt.mp h
      have hover := (Nat.div_lt_iff_lt_mul hb).mp h
      rw [within_of_le (by omega)]
      exact yields_overflow str
    · replace h : a.toNat ≤ (2 ^ 64 - 1) / b.toNat := hbound ▸ toNat_le_of_not_lt h
      have hfits := (Nat.le_div_iff_mul_le hb).mp h
      exact hmul (by omega)
  · have hzero : b.toNat = 0 := Nat.le_zero.mp (toNat_le_of_not_lt hb)
    exact hmul (by rw [hzero]; omega)

/-! ## The digits -/

theorem digitVal_of_isdigit {c : UInt8} (h : isdigit c = true) :
    digitVal c = some (c - 48).toUInt64.toNat := by
  simp only [isdigit, Bool.and_eq_true, decide_eq_true_eq] at h
  rw [digitVal, if_pos h, UInt8.toNat_toUInt64, UInt8.toNat_sub_of_le _ _ h.1]
  rfl

theorem isdigit_iff {c : UInt8} : isdigit c = true ↔ (digitVal c).isSome := by
  constructor
  · intro h
    rw [digitVal_of_isdigit h]
    rfl
  · intro h
    unfold digitVal at h
    split at h
    · rename_i hc
      simp only [isdigit, Bool.and_eq_true, decide_eq_true_eq]
      exact hc
    · cases h

/-- More digits make no number smaller. -/
theorem le_of_readDigits {acc n : Nat} {ds : Bytes} (h : readDigits acc ds = some n) :
    acc ≤ n := by
  induction ds generalizing acc with
  | nil =>
    obtain rfl := Option.some.inj h
    exact le_rfl
  | cons c ds ih =>
    obtain ⟨d, -, hn⟩ := Option.bind_eq_some_iff.mp h
    have hle := ih hn
    omega

/-- The loop reads the whole number: the value so far is the accumulator of
    `readDigits`, and an overflow on the way is one of the number. -/
theorem yields_digitLoop {str ds rest : Bytes} {value : UInt64} {n : Nat}
    (hn : readDigits value.toNat ds = some n) (hrest : rest.head?.any isdigit = false) :
    Yields (digitLoop str value (ds ++ rest)) ((within str n).map (·, rest)) := by
  induction ds generalizing value with
  | nil =>
    obtain rfl := Option.some.inj hn
    rw [within_of_lt value.toNat_lt, UInt64.ofNat_toNat]
    cases rest with
    | nil => exact yields_pure _
    | cons c rest =>
      replace hrest : isdigit c = false := hrest
      show Yields (if isdigit c then _ else _) _
      rw [if_neg (by rw [hrest]; decide)]
      exact yields_pure _
  | cons c ds ih =>
    obtain ⟨d, hd, hn⟩ := Option.bind_eq_some_iff.mp hn
    have hc : isdigit c = true := isdigit_iff.mpr (by rw [hd]; rfl)
    rw [digitVal_of_isdigit hc] at hd
    obtain rfl := Option.some.inj hd
    have hle := le_of_readDigits hn
    have hover (h : 2 ^ 64 ≤ n) : (within str n).map (·, rest) = .error (overflowed str) := by
      rw [within_of_le h]
      rfl
    show Yields (if isdigit c then _ else _) _
    rw [if_pos hc]
    refine (yields_checkMultiply value 10 str).bind_of (fun v hv => ?_) fun e he => ?_
    · replace hv : v.toNat = value.toNat * 10 := within_eq_ok hv
      refine (yields_checkAdd v _ str).bind_of (fun w hw => ?_) fun e he => ?_
      · refine ih ?_
        rw [within_eq_ok hw, hv]
        exact hn
      · obtain ⟨hbig, rfl⟩ := within_eq_error he
        exact hover (by omega)
    · obtain ⟨hbig, rfl⟩ := within_eq_error he
      replace hbig : 2 ^ 64 ≤ value.toNat * 10 := hbig
      exact hover (by omega)

/-! ## The unit -/

/-- The units, and the power of 1024 that each of them stands for. -/
def units : List (String × Nat) :=
  [("B", 0), ("K", 1), ("KB", 1), ("M", 2), ("MB", 2), ("G", 3), ("GB", 3), ("T", 4), ("TB", 4),
    ("P", 5), ("PB", 5), ("E", 6), ("EB", 6)]

/-- The text after the number stands for a size: it is blank, or it spells a unit. -/
def Denotes (rest : Bytes) (size : Nat) : Prop :=
  (∀ c ∈ rest, isspace c = true) ∧ size = 1 ∨
    ∃ u ∈ units, spelled rest = ascii u.1 ∧ size = 1024 ^ u.2

theorem spelled_eq_nil_iff {p : Bytes} : spelled p = [] ↔ ∀ c ∈ p, isspace c = true := by
  simp [spelled]

/-- The table of the constructor has the size of every unit. -/
theorem lookup_unit : ∀ u ∈ units,
    (unitSizeMap.lookup (ascii u.1)).map UInt64.toNat = some (1024 ^ u.2) := by
  decide

theorem unit_of_mem : ∀ e ∈ unitSizeMap, ∃ u ∈ units, e.1 = ascii u.1 := by
  decide

theorem unit_ne_nil : ∀ u ∈ units, ascii u.1 ≠ [] := by
  decide

theorem lookup_eq_none {rest : Bytes} (h : ∀ size, ¬ Denotes rest size) :
    unitSizeMap.lookup (spelled rest) = none := by
  cases hl : unitSizeMap.lookup (spelled rest) with
  | none => rfl
  | some size =>
    obtain ⟨l, l', hmap, -⟩ := List.lookup_eq_some_iff.mp hl
    obtain ⟨u, hu, heq⟩ := unit_of_mem (spelled rest, size) (by rw [hmap]; simp)
    exact absurd (Or.inr ⟨u, hu, heq, rfl⟩) (h _)

theorem yields_applyUnit {str rest : Bytes} {value : UInt64} {size : Nat}
    (h : Denotes rest size) :
    Yields (applyUnit str value 0 rest) (within str (value.toNat * size)) := by
  unfold applyUnit
  rcases h with ⟨hblank, rfl⟩ | ⟨u, hu, hspell, rfl⟩
  · rw [spelled_eq_nil_iff.mpr hblank, Nat.mul_one, within_of_lt value.toNat_lt,
      UInt64.ofNat_toNat]
    exact yields_pure value
  · obtain ⟨unitSize, hlook, hsize⟩ := Option.map_eq_some_iff.mp (lookup_unit u hu)
    rw [hspell, if_neg (by rw [List.isEmpty_iff]; exact unit_ne_nil u hu), hlook, ← hsize]
    refine (yields_checkMultiply value unitSize str).bind_of (fun v hv => ?_) fun e he => he
    rw [if_pos rfl, hv]
    exact yields_pure v

/-- What spells no unit is thrown back, as it was written. -/
theorem yields_applyUnit_unknown {str rest : Bytes} {value : UInt64} {fraction : ℚ}
    (h : ∀ size, ¬ Denotes rest size) :
    Yields (applyUnit str value fraction rest)
      (.error (.runtimeError (ascii "invalid byte unit " ++ rest))) := by
  have hne : spelled rest ≠ [] := fun hnil => h 1 (.inl ⟨spelled_eq_nil_iff.mp hnil, rfl⟩)
  unfold applyUnit
  rw [if_neg (by rw [List.isEmpty_iff]; exact hne), lookup_eq_none h]
  exact yields_throw _

/-! ## The whole text -/

section Text

variable (atof : Bytes → ℚ) {str blanks digits rest : Bytes} {n size : Nat}

theorem isspace_of_isdigit {c : UInt8} (h : isdigit c = true) : isspace c = false := by
  simp only [isdigit, isspace, Bool.and_eq_true, decide_eq_true_eq, Bool.or_eq_false_iff,
    beq_eq_false_iff_ne, ne_eq, Bool.and_eq_false_iff, decide_eq_false_iff_not] at h ⊢
  simp only [UInt8.le_iff_toNat_le, ← UInt8.toNat_inj] at h ⊢
  simp only [UInt8.reduceToNat] at h ⊢
  omega

/-- The walk to the first character that is not blank. -/
theorem dropWhile_blanks {p : Bytes} (hblanks : ∀ c ∈ blanks, isspace c = true)
    (hp : p.head?.any isspace = false) : (blanks ++ p).dropWhile isspace = p := by
  rw [List.dropWhile_append_of_pos hblanks]
  cases p with
  | nil => rfl
  | cons c p =>
    replace hp : isspace c = false := hp
    rw [List.dropWhile_cons_of_neg (by rw [hp]; decide)]

/-- A number begins with a digit. -/
theorem head_of_readDecimal (hn : readDecimal digits = some n) :
    ∃ c ds, digits = c :: ds ∧ isdigit c = true := by
  cases digits with
  | nil => cases hn
  | cons c ds =>
    rw [readDecimal, if_neg (List.cons_ne_nil c ds)] at hn
    obtain ⟨d, hd, -⟩ := Option.bind_eq_some_iff.mp hn
    exact ⟨c, ds, rfl, isdigit_iff.mpr (by rw [hd]; rfl)⟩

theorem yields_digits (str : Bytes) (hn : readDecimal digits = some n)
    (hrest : rest.head?.any isdigit = false) :
    Yields (digitLoop str 0 (digits ++ rest)) ((within str n).map (·, rest)) := by
  obtain ⟨c, ds, rfl, -⟩ := head_of_readDecimal hn
  rw [readDecimal, if_neg (List.cons_ne_nil c ds)] at hn
  exact yields_digitLoop hn hrest

theorem readFraction_of_ne (hrest : rest.head? ≠ some 46) : readFraction atof rest = (0, rest) := by
  cases rest with
  | nil => rfl
  | cons c rest => exact if_neg fun hc => hrest (by rw [hc]; rfl)

/-- After the digits the parser is at what follows them, with the number or without
    a word for it. -/
theorem parseImpl_eq (htext : cStr str = blanks ++ (digits ++ rest))
    (hblanks : ∀ c ∈ blanks, isspace c = true) (hn : readDecimal digits = some n) :
    parseImpl atof str = (do
      let number ← digitLoop str 0 (digits ++ rest)
      let cut := readFraction atof number.2
      applyUnit str number.1 cut.1 cut.2) := by
  obtain ⟨c, ds, rfl, hc⟩ := head_of_readDecimal hn
  have hp : (cStr str).dropWhile isspace = c :: ds ++ rest := by
    rw [htext]
    exact dropWhile_blanks hblanks (isspace_of_isdigit hc)
  rw [parseImpl, hp]
  exact if_pos hc

theorem yields_parseImpl (htext : cStr str = blanks ++ (digits ++ rest))
    (hblanks : ∀ c ∈ blanks, isspace c = true) (hn : readDecimal digits = some n)
    (hrest : rest.head?.any isdigit = false) (hpoint : rest.head? ≠ some 46)
    (hsize : Denotes rest size) (hpos : 0 < size) :
    Yields (parseImpl atof str) (within str (n * size)) := by
  rw [parseImpl_eq atof htext hblanks hn]
  refine (yields_digits str hn hrest).bind_of (fun number hnumber => ?_) fun e he => ?_
  · cases hw : within str n with
    | error e => rw [hw] at hnumber; cases hnumber
    | ok value =>
      rw [hw] at hnumber
      obtain rfl := Except.ok.inj hnumber
      show Yields (applyUnit str value (readFraction atof rest).1 (readFraction atof rest).2) _
      rw [readFraction_of_ne atof hpoint, ← within_eq_ok hw]
      exact yields_applyUnit hsize
  · cases hw : within str n with
    | ok value => rw [hw] at he; cases he
    | error e' =>
      rw [hw] at he
      obtain rfl := Except.error.inj he
      obtain ⟨hbig, rfl⟩ := within_eq_error hw
      exact within_of_le (hbig.trans (Nat.le_mul_of_pos_right n hpos))

theorem yields_parseImpl_unknown (htext : cStr str = blanks ++ (digits ++ rest))
    (hblanks : ∀ c ∈ blanks, isspace c = true) (hn : readDecimal digits = some n)
    (hrest : rest.head?.any isdigit = false) (hpoint : rest.head? ≠ some 46)
    (hsize : ∀ size, ¬ Denotes rest size) :
    ∃ e, Yields (parseImpl atof str) (.error e) := by
  rw [parseImpl_eq atof htext hblanks hn]
  have hloop := yields_digits str hn hrest
  cases hw : within str n with
  | ok value =>
    rw [hw] at hloop
    refine ⟨.runtimeError (ascii "invalid byte unit " ++ rest), hloop.bind ?_⟩
    show Yields (applyUnit str value (readFraction atof rest).1 (readFraction atof rest).2) _
    rw [readFraction_of_ne atof hpoint]
    exact yields_applyUnit_unknown hsize
  | error e =>
    rw [hw] at hloop
    exact ⟨e, hloop.bind_error⟩

theorem yields_parseImpl_no_digit (htext : cStr str = blanks ++ rest)
    (hblanks : ∀ c ∈ blanks, isspace c = true) (hblank : rest.head?.any isspace = false)
    (hrest : rest.head?.any isdigit = false) :
    Yields (parseImpl atof str)
      (.error (.runtimeError (ascii "invalid format, digit required."))) := by
  rw [parseImpl, htext, dropWhile_blanks hblanks hblank, if_neg (by rw [hrest]; decide)]
  exact yields_throw _

theorem toNat_max (t : IntT) : t.max.toNat = 2 ^ t.digits - 1 := by
  have hle : 2 ^ t.digits ≤ 2 ^ 64 :=
    Nat.pow_le_pow_right (by decide) (Nat.le_of_add_right_le t.fits)
  exact toNat_ofNat (by omega)

/-- A word up to the maximum is not changed by the conversion. -/
theorem convert_of_le {t : IntT} {v : UInt64} (h : v.toNat ≤ t.max.toNat) :
    t.convert v = v.toNat := by
  rw [toNat_max] at h
  have hpos : 0 < 2 ^ t.digits := Nat.pow_pos (by decide)
  unfold IntT.convert
  rw [Nat.pow_succ]
  split
  · generalize 2 ^ t.digits = m at h hpos
    rw [Int.bmod_eq_of_le] <;> omega
  · exact_mod_cast Nat.mod_eq_of_lt (by omega)

theorem yields_parse (t : IntT) (himpl : Yields (parseImpl atof str) (within str n)) :
    Yields (parse atof t str)
      (if n ≤ t.max.toNat then .ok (n : Int) else .error (overflowed str)) := by
  refine himpl.bind_of (fun v hv => ?_) fun e he => ?_
  · have hn := within_eq_ok hv
    refine .ite (fun h => ?_) fun h => ?_
    · replace h : t.max.toNat < v.toNat := UInt64.lt_iff_toNat_lt.mp h
      rw [if_neg (by omega)]
      exact yields_overflow str
    · replace h : v.toNat ≤ t.max.toNat := toNat_le_of_not_lt h
      rw [if_pos (by omega), convert_of_le (by omega), hn]
      exact yields_pure _
  · obtain ⟨hbig, rfl⟩ := within_eq_error he
    have hmax := t.max.toNat_lt
    exact if_neg (by omega)

end Text

theorem pos_of_denotes {rest : Bytes} {size : Nat} (h : Denotes rest size) : 0 < size := by
  rcases h with ⟨-, rfl⟩ | ⟨u, -, -, rfl⟩
  · decide
  · exact Nat.pow_pos (by decide)

/-- A byte size without a fraction (no point, 46, after its digits) is read exactly or
    rejected, for every integer type and without a 64-bit operation that wraps around. -/
theorem parse_exact_or_rejected (atof : Bytes → ℚ) (t : IntT) (str blanks rest : Bytes)
    (hblanks : ∀ c ∈ blanks, isspace c = true) :
    (∀ digits n, cStr str = blanks ++ (digits ++ rest) → readDecimal digits = some n →
      rest.head?.any isdigit = false → rest.head? ≠ some 46 →
      (∀ size, Denotes rest size →
        (n * size ≤ 2 ^ t.digits - 1 →
          Yields (parse atof t str) (.ok ((n * size : Nat) : Int))) ∧
        (2 ^ t.digits - 1 < n * size →
          ∃ what, Yields (parse atof t str) (.error (.overflowError what)))) ∧
      ((∀ size, ¬ Denotes rest size) → ∃ e, Yields (parse atof t str) (.error e))) ∧
    (cStr str = blanks ++ rest → rest.head?.any isspace = false →
      rest.head?.any isdigit = false → ∃ e, Yields (parse atof t str) (.error e)) := by
  refine ⟨fun digits n htext hn hrest hpoint => ⟨fun size hsize => ?_, fun hsize => ?_⟩,
    fun htext hblank hrest => ?_⟩
  · have himpl :=
      yields_parseImpl atof htext hblanks hn hrest hpoint hsize (pos_of_denotes hsize)
    have hparse := yields_parse atof t himpl
    rw [toNat_max] at hparse
    refine ⟨fun hle => ?_, fun hlt => ?_⟩
    · rwa [if_pos hle] at hparse
    · rw [if_neg (Nat.not_le.mpr hlt)] at hparse
      exact ⟨_, hparse⟩
  · obtain ⟨e, himpl⟩ := yields_parseImpl_unknown atof htext hblanks hn hrest hpoint hsize
    exact ⟨e, himpl.bind_error⟩
  · exact ⟨_, (yields_parseImpl_no_digit atof htext hblanks hblank hrest).bind_error⟩

/-- `" 15 kb"` fits 14 bits; `"16KB"` does not. -/
theorem parse_kilobytes : Yields (parse (fun _ => 0) ⟨14, false, by decide⟩ (ascii " 15 kb"))
      (.ok 15360) ∧
    ∃ what, Yields (parse (fun _ => 0) ⟨14, false, by decide⟩ (ascii "16KB"))
      (.error (.overflowError what)) := by
  have hsize (unit : Bytes) (h : spelled unit = ascii "KB") : Denotes unit 1024 :=
    .inr ⟨("KB", 1), by decide, h, by decide⟩
  refine ⟨?_, ?_⟩
  · have h := parse_exact_or_rejected (fun _ => 0) ⟨14, false, by decide⟩ (ascii " 15 kb")
      [32] (ascii " kb") (fun c hc => List.mem_singleton.mp hc ▸ rfl)
    have h15 := h.1 [49, 53] 15 (by decide +kernel) rfl (by decide) (by decide)
    exact (h15.1 1024 (hsize _ (by decide +kernel))).1 (by decide)
  · have h := parse_exact_or_rejected (fun _ => 0) ⟨14, false, by decide⟩ (ascii "16KB")
      [] (ascii "KB") (fun c hc => absurd hc List.not_mem_nil)
    have h16 := h.1 [49, 54] 16 (by decide +kernel) rfl (by decide) (by decide)
    exact (h16.1 1024 (hsize _ (by decide +kernel))).2 (by decide)

end FiberProxy.ByteSizeParser
