/-
  FiberProxy.Lib.Reads

  Reads of a given length from a stream that arrives in chunks of any size, as
  `async_read` makes them: a read takes what it needs, across chunks or from a part
  of one, and fails when the stream ends first.

  What a read gives depends on the stream only, not on its chunks
  (`readExact_of_append`, `readExact_eq_none`).
-/

import Mathlib.Data.List.Basic

namespace FiberProxy.Lib

variable {α : Type*}

/-- The next `n` entries and the chunks that are left. -/
def readExact : Nat → List (List α) → Option (List α × List (List α))
  | 0, cs => some ([], cs)
  | _ + 1, [] => none
  | n + 1, c :: cs =>
    if c.length ≤ n + 1 then (readExact (n + 1 - c.length) cs).map fun p => (c ++ p.1, p.2)
    else some (c.take (n + 1), c.drop (n + 1) :: cs)

variable {n : Nat} {cs cs' : List (List α)} {xs ys : List α}

theorem readExact_spec (h : readExact n cs = some (xs, cs')) :
    xs.length = n ∧ cs.flatten = xs ++ cs'.flatten := by
  induction cs generalizing n xs with
  | nil =>
    cases n with
    | zero =>
      obtain ⟨rfl, rfl⟩ := Prod.mk.inj (Option.some.inj h)
      exact ⟨rfl, rfl⟩
    | succ n => cases h
  | cons c cs ih =>
    cases n with
    | zero =>
      obtain ⟨rfl, rfl⟩ := Prod.mk.inj (Option.some.inj h)
      exact ⟨rfl, rfl⟩
    | succ n =>
      rw [readExact] at h
      split at h
      · rename_i hc
        obtain ⟨⟨ys, cs''⟩, hrest, heq⟩ := Option.map_eq_some_iff.mp h
        obtain ⟨rfl, rfl⟩ := Prod.mk.inj heq
        obtain ⟨hlen, hflat⟩ := ih hrest
        rw [List.length_append, List.flatten_cons, hflat, List.append_assoc, hlen]
        exact ⟨by omega, rfl⟩
      · rename_i hc
        obtain ⟨rfl, rfl⟩ := Prod.mk.inj (Option.some.inj h)
        refine ⟨?_, ?_⟩
        · rw [List.length_take]
          omega
        · rw [List.flatten_cons, List.flatten_cons, ← List.append_assoc,
            List.take_append_drop]

theorem readExact_eq_none : readExact n cs = none ↔ cs.flatten.length < n := by
  induction cs generalizing n with
  | nil => cases n <;> simp [readExact]
  | cons c cs ih =>
    cases n with
    | zero => simp [readExact]
    | succ n =>
      rw [readExact, List.flatten_cons, List.length_append]
      split
      · rw [Option.map_eq_none_iff, ih]
        omega
      · simp only [reduceCtorEq, false_iff]
        omega

/-- A read of the length of what comes next reads that. -/
theorem readExact_of_append (h : cs.flatten = xs ++ ys) :
    ∃ cs', readExact xs.length cs = some (xs, cs') ∧ cs'.flatten = ys := by
  cases hread : readExact xs.length cs with
  | none =>
    have hlen := readExact_eq_none.mp hread
    rw [h, List.length_append] at hlen
    omega
  | some p =>
    obtain ⟨hlen, hflat⟩ := readExact_spec hread
    obtain ⟨hxs, hys⟩ := List.append_inj (h.symm.trans hflat) hlen.symm
    exact ⟨p.2, by rw [hxs], hys.symm⟩

end FiberProxy.Lib
