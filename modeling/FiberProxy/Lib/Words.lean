/-
  FiberProxy.Lib.Words

  Arithmetic on 64-bit words that leaves a record: a computation that may fail
  and that logs each operation it makes, with its operands.

  `Yields m r` says that `m` ends with `r` and that no operation on the way
  wraps around or divides by zero.  Its rules follow the composition of
  computations, so that a proof about a program never looks at the log.
-/

import Mathlib.Algebra.GroupWithZero.Nat

namespace FiberProxy.Lib

/-- An operation on 64-bit words. -/
inductive WordOp where
  | add (a b : UInt64)
  | sub (a b : UInt64)
  | mul (a b : UInt64)
  | div (a b : UInt64)
deriving DecidableEq, Repr

namespace WordOp

/-- What the machine computes: modulo `2 ^ 64`. -/
def value : WordOp → UInt64
  | add a b => a + b
  | sub a b => a - b
  | mul a b => a * b
  | div a b => a / b

/-- The operation has its mathematical result: it does not wrap around. -/
def Exact : WordOp → Prop
  | add a b => a.toNat + b.toNat < 2 ^ 64
  | sub a b => b.toNat ≤ a.toNat
  | mul a b => a.toNat * b.toNat < 2 ^ 64
  | div _ b => b ≠ 0

instance : DecidablePred Exact := fun op => by
  cases op <;> unfold Exact <;> infer_instance

end WordOp

/-- A computation on 64-bit words that may throw an `ε`, with its log. -/
abbrev Words (ε : Type) := ExceptT ε (StateM (List WordOp))

namespace Words

variable {ε α β : Type} {m : Words ε α} {f : α → Words ε β}

/-- Makes one operation. -/
def perform (op : WordOp) : Words ε UInt64 := do
  modify (· ++ [op])
  return op.value

/-- `m` ends with `r`, and every operation it makes is exact. -/
def Yields (m : Words ε α) (r : Except ε α) : Prop :=
  ∃ ops : List WordOp, (∀ op ∈ ops, op.Exact) ∧ ∀ log, m log = (r, log ++ ops)

theorem yields_pure (a : α) : Yields (pure a : Words ε α) (.ok a) :=
  ⟨[], by simp, fun log => by rw [List.append_nil]; rfl⟩

theorem yields_throw (e : ε) : Yields (throw e : Words ε α) (.error e) :=
  ⟨[], by simp, fun log => by rw [List.append_nil]; rfl⟩

theorem yields_perform (op : WordOp) (h : op.Exact) :
    Yields (perform op : Words ε UInt64) (.ok op.value) :=
  ⟨[op], by simpa using h, fun _ => rfl⟩

theorem bind_run (m : Words ε α) (f : α → Words ε β) (log : List WordOp) :
    (m >>= f) log = ExceptT.bindCont f (m log).1 (m log).2 := rfl

theorem Yields.bind {a : α} {r : Except ε β} (hm : Yields m (.ok a)) (hf : Yields (f a) r) :
    Yields (m >>= f) r := by
  obtain ⟨ops, hops, hm⟩ := hm
  obtain ⟨ops', hops', hf⟩ := hf
  refine ⟨ops ++ ops', fun op hop => ?_, fun log => ?_⟩
  · rcases List.mem_append.mp hop with hop | hop
    · exact hops op hop
    · exact hops' op hop
  · -- the log of `f a` begins with that of `m`
    rw [bind_run, hm log]
    show f a (log ++ ops) = _
    rw [hf, List.append_assoc]

/-- What is thrown ends the computation. -/
theorem Yields.bind_error {e : ε} (hm : Yields m (.error e)) : Yields (m >>= f) (.error e) := by
  obtain ⟨ops, hops, hm⟩ := hm
  refine ⟨ops, hops, fun log => ?_⟩
  rw [bind_run, hm log]
  rfl

/-- The same for both ends of `m`. -/
theorem Yields.bind_of {r : Except ε α} {r' : Except ε β} (hm : Yields m r)
    (hok : ∀ a, r = .ok a → Yields (f a) r') (herr : ∀ e, r = .error e → r' = .error e) :
    Yields (m >>= f) r' := by
  cases r with
  | ok a => exact hm.bind (hok a rfl)
  | error e =>
    rw [herr e rfl]
    exact hm.bind_error

theorem Yields.ite {c : Prop} [Decidable c] {m m' : Words ε α} {r : Except ε α}
    (hpos : c → Yields m r) (hneg : ¬c → Yields m' r) : Yields (if c then m else m') r := by
  split
  · rename_i h
    exact hpos h
  · rename_i h
    exact hneg h

end Words

end FiberProxy.Lib
