/-
  FiberProxy.Lib.Decoder

  Decoders that are fed one byte at a time.  After a byte a decoder needs more,
  has an object, or has found the bytes malformed; after an object it starts
  again.  `decode` feeds a stretch of bytes and gives the objects that were
  completed in it, and where the decoder stands at its end.

  `decode_append` says that the cut between two stretches does not matter.
-/

import FiberProxy.Lib.Bytes

namespace FiberProxy.Lib

variable {ω : Type}

/-- What a decoder makes of a byte. -/
inductive Fed (σ ω : Type) where
  | more (s : σ)
  | object (o : ω)
  | malformed

/-- A decoder for objects of type `ω`. -/
structure Decoder (ω : Type) where
  σ : Type
  init : σ
  feed : σ → UInt8 → Fed σ ω

/-- Where a decoder stands: in an object, `parsed` bytes of it seen, or at malformed
    bytes. -/
inductive Tail (σ : Type) where
  | more (s : σ) (parsed : Nat)
  | malformed

instance {σ : Type} : DecidablePred fun t : Tail σ => t = .malformed
  | .more .. => .isFalse (by simp)
  | .malformed => .isTrue rfl

namespace Decoder

/-- Feed bytes to a decoder that has seen `parsed` bytes of an object. -/
def decode (d : Decoder ω) : d.σ → Nat → Bytes → List ω × Tail d.σ
  | s, parsed, [] => ([], .more s parsed)
  | s, parsed, b :: bs =>
    match d.feed s b with
    | .more s' => d.decode s' (parsed + 1) bs
    | .object o => (o :: (d.decode d.init 0 bs).1, (d.decode d.init 0 bs).2)
    | .malformed => ([], .malformed)

variable (d : Decoder ω)

/-- Decoding goes on where it stopped. -/
theorem decode_append (s : d.σ) (parsed : Nat) (xs ys : Bytes) :
    d.decode s parsed (xs ++ ys) =
      match d.decode s parsed xs with
      | (os, .more s' parsed') =>
        (os ++ (d.decode s' parsed' ys).1, (d.decode s' parsed' ys).2)
      | (os, .malformed) => (os, .malformed) := by
  -- on the first stretch; the decoder's state varies
  induction xs generalizing s parsed with
  | nil => simp [decode]
  | cons b xs ih =>
    simp only [List.cons_append, decode]
    cases hf : d.feed s b with
    | more s' => exact ih s' (parsed + 1)
    | malformed => rfl
    | object o =>
      simp only [ih]
      cases h : d.decode d.init 0 xs with
      | mk os t => cases t <;> rfl

end Decoder

end FiberProxy.Lib
