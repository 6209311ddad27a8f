/-
  FiberProxy.Client.RawReader

  The reader of the raw client: the loop of `FibpRawClient::handle_read`
  (`forward-manager/FibpClient.cpp`) over the bytes of a connection.  It reads a header
  of two numbers in network byte order, then as many bytes as the second says, and
  hands them to `set_response`; when a read fails it ends with `set_all_error`.

  The frames that the loop finds are those that were written, however the stream is cut
  into chunks, and the stream may end within a frame (`handleRead_frames`).
-/

import FiberProxy.Client.MuxClient
import FiberProxy.Lib.Reads

namespace FiberProxy.Client

open Lib

/-- `HEAD_SIZE`. -/
def headSize : Nat := 8

/-- One turn of the loop: `seq`, `rsp` and the chunks that are left, if both reads succeed. -/
def readFrame (chunks : List Bytes) : Option ((UInt32 × Bytes) × List Bytes) :=
  (readExact headSize chunks).bind fun (header, chunks') =>
    let seq := readBe32 (header.take 4)
    let len := readBe32 (header.drop 4)
    (readExact len.toNat chunks').map fun (rsp, chunks'') => ((seq, rsp), chunks'')

theorem length_of_readFrame {chunks chunks' : List Bytes} {frame : UInt32 × Bytes}
    (h : readFrame chunks = some (frame, chunks')) :
    chunks'.flatten.length < chunks.flatten.length := by
  simp only [readFrame, Option.bind_eq_some_iff, Option.map_eq_some_iff, Prod.exists,
    Prod.mk.injEq] at h
  obtain ⟨header, cs, hheader, rsp, cs', hbody, -, rfl⟩ := h
  obtain ⟨hlen, hflat⟩ := readExact_spec hheader
  obtain ⟨-, hflat'⟩ := readExact_spec hbody
  rw [hflat, hflat', List.length_append, List.length_append, hlen, headSize]
  omega

/-- `handle_read` on a connection that gives these chunks and then the error `ec`: what it
    does to the client, `set_response` (`frame`) for each response and `set_all_error`
    (`readerFail`) at the end. -/
def handleRead (ec : Bytes) (chunks : List Bytes) : List Event :=
  match _hread : readFrame chunks with
  | none => [.readerFail ec]
  | some ((seq, rsp), chunks') => .frame seq rsp true :: handleRead ec chunks'
termination_by chunks.flatten.length
decreasing_by exact length_of_readFrame _hread

theorem handleRead_of_none {ec : Bytes} {chunks : List Bytes} (h : readFrame chunks = none) :
    handleRead ec chunks = [.readerFail ec] := by
  rw [handleRead]
  split
  · rfl
  · rename_i hsome
    rw [h] at hsome
    cases hsome

theorem handleRead_of_some {ec : Bytes} {chunks chunks' : List Bytes} {seq : UInt32} {rsp : Bytes}
    (h : readFrame chunks = some ((seq, rsp), chunks')) :
    handleRead ec chunks = .frame seq rsp true :: handleRead ec chunks' := by
  rw [handleRead]
  split
  · rename_i hnone
    rw [h] at hnone
    cases hnone
  · rename_i hsome
    rw [h] at hsome
    cases hsome
    rfl

/-! ## Frames -/

theorem frame_eq (seq : UInt32) (path body : Bytes) :
    Kind.raw.frame seq path body =
      (be32 seq ++ be32 (UInt32.ofNat body.length)) ++ body := rfl

/-- The header that `send_request` writes. -/
theorem readHeader_frame (seq : UInt32) {n : Nat} (hn : n < 2 ^ 32) :
    readBe32 ((be32 seq ++ be32 (UInt32.ofNat n)).take 4) = seq ∧
      (readBe32 ((be32 seq ++ be32 (UInt32.ofNat n)).drop 4)).toNat = n := by
  rw [List.take_left' (length_be32 seq), List.drop_left' (length_be32 seq), readBe32_be32,
    readBe32_be32, UInt32.toNat_ofNat', Nat.mod_eq_of_lt hn]
  exact ⟨rfl, rfl⟩

/-- A whole frame is read, and the stream behind it is left. -/
theorem readFrame_frame {chunks : List Bytes} {seq : UInt32} {path body rest : Bytes}
    (hbody : body.length < 2 ^ 32)
    (h : chunks.flatten = Kind.raw.frame seq path body ++ rest) :
    ∃ chunks', readFrame chunks = some ((seq, body), chunks') ∧ chunks'.flatten = rest := by
  obtain ⟨hseq, hlen⟩ := readHeader_frame seq hbody
  rw [frame_eq, List.append_assoc] at h
  obtain ⟨cs, hheader, hcs⟩ := readExact_of_append h
  obtain ⟨cs', hread, hcs'⟩ := readExact_of_append hcs
  refine ⟨cs', ?_, hcs'⟩
  have hsize : headSize = (be32 seq ++ be32 (UInt32.ofNat body.length)).length := rfl
  simp only [readFrame, hsize, hheader, Option.bind_some, hseq, hlen, hread, Option.map_some]

/-- Of a frame that is cut there is no response. -/
theorem readFrame_cut {chunks : List Bytes} {seq : UInt32} {path body cut : Bytes}
    (hbody : body.length < 2 ^ 32) (hcut : cut <+: Kind.raw.frame seq path body)
    (hne : cut ≠ Kind.raw.frame seq path body) (h : chunks.flatten = cut) :
    readFrame chunks = none := by
  obtain ⟨-, hlen⟩ := readHeader_frame seq hbody
  have hlt : cut.length < headSize + body.length := by
    have hlt := Nat.lt_of_le_of_ne hcut.length_le fun heq => hne (hcut.eq_of_length heq)
    rw [frame_eq, List.length_append] at hlt
    exact hlt
  subst h
  by_cases hhead : chunks.flatten.length < headSize
  · rw [readFrame, readExact_eq_none.mpr hhead, Option.bind_none]
  · -- the header is whole, so a part of the body is missing
    obtain ⟨part, hpart⟩ : be32 seq ++ be32 (UInt32.ofNat body.length) <+: chunks.flatten :=
      List.prefix_of_prefix_length_le (List.prefix_append _ body) hcut (Nat.le_of_not_lt hhead)
    obtain ⟨cs, hheader, hcs⟩ := readExact_of_append hpart.symm
    have hsize : headSize = (be32 seq ++ be32 (UInt32.ofNat body.length)).length := rfl
    have hmissing : cs.flatten.length < body.length := by
      rw [hcs]
      rw [← hpart, List.length_append, ← hsize] at hlt
      omega
    simp only [readFrame, hsize, hheader, Option.bind_some, hlen,
      readExact_eq_none.mpr hmissing, Option.map_none]

/-- **The frames come through.** The loop hands to `set_response` the sequence numbers and
    bodies of the frames on the stream, in their order, and then takes the error exit,
    whatever the chunks; of a last frame that is cut, or missing altogether, it hands on
    nothing. -/
theorem handleRead_frames {frames : List (UInt32 × Bytes)} {last : UInt32 × Bytes}
    {path ec cut : Bytes} {chunks : List Bytes}
    (hframes : ∀ f ∈ frames, f.2.length < 2 ^ 32) (hlast : last.2.length < 2 ^ 32)
    (hcut : cut <+: Kind.raw.frame last.1 path last.2)
    (hne : cut ≠ Kind.raw.frame last.1 path last.2)
    (hchunks : chunks.flatten = frames.flatMap (fun f => Kind.raw.frame f.1 path f.2) ++ cut) :
    handleRead ec chunks =
      frames.map (fun f => Event.frame f.1 f.2 true) ++ [Event.readerFail ec] := by
  induction frames generalizing chunks with
  | nil => exact handleRead_of_none (readFrame_cut hlast hcut hne hchunks)
  | cons f frames ih =>
    obtain ⟨hf, hframes⟩ := List.forall_mem_cons.mp hframes
    rw [List.flatMap_cons, List.append_assoc] at hchunks
    obtain ⟨chunks', hread, hrest⟩ := readFrame_frame hf hchunks
    rw [handleRead_of_some hread, ih hframes hrest, List.map_cons, List.cons_append]

/-- Three frames, one of them empty, in chunks that end within a header and within a body;
    the stream ends after a part of the third. -/
theorem handleRead_threeFrames :
    handleRead (ascii "End of file") [[0, 0, 0], [7, 0, 0, 0, 2, 65],
        [66, 0, 0, 0, 8, 0, 0, 0, 0, 0, 0], [0, 9, 0, 0, 0, 2, 67]] =
      [.frame 7 (ascii "AB") true, .frame 8 [] true, .readerFail (ascii "End of file")] :=
  @handleRead_frames [(7, ascii "AB"), (8, [])] (9, ascii "CD") [] (ascii "End of file")
    [0, 0, 0, 9, 0, 0, 0, 2, 67] _ (by decide) (by decide) (by decide) (by decide) (by decide)

end FiberProxy.Client
