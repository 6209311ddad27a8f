/-
  FiberProxy.Lib.Http1

  A reference reader for HTTP/1.1 responses: status line, header lines up to
  the empty line, and a body whose length the headers give.  It is the
  receiving side against which a response writer is judged: `readResponse bs`
  is the first response of the byte stream `bs` together with what is left of
  the stream.

  The reader is strict where leniency lets one message be read in two ways:
  a header line holds no control octets, and a message with a transfer coding
  or with two lengths is refused.
-/

import FiberProxy.Lib.Bytes

namespace FiberProxy.Lib.Http1

/-- A header field: name and value. -/
abbrev Header := Bytes × Bytes

/-- Octets of a token, such as a field name. -/
def isTokenByte (b : UInt8) : Bool :=
  (48 ≤ b && b ≤ 57) || (65 ≤ b && b ≤ 90) || (97 ≤ b && b ≤ 122) ||
    [33, 35, 36, 37, 38, 39, 42, 43, 45, 46, 94, 95, 96, 124, 126].contains b

/-- Octets of a field value: no controls but the tab. -/
def isFieldByte (b : UInt8) : Bool := b == 9 || (32 ≤ b && b != 127)

/-- Strip blanks and tabs at both ends. -/
def trimBlanks (v : Bytes) : Bytes :=
  ((v.dropWhile fun b => b == 32 || b == 9).reverse.dropWhile fun b => b == 32 || b == 9).reverse

/-- One header line. -/
def readHeader (line : Bytes) : Option Header :=
  match cut 58 line with
  | none => none
  | some (n, v) =>
    if (n ≠ [] ∧ n.all isTokenByte) ∧ v.all isFieldByte then some (n, trimBlanks v) else none

/-- The header lines up to the empty one, and what follows it. -/
def readHeaders : Nat → Bytes → Option (List Header × Bytes)
  | 0, _ => none
  | fuel + 1, bs =>
    match splitCrlf bs with
    | none => none
    | some (line, rest) =>
      if line = [] then some ([], rest)
      else
        (readHeader line).bind fun h =>
          (readHeaders fuel rest).map fun p => (h :: p.1, p.2)

/-- Field names are compared without regard to case. -/
def isNamed (name : String) (h : Header) : Bool := toLower h.1 == ascii name

/-- The body length the headers give. -/
def bodyLength (hs : List Header) : Option Nat :=
  if hs.any (isNamed "transfer-encoding") then none
  else
    match hs.filter (isNamed "content-length") with
    | [] => some 0
    | [h] => readDecimal h.2
    -- two lengths, even equal ones
    | _ => none

/-! ## The header block -/

theorem notMem_of_all {p : UInt8 → Bool} {c : UInt8} {bs : Bytes} (h : bs.all p)
    (hc : p c = false) : c ∉ bs := by
  intro hmem
  have hp := List.all_eq_true.mp h c hmem
  rw [hc] at hp
  exact absurd hp (by decide)

/-- Octets that trimming leaves alone wherever they stand. -/
def isValueByte (b : UInt8) : Bool := isFieldByte b && b != 32 && b != 9

theorem dropWhile_blanks_eq_self {v : Bytes} (hv : v.all isValueByte) :
    (v.dropWhile fun b => b == 32 || b == 9) = v := by
  cases v with
  | nil => rfl
  | cons b bs =>
    simp only [List.all_cons, isValueByte, Bool.and_eq_true, bne_iff_ne] at hv
    simp [hv.1.1.2, hv.1.2]

/-- A header that a line carries as it is. -/
def FieldOk (h : Header) : Prop :=
  (h.1 ≠ [] ∧ h.1.all isTokenByte) ∧ h.2.all isFieldByte ∧ trimBlanks h.2 = h.2

instance (h : Header) : Decidable (FieldOk h) := inferInstanceAs (Decidable (_ ∧ _))

theorem readHeader_eq_self_iff {h : Header} :
    readHeader (h.1 ++ 58 :: 32 :: h.2) = some h ↔ FieldOk h := by
  obtain ⟨n, v⟩ := h
  have htrim : trimBlanks (32 :: v) = trimBlanks v := by simp [trimBlanks]
  have hfield : (32 :: v).all isFieldByte = v.all isFieldByte := by
    simp [show isFieldByte 32 = true by decide]
  have hread (hcolon : (58 : UInt8) ∉ n) : readHeader (n ++ 58 :: 32 :: v) =
      if (n ≠ [] ∧ n.all isTokenByte) ∧ v.all isFieldByte then some (n, trimBlanks v)
      else none := by
    simp only [readHeader, cut_append hcolon, htrim, hfield]
  constructor
  · intro h
    have hcolon : (58 : UInt8) ∉ n := by
      -- the name that is read is a token
      unfold readHeader at h
      split at h
      · cases h
      · obtain ⟨hok, h⟩ := Option.ite_none_right_eq_some.mp h
        obtain ⟨rfl, -⟩ := Prod.mk.inj (Option.some.inj h)
        exact notMem_of_all hok.1.2 (by decide)
    rw [hread hcolon] at h
    obtain ⟨hok, h⟩ := Option.ite_none_right_eq_some.mp h
    exact ⟨hok.1, hok.2, (Prod.mk.inj (Option.some.inj h)).2⟩
  · rintro ⟨hn, hv, ht⟩
    rw [hread (notMem_of_all hn.2 (by decide)), if_pos ⟨hn, hv⟩, ht]

theorem readHeader_field {n v : Bytes} (hn : n ≠ [] ∧ n.all isTokenByte)
    (hv : v.all isValueByte) : readHeader (n ++ 58 :: 32 :: v) = some (n, v) := by
  have hfield : v.all isFieldByte := by
    rw [List.all_eq_true] at hv ⊢
    intro b hb
    have hbv := hv b hb
    simp only [isValueByte, Bool.and_eq_true] at hbv
    exact hbv.1.1
  have hrev : v.reverse.all isValueByte := by rwa [List.all_reverse]
  have htrim : trimBlanks v = v := by
    rw [trimBlanks, dropWhile_blanks_eq_self hv, dropWhile_blanks_eq_self hrev,
      List.reverse_reverse]
  exact readHeader_eq_self_iff (h := (n, v)).mpr ⟨hn, hfield, htrim⟩

/-- A block of header lines, each terminated, then the empty line. -/
def headerBlock (ls : List Bytes) (rest : Bytes) : Bytes :=
  ls.flatMap (· ++ crlf) ++ (crlf ++ rest)

theorem headerBlock_cons (l : Bytes) (ls : List Bytes) (rest : Bytes) :
    headerBlock (l :: ls) rest = l ++ (crlf ++ headerBlock ls rest) := by
  simp [headerBlock]

theorem length_le_headerBlock (ls : List Bytes) (rest : Bytes) :
    ls.length + rest.length + 2 ≤ (headerBlock ls rest).length := by
  induction ls with
  | nil => simp [headerBlock, crlf]
  | cons l ls ih =>
    rw [headerBlock_cons]
    simp only [List.length_append, List.length_cons, crlf, List.length_nil] at ih ⊢
    omega

/-- Each header is read back from its line, or not all of them are. -/
theorem mapM_readHeader_eq_self_iff {line : Header → Bytes} {hs : List Header} :
    (hs.map line).mapM readHeader = some hs ↔ ∀ h ∈ hs, readHeader (line h) = some h := by
  induction hs with
  | nil => simp
  | cons h hs ih =>
    rw [List.forall_mem_cons, ← ih, List.map_cons, List.mapM_cons]
    simp only [Option.bind_eq_bind, Option.bind_eq_some_iff, Option.pure_def, Option.some.injEq,
      List.cons.injEq]
    constructor
    · rintro ⟨_, hh, _, hhs, rfl, rfl⟩
      exact ⟨hh, hhs⟩
    · rintro ⟨hh, hhs⟩
      exact ⟨h, hh, hs, hhs, rfl, rfl⟩

theorem length_of_mapM_readHeader {ls : List Bytes} {hs : List Header}
    (h : ls.mapM readHeader = some hs) : hs.length = ls.length := by
  induction ls generalizing hs with
  | nil =>
    obtain rfl : hs = [] := by simpa [eq_comm] using h
    rfl
  | cons l ls ih =>
    simp only [List.mapM_cons, Option.bind_eq_bind, Option.bind_eq_some_iff, Option.pure_def,
      Option.some.injEq] at h
    obtain ⟨_, -, hs', hhs', rfl⟩ := h
    rw [List.length_cons, List.length_cons, ih hhs']

/-- Where every line is a header, the whole block is read and `rest` is left. -/
theorem readHeaders_headerBlock {ls : List Bytes} {hs : List Header} (rest : Bytes)
    (hls : ∀ l ∈ ls, splitCrlf l = none) (hhs : ls.mapM readHeader = some hs)
    {fuel : Nat} (hfuel : ls.length < fuel) :
    readHeaders fuel (headerBlock ls rest) = some (hs, rest) := by
  induction ls generalizing hs fuel with
  | nil =>
    obtain rfl : hs = [] := by simpa [eq_comm] using hhs
    obtain ⟨fuel, rfl⟩ : ∃ k, fuel = k + 1 := ⟨fuel - 1, by simp at hfuel; omega⟩
    have h := splitCrlf_append (l := []) rfl rest
    simp only [List.nil_append] at h
    simp [readHeaders, headerBlock, h]
  | cons l ls ih =>
    obtain ⟨fuel, rfl⟩ : ∃ k, fuel = k + 1 := ⟨fuel - 1, by simp at hfuel; omega⟩
    simp only [List.mapM_cons, Option.bind_eq_bind, Option.bind_eq_some_iff, Option.pure_def,
      Option.some.injEq] at hhs
    obtain ⟨h, hh, hs', hhs', rfl⟩ := hhs
    have hne : l ≠ [] := by
      rintro rfl
      simp [readHeader, cut] at hh
    have hsplit := splitCrlf_append (hls l (List.mem_cons_self ..)) (headerBlock ls rest)
    have hlt : ls.length < fuel := by simpa using hfuel
    have hrec := ih (fun x hx => hls x (List.mem_cons_of_mem _ hx)) hhs' hlt
    rw [headerBlock_cons, readHeaders, hsplit]
    simp [hne, hh, hrec]

/-- What a successful reading of a block says about its lines: either all of
    them are headers and `rest` is left, or an empty line ended the block early
    and more than `rest` is left. -/
theorem readHeaders_headerBlock_inv {ls : List Bytes} {hs : List Header} {rest out : Bytes}
    {fuel : Nat} (hls : ∀ l ∈ ls, splitCrlf l = none)
    (h : readHeaders fuel (headerBlock ls rest) = some (hs, out)) :
    (ls.mapM readHeader = some hs ∧ out = rest) ∨ rest.length < out.length := by
  induction ls generalizing hs fuel with
  | nil =>
    cases fuel with
    | zero => simp [readHeaders] at h
    | succ fuel =>
      have hsplit := splitCrlf_append (l := []) rfl rest
      simp only [List.nil_append] at hsplit
      simp only [readHeaders, headerBlock, List.flatMap_nil, List.nil_append, hsplit,
        if_true, Option.some.injEq, Prod.mk.injEq] at h
      exact Or.inl ⟨by simp [← h.1], h.2.symm⟩
  | cons l ls ih =>
    cases fuel with
    | zero => simp [readHeaders] at h
    | succ fuel =>
      have hsplit := splitCrlf_append (hls l (List.mem_cons_self ..)) (headerBlock ls rest)
      rw [headerBlock_cons, readHeaders, hsplit] at h
      by_cases hne : l = []
      · simp only [hne, if_true, Option.some.injEq, Prod.mk.injEq] at h
        have hlen := length_le_headerBlock ls rest
        exact Or.inr (by rw [← h.2]; omega)
      · simp only [if_neg hne, Option.bind_eq_some_iff, Option.map_eq_some_iff,
          Prod.mk.injEq] at h
        obtain ⟨hd, hhd, ⟨hs', out'⟩, hrec, rfl, rfl⟩ := h
        rcases ih (fun x hx => hls x (List.mem_cons_of_mem _ hx)) hrec with ⟨hm, hout⟩ | hlt
        · exact Or.inl ⟨by simp [hhd, hm], hout⟩
        · exact Or.inr hlt

/-! ## Responses -/

/-- A response as its receiver sees it; the reason phrase is not looked at. -/
structure Response where
  code : Nat
  headers : List Header
  body : Bytes
deriving DecidableEq, Repr

/-- The status line: version, code and reason phrase. -/
def readStatusLine (line : Bytes) : Option Nat :=
  match cut 32 line with
  | none => none
  | some (v, r) =>
    if v = ascii "HTTP/1.1" then
      match cut 32 r with
      | none => none
      | some (code, _) => readDecimal code
    else none

/-- The codes of the responses that have no body, whatever their headers say. -/
def isBodiless (code : Nat) : Bool := code / 100 == 1 || code == 204 || code == 304

def responseLength (code : Nat) (hs : List Header) : Option Nat :=
  (bodyLength hs).map fun n => if isBodiless code then 0 else n

/-- The first response of a stream and the rest of the stream. -/
def readResponse (bs : Bytes) : Option (Response × Bytes) :=
  (splitCrlf bs).bind fun (line, rest) =>
    (readStatusLine line).bind fun code =>
      -- every line takes two octets at least, so the fuel does not run out
      (readHeaders (rest.length + 1) rest).bind fun (hs, rest') =>
        (responseLength code hs).bind fun n =>
          if n ≤ rest'.length then some (⟨code, hs, rest'.take n⟩, rest'.drop n) else none

/-- A status line, a block of header lines and a body of the stated length are read as one
    response. -/
theorem readResponse_of_lines {line rest : Bytes} {ls : List Bytes} {hs : List Header}
    {code n : Nat} (hline : splitCrlf line = none) (hstatus : readStatusLine line = some code)
    (hls : ∀ l ∈ ls, splitCrlf l = none) (hhs : ls.mapM readHeader = some hs)
    (hlen : responseLength code hs = some n) (hn : n ≤ rest.length) :
    readResponse (line ++ (crlf ++ headerBlock ls rest)) =
      some (⟨code, hs, rest.take n⟩, rest.drop n) := by
  have hblock : readHeaders ((headerBlock ls rest).length + 1) (headerBlock ls rest) =
      some (hs, rest) :=
    readHeaders_headerBlock rest hls hhs (by have := length_le_headerBlock ls rest; omega)
  simp [readResponse, splitCrlf_append hline, hstatus, hblock, hlen, hn]

/-- A text in lines is read as one response with `rest` for its body exactly when its lines
    are these headers and give that length. -/
theorem readResponse_lines_iff {line rest : Bytes} {ls : List Bytes} {hs : List Header}
    {code : Nat} (hline : splitCrlf line = none) (hstatus : readStatusLine line = some code)
    (hls : ∀ l ∈ ls, splitCrlf l = none) :
    readResponse (line ++ (crlf ++ headerBlock ls rest)) = some (⟨code, hs, rest⟩, []) ↔
      ls.mapM readHeader = some hs ∧ responseLength code hs = some rest.length := by
  constructor
  · intro h
    simp only [readResponse, splitCrlf_append hline, hstatus, Option.bind_some,
      Option.bind_eq_some_iff, Prod.exists] at h
    obtain ⟨hs', out, hblock, n, hlen, hif⟩ := h
    obtain ⟨hn, hif⟩ := Option.ite_none_right_eq_some.mp hif
    simp only [Option.some.injEq, Prod.mk.injEq, Response.mk.injEq, true_and] at hif
    obtain ⟨⟨rfl, hbody⟩, hrest⟩ := hif
    -- nothing is left, so the header part has left the body and no more
    obtain rfl : rest = out := by
      have hsplit := List.take_append_drop n out
      rwa [hbody, hrest, List.append_nil] at hsplit
    have hnlen : rest.length ≤ n := List.drop_eq_nil_iff.mp hrest
    rcases readHeaders_headerBlock_inv hls hblock with ⟨hmap, -⟩ | hlt
    · exact ⟨hmap, by rw [hlen, Nat.le_antisymm hn hnlen]⟩
    · omega
  · rintro ⟨hmap, hlen⟩
    rw [readResponse_of_lines hline hstatus hls hmap hlen (Nat.le_refl _), List.take_length,
      List.drop_length]

theorem readStatusLine_line (code : Nat) (reason : Bytes) :
    readStatusLine (ascii "HTTP/1.1 " ++ decimal code ++ ascii " " ++ reason) = some code := by
  have htext : ascii "HTTP/1.1 " ++ decimal code ++ ascii " " ++ reason =
      ascii "HTTP/1.1" ++ 32 :: (decimal code ++ 32 :: reason) := by simp [ascii]
  have hversion : (32 : UInt8) ∉ ascii "HTTP/1.1" := by decide
  have hcode : (32 : UInt8) ∉ decimal code := notMem_decimal rfl code
  rw [htext, readStatusLine, cut_append hversion]
  simp only [if_true, cut_append hcode, readDecimal_decimal]

end FiberProxy.Lib.Http1
