/-
  FiberProxy.Http.ParserReads

  What `http_parser` makes of a stream does not depend on how the reads cut it.

  `byteRun` takes one byte at a time and hands every byte of a part over on its own.
  `http_parser_execute` on any read does the same up to the cutting of the parts
  (`executeLoop_spec`), and no `assert` of it fails.  `Same` is the equality of callbacks
  for every user that joins the pieces of a part, as the two `parser_impl` do.
-/

import FiberProxy.Http.ParserStates

namespace FiberProxy.Http.ByteParser

open Lib
open HttpParser (takesBody Marked)

/-! ## Users that join the pieces -/

/-- A user for whom two pieces of a part are one. -/
def Joins {σ : Type} (user : σ → Event → σ) : Prop :=
  ∀ s part x y, user (user s (.data part x)) (.data part y) = user s (.data part (x ++ y))

/-- The same callbacks, but for the cutting of the parts. -/
def Same (a b : List Event) : Prop :=
  ∀ (σ : Type) (user : σ → Event → σ), Joins user → ∀ s, a.foldl user s = b.foldl user s

namespace Same

variable {a a' b b' c : List Event}

theorem refl (a : List Event) : Same a a := fun _ _ _ _ => rfl

theorem trans (h : Same a b) (h' : Same b c) : Same a c := fun σ user hu s =>
  (h σ user hu s).trans (h' σ user hu s)

theorem symm (h : Same a b) : Same b a := fun σ user hu s => (h σ user hu s).symm

theorem append (h : Same a a') (h' : Same b b') : Same (a ++ b) (a' ++ b') := by
  intro σ user hu s
  rw [List.foldl_append, List.foldl_append, h σ user hu s, h' σ user hu]

theorem join (part : Part) (x y : Bytes) :
    Same [.data part x, .data part y] [.data part (x ++ y)] :=
  fun _ _ hu s => hu s part x y

end Same

/-! ## One byte at a time -/

/-- The callbacks of some acts, where every byte is handed over at once. -/
def actEvents (p : HttpParser) : List Act → List Event
  | [] => []
  | .mark part :: acts => .data part [] :: actEvents p acts
  | .data _ :: acts => actEvents p acts
  | .messageBegin :: acts => .messageBegin :: actEvents p acts
  | .headersComplete :: acts => .headersComplete :: actEvents p acts
  | .messageComplete :: acts => .messageComplete p :: actEvents p acts

theorem actEvents_append (q : HttpParser) (xs ys : List Act) :
    actEvents q (xs ++ ys) = actEvents q xs ++ actEvents q ys := by
  induction xs with
  | nil => rfl
  | cons x xs ih => cases x <;> simp [actEvents, ih]

/-- The part that some bytes belong to. -/
def markedPart (s : HttpState) (fed : Fed) : Option Part :=
  if takesBody s then some .body else fed.parser.state.part?

def passEvents (part : Option Part) (bs : Bytes) : List Event :=
  part.toList.map fun part => .data part bs

/-- The callbacks of some bytes. -/
def Fed.events (fed : Fed) (s : HttpState) (bs : Bytes) : List Event :=
  actEvents fed.parser fed.acts ++ passEvents (markedPart s fed) bs ++
    actEvents fed.parser fed.late

inductive Ending where
  | running
  /-- `goto error`. -/
  | failed
  /-- Another protocol follows. -/
  | exited
  /-- `on_message_complete` said no. -/
  | refused
deriving DecidableEq, Repr

structure Ran where
  parser : HttpParser
  events : List Event
  parsed : Nat
  completed : Nat
  ending : Ending
deriving DecidableEq, Repr

def Ran.after (r : Ran) (es : List Event) (n : Nat) : Ran :=
  { r with events := es ++ r.events, parsed := n + r.parsed }

/-- How `n` bytes with the callbacks `es` end: `rest` is what follows if the parser goes
    on. -/
def conclude (answer : Nat → Bool) (k : Nat) (fed : Fed) (es : List Event) (n : Nat)
    (rest : HttpParser → Nat → Ran) : Ran :=
  if fed.verdict = .error then ⟨fed.parser, actEvents fed.parser fed.acts, 0, k, .failed⟩
  else
    let k' := if fed.completes then k + 1 else k
    if fed.completes && !answer k then
      ⟨{ fed.parser with errno := .cbMessageComplete }, es, n, k', .refused⟩
    else if fed.verdict = .exit then ⟨fed.parser, es, n, k', .exited⟩
    else (rest fed.parser k').after es n

def byteRun (answer : Nat → Bool) (p : HttpParser) (k : Nat) : Bytes → Ran
  | [] => ⟨p, [], 0, k, .running⟩
  | b :: bs =>
    if p.count.overflows then
      ⟨{ p.count with errno := .headerOverflow }, [], 0, k, .failed⟩
    else
      let fed := (p.count.advance b 1).2
      conclude answer k fed (fed.events p.state [b]) 1 fun p k => byteRun answer p k bs

/-! ## The marks -/

namespace Marks

/-- At most one part is marked. -/
def one : Option (Part × Bytes) → Marks
  | none => fun _ => none
  | some (part, bs) => Function.update (fun _ => none) part (some bs)

end Marks

/-- What is behind the mark. -/
def pendingEvents : Option (Part × Bytes) → List Event
  | none => []
  | some (part, bs) => [.data part bs]

theorem one_set {pend : Option (Part × Bytes)} {part : Part}
    (h : pend.map Prod.fst = none ∨ pend.map Prod.fst = some part) :
    ∃ bs, (Marks.one pend).set part = Marks.one (some (part, bs)) ∧
      Same [.data part bs] (pendingEvents pend ++ [.data part []]) := by
  match pend, h with
  | none, _ => exact ⟨[], by simp [Marks.set, Marks.one], .refl _⟩
  | some (part', bs), h =>
    obtain rfl : part' = part := by simpa using h
    refine ⟨bs, by simp [Marks.set, Marks.one], ?_⟩
    have hjoin := Same.join part' bs []
    rw [List.append_nil] at hjoin
    exact hjoin.symm

theorem one_call {pend : Option (Part × Bytes)} {part : Part}
    (h : pend.map Prod.fst = none ∨ pend.map Prod.fst = some part) :
    (Marks.one pend).call part = (Marks.one none, pendingEvents pend) := by
  match pend, h with
  | none, _ => rfl
  | some (part', bs), h =>
    obtain rfl : part' = part := by simpa using h
    simp [Marks.call, Marks.one, pendingEvents]

theorem one_pass (pend : Option (Part × Bytes)) (bs : Bytes) :
    (Marks.one pend).pass bs = Marks.one (pend.map fun x => (x.1, x.2 ++ bs)) := by
  match pend with
  | none => rfl
  | some (part, x) =>
    funext q
    by_cases hq : q = part
    · simp [Marks.pass, Marks.one, hq]
    · simp [Marks.pass, Marks.one, Function.update_of_ne hq]

theorem one_leftover (pend : Option (Part × Bytes)) :
    (Marks.one pend).leftover = pendingEvents pend ∧
      ¬ 1 < Marks.parts.countP fun part => ((Marks.one pend) part).isSome := by
  match pend with
  | none => exact ⟨rfl, by decide⟩
  | some (part, bs) =>
    cases part <;> simp [Marks.leftover, Marks.parts, Marks.call, Marks.one, pendingEvents]

/-- The acts on one mark. -/
theorem perform_one {p : HttpParser} {pend : Option (Part × Bytes)} {acts : List Act}
    {cur : Option Part} (h : tracks (pend.map Prod.fst) acts = some cur) :
    ∃ pend' es, Marks.perform p (Marks.one pend) acts = (Marks.one pend', es) ∧
      pend'.map Prod.fst = cur ∧
      Same (es ++ pendingEvents pend') (pendingEvents pend ++ actEvents p acts) := by
  induction acts generalizing pend with
  | nil =>
    refine ⟨pend, [], rfl, Option.some.inj h, ?_⟩
    simpa [actEvents] using Same.refl _
  | cons act acts ih =>
    have hnone (hc : pend.map Prod.fst = none) : pend = none := by simpa using hc
    cases act with
    | mark part =>
      obtain ⟨hcur, h⟩ := Option.ite_none_right_eq_some.mp h
      obtain ⟨bs, hset, hsame⟩ := one_set hcur
      obtain ⟨pend', es, hperform, hpart, hev⟩ := @ih (some (part, bs)) h
      refine ⟨pend', es, by rw [Marks.perform, hset, hperform], hpart, hev.trans ?_⟩
      simpa [actEvents, pendingEvents] using hsame.append (.refl (actEvents p acts))
    | data part =>
      obtain ⟨hcur, h⟩ := Option.ite_none_right_eq_some.mp h
      obtain ⟨pend', es, hperform, hpart, hev⟩ := @ih none h
      refine ⟨pend', pendingEvents pend ++ es, ?_, hpart, ?_⟩
      · rw [Marks.perform, one_call hcur]
        simp [hperform]
      · rw [List.append_assoc]
        exact (Same.refl _).append hev
    | messageComplete =>
      obtain ⟨⟨hcur, rfl⟩, h⟩ := Option.ite_none_right_eq_some.mp h
      obtain rfl := hnone hcur
      exact ⟨none, _, rfl, Option.some.inj h, .refl _⟩
    | messageBegin | headersComplete =>
      obtain ⟨hcur, h⟩ := Option.ite_none_right_eq_some.mp h
      obtain rfl := hnone hcur
      obtain ⟨pend', es, hperform, hpart, hev⟩ := @ih none h
      refine ⟨pend', _, by rw [Marks.perform, hperform], hpart, ?_⟩
      exact (Same.refl [_]).append hev

/-! ## The bytes of a body -/

section Body

variable {p : HttpParser} {k : Nat} {answer : Nat → Bool}

/-- The body has room for some bytes. -/
def Fits (p : HttpParser) (n : Nat) : Prop := p.state = .bodyIdentityEof ∨ n ≤ p.contentLength

theorem count_body (hbody : takesBody p.state = true) :
    p.count = p ∧ p.overflows = false := by
  have hnot : p.state.parsingHeader = false := by
    cases hs : p.state <;> simp_all [takesBody, HttpState.parsingHeader]
  simp [HttpParser.count, HttpParser.overflows, hnot]

/-- The states of a body, and what they rely on. -/
theorem body_cases (h : p.Inv) (hbody : takesBody p.state = true) :
    p.state = .bodyIdentityEof ∨
      (p.state = .bodyIdentity ∨ p.state = .chunkData ∧ p.flags.chunked = true) ∧
        p.contentLength ≠ 0 ∧ p.contentLength < ullongMax := by
  have hrel := h.relies
  have hlen := h.length
  cases hs : p.state <;> simp only [hs, takesBody, Bool.false_eq_true] at hbody
  all_goals simp only [HttpParser.Relies, hs] at hrel
  case bodyIdentityEof => exact .inl rfl
  case bodyIdentity => exact .inr ⟨.inl rfl, hrel.1, lt_of_le_of_ne hlen hrel.2⟩
  case chunkData =>
    exact .inr ⟨.inr ⟨rfl, hrel.1⟩, hrel.2.1, lt_of_le_of_ne hlen hrel.2.2⟩

/-- A body that has more than one byte left stays one. -/
theorem advance_body_one (h : p.Inv) (hbody : takesBody p.state = true) {n : Nat}
    (hn : 1 ≤ n) (hfits : Fits p (n + 1)) (b c : UInt8) :
    ∃ q : HttpParser, (p.advance b 1).2 = q.next [.mark .body] ∧ q.state = p.state ∧ q.Inv ∧
      Fits q n ∧ (q.advance c n).2 = (p.advance b (n + 1)).2 := by
  rcases body_cases h hbody with hs | ⟨hs, hzero, hmax⟩
  · exact ⟨p, by simp [HttpParser.advance, hs], rfl, h, .inl hs, by
      simp [HttpParser.advance, hs]⟩
  · let q : HttpParser := { p with contentLength := p.contentLength - 1 }
    have hlen : n + 1 ≤ p.contentLength := by
      rcases hfits with hs' | hlen
      · rcases hs with hs | ⟨hs, -⟩ <;> rw [hs] at hs' <;> cases hs'
      · exact hlen
    have hone : min p.contentLength 1 = 1 := by omega
    have hmin : min p.contentLength (n + 1) = n + 1 := by omega
    have hmin' : min (p.contentLength - 1) n = n := by omega
    have hleft : p.contentLength - 1 ≠ 0 := by omega
    have hsub : p.contentLength - 1 - n = p.contentLength - (n + 1) := by omega
    have hq : q.Inv := by
      refine ⟨h.errno, (Nat.sub_le ..).trans h.length, ?_⟩
      have hne : p.contentLength - 1 ≠ ullongMax := by omega
      rcases hs with hs | ⟨hs, hchunked⟩ <;>
        simp only [HttpParser.Relies, q, hs]
      · exact ⟨hleft, hne⟩
      · exact ⟨hchunked, hleft, hne⟩
    refine ⟨q, ?_, rfl, hq, .inr (Nat.le_sub_one_of_lt hlen), ?_⟩
    · rcases hs with hs | ⟨hs, -⟩ <;>
        simp [HttpParser.advance, hs, q, HttpParser.bodyIdentity, HttpParser.chunkData, hone,
          hleft]
    · rcases hs with hs | ⟨hs, -⟩ <;>
        simp [HttpParser.advance, hs, q, HttpParser.bodyIdentity, HttpParser.chunkData, hmin,
          hmin', hsub]

/-- The bytes of a body do not fail. -/
theorem advance_body_verdict (hbody : takesBody p.state = true) (b : UInt8) (n : Nat) :
    (p.advance b n).2.verdict = .next ∧ (p.advance b n).2.acts = [.mark .body] := by
  cases hs : p.state <;> simp only [hs, takesBody, Bool.false_eq_true] at hbody
  all_goals simp only [HttpParser.advance, hs]
  case bodyIdentityEof => exact ⟨rfl, rfl⟩
  case chunkData => exact ⟨rfl, rfl⟩
  case bodyIdentity =>
    unfold HttpParser.bodyIdentity
    dsimp only
    split <;> exact ⟨rfl, rfl⟩

/-- Bytes in front of others. -/
theorem conclude_after {fed : Fed} {es es' : List Event} {n n' : Nat}
    {rest : HttpParser → Nat → Ran} (h : fed.verdict ≠ .error) :
    (conclude answer k fed es n rest).after es' n' =
      conclude answer k fed (es' ++ es) (n' + n) rest := by
  unfold conclude
  simp only [h, if_false]
  repeat' split
  all_goals simp [Ran.after, List.append_assoc, Nat.add_assoc]

theorem byteRun_cons_body (hbody : takesBody p.state = true) (b : UInt8) (bs : Bytes) :
    byteRun answer p k (b :: bs) = conclude answer k (p.advance b 1).2
      ((p.advance b 1).2.events p.state [b]) 1 fun p k => byteRun answer p k bs := by
  obtain ⟨hcount, hover⟩ := count_body hbody
  simp [byteRun, hcount, hover]

theorem events_body {fed : Fed} {s : HttpState} (hbody : takesBody s = true)
    (hacts : fed.acts = [.mark .body]) (bs : Bytes) :
    fed.events s bs =
      [.data .body [], .data .body bs] ++ actEvents fed.parser fed.late := by
  simp [Fed.events, hacts, actEvents, passEvents, markedPart, hbody]

/-- **The bytes of a body can be taken together.** -/
theorem byteRun_body (answer : Nat → Bool) (k : Nat) (h : p.Inv)
    (hbody : takesBody p.state = true) (b : UInt8) (bs ys : Bytes)
    (hfits : Fits p (bs.length + 1)) :
    ∃ es, Same es ((p.advance b (bs.length + 1)).2.events p.state (b :: bs)) ∧
      byteRun answer p k (b :: bs ++ ys) =
        conclude answer k (p.advance b (bs.length + 1)).2 es (bs.length + 1) fun p k =>
          byteRun answer p k ys := by
  induction bs generalizing p b with
  | nil => exact ⟨_, .refl _, byteRun_cons_body hbody b ys⟩
  | cons c bs ih =>
    obtain ⟨q, hone, hstate, hq, hqfits, hrest⟩ :=
      advance_body_one (n := bs.length + 1) h hbody (by omega) hfits b c
    have hqbody : takesBody q.state = true := by rw [hstate, hbody]
    obtain ⟨es, hsame, hrun⟩ := ih hq hqbody c hqfits
    rw [hrest] at hsame hrun
    obtain ⟨hverdict, hacts⟩ := advance_body_verdict hbody b (bs.length + 1 + 1)
    rw [events_body hqbody hacts] at hsame
    refine ⟨[.data .body [], .data .body [b]] ++ es, ?_, ?_⟩
    · -- the two pieces are one
      refine ((Same.refl _).append hsame).trans ?_
      rw [List.length_cons, events_body hbody hacts]
      intro σ user hu s
      simp [hu _ _ _ _]
    · have hfirst : (q.next [.mark .body]).events p.state [b] =
          [.data .body [], .data .body [b]] := events_body hbody rfl [b]
      rw [List.cons_append, byteRun_cons_body hbody, hone, hfirst]
      have hgo (rest : HttpParser → Nat → Ran) (es : List Event) :
          conclude answer k (q.next [.mark .body]) es 1 rest = (rest q k).after es 1 := by
        simp [conclude, HttpParser.next, Fed.completes]
      rw [hgo, hrun, conclude_after (by rw [hverdict]; simp), Nat.add_comm 1]
      rfl

end Body

/-! ## A step of the loop -/

section Step

variable {p : HttpParser} {cur : Option Part}

theorem HttpParser.Inv.asserts (h : p.Inv) (b : UInt8) : p.count.asserts b = true := by
  have hrel := h.relies
  unfold HttpParser.count
  cases hs : p.state <;>
    simp_all [HttpParser.Relies, HttpParser.asserts, HttpState.parsingHeader]
  exact .inr hrel

/-- What some bytes of a read do. -/
structure Taken (cur : Option Part) (s : HttpState) (fed : Fed) : Prop where
  inv : fed.verdict ≠ .error → fed.parser.Inv
  failed : fed.verdict = .error →
    fed.parser.errno ≠ .ok ∧ fed.parser.errno ≠ .cbMessageComplete
  exits : fed.verdict = .exit → fed.completes = true
  acts : fed.verdict ≠ .error → tracks cur fed.acts = some (markedPart s fed)
  tracks : (tracks cur fed.acts).isSome = true
  late : fed.verdict ≠ .error →
    ∃ cur', ByteParser.tracks (markedPart s fed) fed.late = some cur' ∧
      Marked fed.parser.state cur' ∧ (fed.completes = true → cur' = none)

theorem taken_of_good {s : HttpState} {fed : Fed} (hs : takesBody s = false)
    (h : fed.Good cur) : Taken cur s fed where
  inv := h.inv
  failed := h.failed
  exits hexit := by simp [Fed.completes, h.exits hexit]
  acts := by simpa [markedPart, hs] using h.tracked
  tracks := h.tracks
  late hverdict := by
    refine ⟨_, by rw [h.late]; rfl, .inl (by simp [markedPart, hs]), fun hdone => ?_⟩
    have hmem : .messageComplete ∈ fed.acts := by simpa [Fed.completes, h.late] using hdone
    simpa [markedPart, hs] using tracks_complete (h.tracked hverdict) hmem

theorem marked_body (hm : Marked p.state cur) (hbody : takesBody p.state = true) :
    cur = none ∨ cur = some .body := by
  rcases hm with rfl | ⟨rfl, -⟩
  · left
    cases hs : p.state <;> simp_all [takesBody, HttpState.part?]
  · exact .inr rfl

theorem taken_body (h : p.Inv) (hm : Marked p.state cur) (hbody : takesBody p.state = true)
    (b : UInt8) (n : Nat) : Taken cur p.state (p.advance b n).2 := by
  have hcur := marked_body hm hbody
  obtain ⟨hverdict, hacts⟩ := advance_body_verdict hbody b n
  have hpart : markedPart p.state (p.advance b n).2 = some .body := by simp [markedPart, hbody]
  have htracks : tracks cur (p.advance b n).2.acts = some (some .body) := by
    rw [hacts]
    simp [tracks, hcur]
  suffices hrest : (p.advance b n).2.parser.Inv ∧ ∃ cur',
      tracks (some .body) (p.advance b n).2.late = some cur' ∧
        Marked (p.advance b n).2.parser.state cur' ∧
        ((p.advance b n).2.late ≠ [] → cur' = none) from {
    inv := fun _ => hrest.1
    failed := by simp [hverdict]
    exits := by simp [hverdict]
    acts := fun _ => by rw [htracks, hpart]
    tracks := by simp [htracks]
    late := fun _ => by
      obtain ⟨cur', hlate, hmarked, hdone⟩ := hrest.2
      refine ⟨cur', by rw [hpart, hlate], hmarked, fun hcompletes => hdone fun hnil => ?_⟩
      simp [Fed.completes, hacts, hnil] at hcompletes }
  rcases body_cases h hbody with hs | ⟨hs, hzero, hmax⟩
  · simp only [HttpParser.advance, hs]
    exact ⟨h, _, rfl, .inr ⟨rfl, .inl hbody⟩, absurd rfl⟩
  · have hle : p.contentLength - min p.contentLength n ≤ ullongMax :=
      (Nat.sub_le ..).trans h.length
    have hne : p.contentLength - min p.contentLength n ≠ ullongMax := by omega
    rcases hs with hs | ⟨hs, hchunked⟩
    · simp only [HttpParser.advance, hs, HttpParser.bodyIdentity]
      split
      · obtain ⟨hplain, hpart⟩ := HttpParser.newMessage_plain
          { p with contentLength := p.contentLength - min p.contentLength n }
        exact ⟨⟨h.errno, hle, HttpParser.relies_of_plain hplain⟩, none, rfl, .inl hpart.symm,
          fun _ => rfl⟩
      · rename_i hleft
        exact ⟨⟨h.errno, hle, by simpa [HttpParser.next, HttpParser.Relies, hs] using ⟨hleft, hne⟩⟩,
          _, rfl, .inr ⟨rfl, .inl rfl⟩, absurd rfl⟩
    · simp only [HttpParser.advance, hs, HttpParser.chunkData]
      split
      · rename_i hleft
        exact ⟨⟨h.errno, hle, hchunked, hleft⟩, _, rfl, .inr ⟨rfl, .inr rfl⟩, absurd rfl⟩
      · rename_i hleft
        exact ⟨⟨h.errno, hle, by
          simpa [HttpParser.next, HttpParser.Relies, hs] using ⟨hchunked, hleft, hne⟩⟩,
          _, rfl, .inr ⟨rfl, .inl rfl⟩, absurd rfl⟩

theorem advance_byte (hbody : takesBody p.state = false) (b : UInt8) (n : Nat) :
    p.advance b n = (1, p.feed b) := by
  unfold HttpParser.advance
  cases hs : p.state <;> simp_all [takesBody]

theorem count_state (p : HttpParser) : p.count.state = p.state := by
  obtain ⟨n, hn⟩ := HttpParser.count_eq p
  rw [hn]

/-- **Every case of the parser keeps it in order.** -/
theorem taken_advance (h : p.Inv) (hm : Marked p.state cur) (b : UInt8) (n : Nat) :
    Taken cur p.state (p.count.advance b n).2 := by
  by_cases hbody : takesBody p.state = true
  · rw [(count_body hbody).1]
    exact taken_body h hm hbody b n
  have hbody : takesBody p.state = false := by simpa using hbody
  have hcount : p.count.state = p.state := count_state p
  rw [advance_byte (by rw [hcount, hbody])]
  refine taken_of_good hbody ?_
  by_cases hstart : p.state = .chunkSizeStart
  · have hchunked : p.count.flags.chunked = true := by
      have hrel := h.relies
      simp only [HttpParser.Relies, hstart] at hrel
      simpa [HttpParser.count, hstart, HttpState.parsingHeader] using hrel.2
    have hcur : cur = none := by simpa [Marked, hstart, HttpState.part?, takesBody] using hm
    simp only [HttpParser.feed, hcount, hstart, hcur]
    exact HttpParser.good_chunkSizeStart (by simpa [HttpParser.count, hstart,
      HttpState.parsingHeader] using h.errno) hchunked
  · exact HttpParser.good_feed (h.count hstart) (by rwa [hcount]) (by rwa [hcount])
      (by rwa [hcount])

/-- As many bytes are taken as there is room for. -/
theorem advance_fits (h : p.Inv) (hbody : takesBody p.state = true) (b : UInt8) {n : Nat}
    (hn : 1 ≤ n) :
    1 ≤ (p.advance b n).1 ∧ (p.advance b n).1 ≤ n ∧ Fits p (p.advance b n).1 ∧
      (p.advance b (p.advance b n).1).2 = (p.advance b n).2 := by
  rcases body_cases h hbody with hs | ⟨hs, hzero, -⟩
  · simp [HttpParser.advance, hs, hn, Fits]
  · rcases hs with hs | ⟨hs, -⟩
    all_goals
      simp only [HttpParser.advance, hs, Fits, reduceCtorEq, false_or]
      refine ⟨by omega, Nat.min_le_right .., Nat.min_le_left .., ?_⟩
      rw [← Nat.min_assoc, Nat.min_self]

/-- As many bytes as the case takes, one at a time. -/
theorem byteRun_step (h : p.Inv) (answer : Nat → Bool) (k : Nat) (b : UInt8) (bs : Bytes)
    (hover : p.count.overflows = false) :
    let taken := p.count.advance b (bs.length + 1)
    ∃ n, n ≤ bs.length ∧ taken.1 = n + 1 ∧
      ∃ es, Same es (taken.2.events p.state (b :: bs.take n)) ∧
        byteRun answer p k (b :: bs) =
          conclude answer k taken.2 es (n + 1) fun p k => byteRun answer p k (bs.drop n) := by
  intro taken
  by_cases hbody : takesBody p.state = true
  · have hcount : p.count = p := (count_body hbody).1
    obtain ⟨hpos, hle, hfits, hsame⟩ :=
      advance_fits (n := bs.length + 1) h hbody b (by omega)
    obtain ⟨n, hn⟩ := Nat.exists_eq_add_one.mpr hpos
    have hnle : n ≤ bs.length := by omega
    rw [hn] at hfits hsame
    have hlen : (bs.take n).length = n := by simp [hnle]
    obtain ⟨es, hes, hrun⟩ := byteRun_body answer k h hbody b (bs.take n)
      (bs.drop n) (by rwa [hlen])
    rw [hlen] at hes hrun
    simp only [taken, hcount]
    refine ⟨n, hnle, hn, es, by rwa [hsame] at hes, ?_⟩
    rw [← hsame, ← hrun, List.cons_append, List.take_append_drop]
  · have hbody : takesBody p.count.state = false := by rw [count_state]; simpa using hbody
    refine ⟨0, Nat.zero_le _, by simp [taken, advance_byte hbody], _, .refl _, ?_⟩
    simp [byteRun, hover, taken, advance_byte hbody]

end Step

/-! ## A read -/

/-- `http_parser_execute` agrees with the bytes taken one at a time.  After an error the
    piece behind the mark is not handed over. -/
structure Agrees (pend : Option (Part × Bytes)) (o : Outcome) (r : Ran) : Prop where
  parser : o.parser = r.parser
  parsed : o.parsed = r.parsed
  completed : o.completed = r.completed
  events : ∃ lost, (r.ending ≠ .failed → lost = none) ∧
    Same (o.events ++ pendingEvents lost) (pendingEvents pend ++ r.events)

theorem pendingEvents_pass (pend : Option (Part × Bytes)) (bs : Bytes) :
    Same (pendingEvents (pend.map fun x => (x.1, x.2 ++ bs)))
      (pendingEvents pend ++ passEvents (pend.map Prod.fst) bs) := by
  match pend with
  | none => exact .refl _
  | some (part, x) => exact (Same.join part x bs).symm

/-- The marks after the bytes that a case takes. -/
theorem perform_taken {s : HttpState} {fed : Fed} {pend : Option (Part × Bytes)}
    (h : Taken (pend.map Prod.fst) s fed) (hverdict : fed.verdict ≠ .error) (bs : Bytes)
    {m : Marks} {es : List Event}
    (hacts : Marks.perform fed.parser (Marks.one pend) fed.acts = (m, es)) :
    ∃ pend' es', Marks.perform fed.parser (m.pass bs) fed.late = (Marks.one pend', es') ∧
      Marked fed.parser.state (pend'.map Prod.fst) ∧ (fed.completes = true → pend' = none) ∧
      Same (es ++ es' ++ pendingEvents pend') (pendingEvents pend ++ fed.events s bs) := by
  obtain ⟨pend₁, es₁, hperform, hpart, hsame⟩ := perform_one (p := fed.parser) (h.acts hverdict)
  obtain ⟨rfl, rfl⟩ := Prod.mk.inj (hacts.symm.trans hperform)
  obtain ⟨cur, htracks, hmarked, hdone⟩ := h.late hverdict
  have hpass := pendingEvents_pass pend₁ bs
  rw [hpart] at hpass
  have hpart' : (pend₁.map fun x => (x.1, x.2 ++ bs)).map Prod.fst = markedPart s fed := by
    rw [← hpart]
    simp [Option.map_map, Function.comp_def]
  rw [← hpart'] at htracks
  obtain ⟨pend', es', hlate, hcur, hsame'⟩ := perform_one (p := fed.parser) htracks
  refine ⟨pend', es', by rw [one_pass, hlate], by rwa [hcur], fun hc => ?_, ?_⟩
  · simpa [hdone hc] using hcur
  · have hfirst := (Same.refl es).append (hsame'.trans (hpass.append (.refl _)))
    have hsecond := hsame.append (.refl (passEvents (markedPart s fed) bs ++
      actEvents fed.parser fed.late))
    simp only [List.append_assoc, Fed.events] at hfirst hsecond ⊢
    exact hfirst.trans hsecond

/-- **`http_parser_execute` takes its bytes one at a time**, and no assertion fails. -/
theorem executeLoop_spec (answer : Nat → Bool) {p : HttpParser} (h : p.Inv)
    {pend : Option (Part × Bytes)} (hm : Marked p.state (pend.map Prod.fst)) (k : Nat)
    (data : Bytes) :
    ∃ o, executeLoop answer p (Marks.one pend) k data = some o ∧
      Agrees pend o (byteRun answer p k data) := by
  induction hlen : data.length using Nat.strong_induction_on generalizing p pend k data with
  | _ len ih =>
  match data with
  | [] =>
    obtain ⟨hleft, hfew⟩ := one_leftover pend
    refine ⟨⟨p, pendingEvents pend, 0, k⟩, by simp [executeLoop, hleft, hfew], rfl, rfl, rfl,
      none, fun _ => rfl, ?_⟩
    simpa [byteRun, pendingEvents] using Same.refl _
  | b :: bs =>
    by_cases hover : p.count.overflows = true
    · refine ⟨⟨{ p.count with errno := .headerOverflow }, [], 0, k⟩, ?_, ?_⟩
      · simp [executeLoop, hover]
      · simp only [byteRun, hover, if_true]
        exact ⟨rfl, rfl, rfl, pend, fun hne => absurd rfl hne, by simpa using Same.refl _⟩
    have hover : p.count.overflows = false := by simpa using hover
    obtain ⟨n, hle, hn, es, hes, hrun⟩ := byteRun_step h answer k b bs hover
    have htaken := taken_advance h hm b (bs.length + 1)
    obtain ⟨cur, htracks⟩ := Option.isSome_iff_exists.mp htaken.tracks
    generalize hfed : p.count.advance b (bs.length + 1) = taken at *
    obtain ⟨n', fed⟩ := taken
    obtain rfl : n' = n + 1 := hn
    obtain ⟨pend₁, es₁, hperform, -, hsame₁⟩ := perform_one (p := fed.parser) htracks
    have hloop := executeLoop.eq_2 answer p (Marks.one pend) k b bs
    simp only [hover, h.asserts, hfed, hperform, Bool.false_eq_true, Bool.true_eq_false,
      if_false] at hloop
    rw [hrun]
    by_cases hverdict : fed.verdict = .error
    · refine ⟨⟨fed.parser, es₁, 0, k⟩, by simp [hloop, hverdict], ?_⟩
      simp only [conclude, hverdict, if_true]
      exact ⟨rfl, rfl, rfl, pend₁, fun hne => absurd rfl hne, hsame₁⟩
    obtain ⟨pend₂, es₂, hlate, hmarked, hdone, hsame⟩ :=
      perform_taken htaken hverdict (b :: bs.take n) hperform
    have hevents : Same (es₁ ++ es₂ ++ pendingEvents pend₂) (pendingEvents pend ++ es) :=
      hsame.trans ((Same.refl _).append hes.symm)
    simp only [hverdict, if_false, List.take_succ_cons, hlate, Nat.add_sub_cancel] at hloop
    simp only [conclude, hverdict, if_false]
    by_cases hrefused : (fed.completes && !answer k) = true
    · obtain rfl := hdone (by simp_all)
      refine ⟨_, by rw [hloop, if_pos hrefused], ?_⟩
      rw [if_pos hrefused]
      exact ⟨rfl, rfl, rfl, none, fun _ => rfl, hevents⟩
    by_cases hexit : fed.verdict = .exit
    · obtain rfl := hdone (htaken.exits hexit)
      refine ⟨_, by rw [hloop, if_neg hrefused, if_pos hexit], ?_⟩
      rw [if_neg hrefused, if_pos hexit]
      exact ⟨rfl, rfl, rfl, none, fun _ => rfl, hevents⟩
    · have hshort : (bs.drop n).length < len := by
        simp only [← hlen, List.length_drop, List.length_cons]
        omega
      obtain ⟨o, ho, hagrees⟩ := ih _ hshort (htaken.inv hverdict) hmarked
        (if fed.completes = true then k + 1 else k) _ rfl
      obtain ⟨lost, hlost, hrest⟩ := hagrees.events
      refine ⟨o.after (es₁ ++ es₂) (n + 1), ?_, ?_⟩
      · rw [hloop, if_neg hrefused, if_neg hexit, ho]
        rfl
      · rw [if_neg hrefused, if_neg hexit]
        refine ⟨hagrees.parser, congrArg (n + 1 + ·) hagrees.parsed, hagrees.completed, lost,
          hlost, ?_⟩
        have hfirst := (Same.refl (es₁ ++ es₂)).append hrest
        have hsecond := hevents.append (.refl (byteRun answer fed.parser
          (if fed.completes = true then k + 1 else k) (bs.drop n)).events)
        simp only [Outcome.after, Ran.after, List.append_assoc] at hfirst hsecond ⊢
        exact hfirst.trans hsecond

/-! ## Bytes after bytes -/

section Bytes

variable {answer : Nat → Bool} {p : HttpParser} {k : Nat}

/-- How some bytes end. -/
inductive Concluded (k : Nat) (fed : Fed) (es : List Event) (n : Nat)
    (rest : HttpParser → Nat → Ran) : Ran → Prop
  | failed (h : fed.verdict = .error) :
      Concluded k fed es n rest ⟨fed.parser, actEvents fed.parser fed.acts, 0, k, .failed⟩
  | refused (h : fed.verdict ≠ .error) :
      Concluded k fed es n rest
        ⟨{ fed.parser with errno := .cbMessageComplete }, es, n, k + 1, .refused⟩
  | exited (h : fed.verdict = .exit) (k' : Nat) :
      Concluded k fed es n rest ⟨fed.parser, es, n, k', .exited⟩
  | next (h : fed.verdict ≠ .error) (k' : Nat) :
      Concluded k fed es n rest ((rest fed.parser k').after es n)

theorem concluded (fed : Fed) (es : List Event) (n : Nat) (rest : HttpParser → Nat → Ran) :
    Concluded k fed es n rest (conclude answer k fed es n rest) := by
  unfold conclude
  split
  · exact .failed ‹_›
  dsimp only
  split
  · rename_i hverdict hrefused
    simp only [Bool.and_eq_true] at hrefused
    simp only [hrefused.1, if_true]
    exact .refused hverdict
  split
  · exact .exited ‹_› _
  · exact .next ‹_› _

/-- How a run goes on. -/
def Ran.andThen (r : Ran) (rest : HttpParser → Nat → Ran) : Ran :=
  if r.ending = .running then (rest r.parser r.completed).after r.events r.parsed else r

theorem Ran.after_andThen (r : Ran) (es : List Event) (n : Nat) (rest : HttpParser → Nat → Ran) :
    (r.after es n).andThen rest = (r.andThen rest).after es n := by
  unfold Ran.andThen Ran.after
  split <;> simp [List.append_assoc, Nat.add_assoc]

theorem conclude_andThen {fed : Fed} {es : List Event} {n : Nat}
    {rest more : HttpParser → Nat → Ran} :
    (conclude answer k fed es n rest).andThen more =
      conclude answer k fed es n fun p k => (rest p k).andThen more := by
  unfold conclude
  repeat' split
  all_goals first | rfl | exact Ran.after_andThen ..

theorem byteRun_append (answer : Nat → Bool) (p : HttpParser) (k : Nat) (xs ys : Bytes) :
    byteRun answer p k (xs ++ ys) =
      (byteRun answer p k xs).andThen fun p k => byteRun answer p k ys := by
  induction xs generalizing p k with
  | nil => simp [byteRun, Ran.andThen, Ran.after]
  | cons x xs ih =>
    rw [List.cons_append, byteRun, byteRun]
    split
    · rfl
    · simp only [ih, conclude_andThen]

/-- What an ending says about the parser and the bytes. -/
def Ran.Sound (r : Ran) (n : Nat) : Prop :=
  match r.ending with
  | .running => r.parser.Inv ∧ r.parsed = n
  | .failed => r.parser.errno ≠ .ok ∧ r.parser.errno ≠ .cbMessageComplete ∧ r.parsed < n
  | .exited => r.parser.Inv ∧ r.parsed ≤ n
  | .refused => r.parser.errno = .cbMessageComplete ∧ r.parsed ≤ n

theorem Ran.Sound.after {r : Ran} {n : Nat} (h : r.Sound n) (es : List Event) (m : Nat) :
    (r.after es m).Sound (m + n) := by
  unfold Ran.Sound Ran.after at *
  split <;> simp_all

/-- The bytes behind one that the parser takes. -/
theorem byteRun_next {b : UInt8} {fed : Fed} (hfed : fed = (p.count.advance b 1).2)
    (hover : p.count.overflows = false) (hnext : fed.verdict = .next) (k : Nat) :
    ∃ k', ∀ xs, byteRun (fun _ => true) p k (b :: xs) =
      (byteRun (fun _ => true) fed.parser k' xs).after (fed.events p.state [b]) 1 := by
  refine ⟨if fed.completes then k + 1 else k, fun xs => ?_⟩
  rw [byteRun]
  simp [hover, ← hfed, conclude, hnext]

/-- The byte before another protocol. -/
theorem byteRun_exit {b : UInt8} {fed : Fed} (hfed : fed = (p.count.advance b 1).2)
    (hover : p.count.overflows = false) (hv : fed.verdict = .exit) (k : Nat) (xs : Bytes) :
    ∃ k', byteRun (fun _ => true) p k (b :: xs) =
      ⟨fed.parser, fed.events p.state [b], 1, k', .exited⟩ := by
  refine ⟨if fed.completes then k + 1 else k, ?_⟩
  rw [byteRun]
  simp [hover, ← hfed, conclude, hv]

theorem byteRun_error {b : UInt8} {fed : Fed} (hfed : fed = (p.count.advance b 1).2)
    (hover : p.count.overflows = false) (hv : fed.verdict = .error) (k : Nat) (xs : Bytes) :
    byteRun (fun _ => true) p k (b :: xs) =
      ⟨fed.parser, actEvents fed.parser fed.acts, 0, k, .failed⟩ := by
  rw [byteRun]
  simp [hover, ← hfed, conclude, hv]

theorem byteRun_overflow (hover : p.count.overflows = true) (k : Nat) (b : UInt8) (xs : Bytes) :
    byteRun (fun _ => true) p k (b :: xs) =
      ⟨{ p.count with errno := .headerOverflow }, [], 0, k, .failed⟩ := by
  rw [byteRun, if_pos hover]

/-- One byte, and then the others. -/
theorem byteRun_cons (answer : Nat → Bool) (p : HttpParser) (k : Nat) (x : UInt8) (xs : Bytes) :
    (byteRun answer p k (x :: xs) =
        ⟨{ p.count with errno := .headerOverflow }, [], 0, k, .failed⟩) ∨
      ∃ fed, fed = (p.count.advance x 1).2 ∧
        Concluded k fed (fed.events p.state [x]) 1 (fun p k => byteRun answer p k xs)
          (byteRun answer p k (x :: xs)) := by
  rw [byteRun]
  split
  · exact .inl rfl
  · exact .inr ⟨_, rfl, concluded ..⟩

theorem sound_byteRun (answer : Nat → Bool) (k : Nat) (h : p.Inv) (xs : Bytes) :
    (byteRun answer p k xs).Sound xs.length := by
  induction xs generalizing p k with
  | nil => exact ⟨h, rfl⟩
  | cons x xs ih =>
    obtain heq | ⟨fed, hfed, hrun⟩ := byteRun_cons answer p k x xs
    · rw [heq]
      simp [Ran.Sound]
    · have htaken : Taken p.state.part? p.state fed := hfed ▸ taken_advance h (.inl rfl) x 1
      generalize byteRun answer p k (x :: xs) = r at hrun ⊢
      cases hrun with
      | failed hverdict =>
        have hfailed := htaken.failed hverdict
        exact ⟨hfailed.1, hfailed.2, Nat.succ_pos _⟩
      | refused hverdict => exact ⟨rfl, Nat.succ_pos _⟩
      | exited hverdict k' => exact ⟨htaken.inv (by simp [hverdict]), Nat.succ_pos _⟩
      | next hverdict k' =>
        rw [List.length_cons, Nat.add_comm]
        exact (ih _ (htaken.inv hverdict)).after _ 1

/-! ## Between two reads -/

/-- The part that is marked at the beginning of a read, with nothing behind it. -/
def HttpState.opened (s : HttpState) : Option (Part × Bytes) := s.part?.map fun part => (part, [])

/-- Acts that leave a part marked end with its mark. -/
theorem actEvents_marked {cur : Option Part} {part : Part} {acts : List Act}
    (h : tracks cur acts = some (some part)) (q : HttpParser) :
    acts = [] ∧ cur = some part ∨ ∃ es, actEvents q acts = es ++ [.data part []] := by
  induction acts generalizing cur with
  | nil => exact .inl ⟨rfl, Option.some.inj h⟩
  | cons act acts ih =>
    right
    cases act with
    | messageComplete =>
      obtain ⟨-, h⟩ := Option.ite_none_right_eq_some.mp h
      cases h
    | mark part' =>
      obtain ⟨-, h⟩ := Option.ite_none_right_eq_some.mp h
      obtain ⟨rfl, hcur⟩ | ⟨es, hes⟩ := ih h
      · obtain rfl := Option.some.inj hcur
        exact ⟨[], rfl⟩
      · exact ⟨.data part' [] :: es, by rw [actEvents, hes, List.cons_append]⟩
    | data =>
      obtain ⟨-, h⟩ := Option.ite_none_right_eq_some.mp h
      obtain ⟨-, hcur⟩ | ⟨es, hes⟩ := ih h
      · cases hcur
      · exact ⟨es, hes⟩
    | messageBegin | headersComplete =>
      obtain ⟨-, h⟩ := Option.ite_none_right_eq_some.mp h
      obtain ⟨-, hcur⟩ | ⟨es, hes⟩ := ih h
      · cases hcur
      · exact ⟨_ :: es, by rw [actEvents, hes, List.cons_append]⟩

/-- Where a part is marked, its last piece has just been handed over. -/
theorem marked_of_taken {s : HttpState} {fed : Fed} {cur : Option Part} (h : Taken cur s fed)
    (hverdict : fed.verdict ≠ .error) {part : Part} (hpart : fed.parser.state.part? = some part)
    (bs : Bytes) : ∃ es piece, fed.events s bs = es ++ [.data part piece] := by
  obtain ⟨cur', hlate, hmarked, -⟩ := h.late hverdict
  have hcur : cur' = some part := by
    rcases hmarked with rfl | ⟨-, hbody | hdone⟩
    · exact hpart
    · cases hs : fed.parser.state <;> simp_all [takesBody, HttpState.part?]
    · simp [hdone, HttpState.part?] at hpart
  rw [hcur] at hlate
  unfold Fed.events
  rcases actEvents_marked hlate fed.parser with ⟨hnil, hmark⟩ | ⟨es, hes⟩
  · exact ⟨_, bs, by simp [hnil, hmark, passEvents, actEvents]; rfl⟩
  · exact ⟨_, [], by rw [hes, ← List.append_assoc]⟩

theorem marked_of_byteRun (h : p.Inv) {xs : Bytes} (hxs : xs ≠ []) {part : Part}
    (hrun : (byteRun answer p k xs).ending = .running)
    (hpart : (byteRun answer p k xs).parser.state.part? = some part) :
    ∃ es piece, (byteRun answer p k xs).events = es ++ [.data part piece] := by
  induction xs generalizing p k with
  | nil => exact absurd rfl hxs
  | cons x xs ih =>
    obtain heq | ⟨fed, hfed, hcases⟩ := byteRun_cons answer p k x xs
    · rw [heq] at hrun
      cases hrun
    · have htaken : Taken p.state.part? p.state fed := hfed ▸ taken_advance h (.inl rfl) x 1
      generalize byteRun answer p k (x :: xs) = r at hrun hpart hcases ⊢
      cases hcases with
      | failed | refused | exited => cases hrun
      | next hverdict k' =>
        by_cases hnil : xs = []
        · subst hnil
          obtain ⟨es, piece, hes⟩ := marked_of_taken htaken hverdict hpart [x]
          exact ⟨es, piece, by simp [Ran.after, byteRun, hes]⟩
        · obtain ⟨es, piece, hes⟩ := ih (htaken.inv hverdict) hnil hrun hpart
          refine ⟨fed.events p.state [x] ++ es, piece, ?_⟩
          simp only [Ran.after, hes, List.append_assoc]

/-- **A mark that a read begins with adds nothing.** -/
theorem same_opened (h : p.Inv) {xs : Bytes} (hxs : xs ≠ [])
    (hrun : (byteRun answer p k xs).ending = .running) :
    Same ((byteRun answer p k xs).events ++
        pendingEvents (byteRun answer p k xs).parser.state.opened)
      (byteRun answer p k xs).events := by
  cases hpart : (byteRun answer p k xs).parser.state.part? with
  | none => simpa [HttpState.opened, hpart, pendingEvents] using Same.refl _
  | some part =>
    obtain ⟨es, piece, hes⟩ := marked_of_byteRun h hxs hrun hpart
    have hjoin := (Same.refl es).append (Same.join part piece [])
    simpa [HttpState.opened, hpart, pendingEvents, hes] using hjoin

end Bytes

end FiberProxy.Http.ByteParser
