/-
  FiberProxy.Server.DriverResponses

  One response frame for each request frame on a driver connection.  The stream is
  requests and then a zero header.  In every run in which no fiber writes while
  another one is in the middle of its frame, and no write fails, the output is, at
  the end, the responses as whole frames, one for each request and with its sequence;
  and until then the connection can go on.

  Without that the frames of two fibers are torn, for there is no queue in front of the
  socket; and a stream that just ends gets one frame more, of sequence zero.
-/

import FiberProxy.Server.DriverConnection
import Mathlib.Data.List.Perm.Basic

namespace FiberProxy.Server.Driver

open Lib

/-- A request frame that the reader accepts. -/
structure Request where
  sequence : UInt32
  payload : Bytes
  sequence_ne : sequence ≠ 0
  payload_ne : payload ≠ []
  payload_le : payload.length ≤ limitSize

def Request.octets (r : Request) : Bytes := frame r.sequence r.payload

/-- A header with a zero in it; what follows it is not read. -/
structure ZeroHeader where
  sequence : UInt32
  size : UInt32
  zero : sequence = 0 ∨ size = 0
  rest : Bytes

def ZeroHeader.octets (z : ZeroHeader) : Bytes := be32 z.sequence ++ be32 z.size ++ z.rest

/-- Every request has one response, with its sequence, and there is nothing else.  To who reads
    the frames they are whole below 2^32 bytes: the size in the header is modulo that. -/
def Answered (reqs : List Request) (out : Bytes) : Prop :=
  ∃ rsps : List (UInt32 × Bytes), out = rsps.flatMap (fun r => frame r.1 r.2) ∧
    (rsps.map Prod.fst).Perm (reqs.map Request.sequence)

/-- The reader has stopped and every response is written. -/
def Finished (s : Connection) : Prop :=
  s.reader = .ended ∧ ∀ c ∈ s.contexts, ∃ rsp, c.phase = .done rsp

/-- The frame of a context and how much of it is out. -/
def Context.writer (c : Context) : Bytes × Nat :=
  match c.phase with
  | .writing rsp sent => (frame c.sequence rsp, sent)
  | .done rsp => (frame c.sequence rsp, (frame c.sequence rsp).length)
  | _ => ([], 0)

def Connection.writers (s : Connection) : List (Bytes × Nat) := s.contexts.map Context.writer

/-- A piece is written only while no other response is in the middle of its frame, and no
    write fails. -/
def TakesTurns (s : Connection) : Event → Prop
  | .writeSome k _ => ∀ (j : Nat) w, j ≠ k → s.writers[j]? = some w → cutAt w.1 w.2 = none
  | .writeFail _ => False
  | _ => True

instance (s : Connection) (e : Event) : Decidable (TakesTurns s e) :=
  match e with
  | .writeSome k _ =>
    decidable_of_iff (∀ p ∈ s.writers.zipIdx, p.2 ≠ k → cutAt p.1.1 p.1.2 = none) <| by
      simp only [TakesTurns, List.mem_zipIdx_iff_getElem?, Prod.forall]
      exact ⟨fun h j f n hj hw => h f n j hw hj, fun h f n j hw hj => h j f n hj hw⟩
  | .writeFail _ => .isFalse id
  | .header | .headerError _ | .payload | .payloadError _ | .invoke .. | .complete ..
  | .writeDone _ => .isTrue trivial

/-! ## What the reader reads -/

/-- The input as the requests that are still to come. -/
inductive Stream (z : ZeroHeader) : Reader → Bytes → List Request → Prop where
  | header (rest : List Request) :
      Stream z .header (rest.flatMap Request.octets ++ z.octets) rest
  | payload (r : Request) (rest : List Request) :
      Stream z (.payload r.sequence r.payload.length)
        (r.payload ++ (rest.flatMap Request.octets ++ z.octets)) (r :: rest)
  | busy (k : Nat) (rest : List Request) :
      Stream z (.busy k false) (rest.flatMap Request.octets ++ z.octets) rest
  | ended (input : Bytes) : Stream z .ended input []

/-- The header of a stream that begins with one. -/
theorem header_of_append (a b : UInt32) (rest : Bytes) :
    readBe32 ((be32 a ++ be32 b ++ rest).take 4) = a ∧
      readBe32 (((be32 a ++ be32 b ++ rest).drop 4).take 4) = b ∧
      (be32 a ++ be32 b ++ rest).drop 8 = rest := by
  refine ⟨?_, ?_, ?_⟩
  · rw [List.append_assoc, List.take_left' (length_be32 a), readBe32_be32]
  · rw [List.append_assoc, List.drop_left' (length_be32 a), List.take_left' (length_be32 b),
      readBe32_be32]
  · rw [List.drop_left' (by simp)]

theorem Stream.length_header {z : ZeroHeader} {input : Bytes} {rest : List Request}
    (h : Stream z .header input rest) : 8 ≤ input.length := by
  cases h with
  | header =>
    simp only [List.length_append, ZeroHeader.octets, length_be32]
    omega

/-- The payload of a request is there. -/
theorem Stream.length_payload {z : ZeroHeader} {sequence : UInt32} {size : Nat} {input : Bytes}
    {rest : List Request} (h : Stream z (.payload sequence size) input rest) :
    size ≤ input.length := by
  cases h with
  | payload r rest =>
    rw [List.length_append]
    omega

theorem Stream.release {z : ZeroHeader} {reader : Reader} {input : Bytes} {rest : List Request}
    (h : Stream z reader input rest) (k : Nat) : Stream z (reader.release k) input rest := by
  cases h with
  | header => exact .header rest
  | payload r rest => exact .payload r rest
  | ended => exact .ended input
  | busy j =>
    by_cases hjk : j = k
    · simp only [Reader.release, if_pos hjk, Bool.false_eq_true, if_false]
      exact .header rest
    · simp only [Reader.release, if_neg hjk]
      exact .busy j rest

variable {app : App} {pooled : Bool}

/-- A header that is read: the next request, or the end. -/
theorem Stream.afterHeader (app : App) {z : ZeroHeader} {s : Connection} {rest : List Request}
    (h : Stream z .header s.input rest) {t : Connection}
    (ht : t = ({ s with input := s.input.drop 8 } : Connection).afterHeader app
      (readBe32 (s.input.take 4)) (readBe32 ((s.input.drop 4).take 4)).toNat) :
    t.contexts = s.contexts ∧ t.out = s.out ∧ (∀ k last, t.reader ≠ .busy k last) ∧
      Stream z t.reader t.input rest := by
  generalize hin : s.input = input at h ht
  cases h with
  | header =>
  cases rest with
  | nil =>
    obtain ⟨ha, hb, -⟩ := header_of_append z.sequence z.size z.rest
    have hzero : z.sequence = 0 ∨ z.size.toNat = 0 := by
      rcases z.zero with hz | hz
      · exact .inl hz
      · exact .inr (by rw [hz]; rfl)
    rw [List.flatMap_nil, List.nil_append, ZeroHeader.octets, ha, hb, Connection.afterHeader,
      if_pos hzero] at ht
    subst ht
    exact ⟨rfl, rfl, by simp, .ended _⟩
  | cons r rest =>
    obtain ⟨ha, hb, hc⟩ := header_of_append r.sequence (UInt32.ofNat r.payload.length)
      (r.payload ++ (rest.flatMap Request.octets ++ z.octets))
    have hsplit : (r :: rest).flatMap Request.octets ++ z.octets =
        be32 r.sequence ++ be32 (UInt32.ofNat r.payload.length) ++
          (r.payload ++ (rest.flatMap Request.octets ++ z.octets)) := by
      simp [Request.octets, frame]
    have hle := r.payload_le
    have hsize : (UInt32.ofNat r.payload.length).toNat = r.payload.length := by
      rw [UInt32.toNat_ofNat']
      apply Nat.mod_eq_of_lt
      unfold limitSize at hle
      omega
    have hlen : r.payload.length ≠ 0 := fun h0 => r.payload_ne (List.length_eq_zero_iff.mp h0)
    have hnz : ¬ (r.sequence = 0 ∨ r.payload.length = 0) := by
      rintro (h0 | h0)
      · exact r.sequence_ne h0
      · exact hlen h0
    rw [hsplit, ha, hb, hc, hsize, Connection.afterHeader, if_neg hnz,
      if_neg (Nat.not_lt.mpr hle)] at ht
    subst ht
    exact ⟨rfl, rfl, by simp, .payload r rest⟩

/-! ## The invariant -/

/-- The write of a context has not failed, and wrote no more than its frame. -/
def Context.Sound (c : Context) : Prop := c.phase ≠ .failed ∧ c.writer.2 ≤ c.writer.1.length

structure Inv (reqs : List Request) (z : ZeroHeader) (s : Connection) : Prop where
  serial : Serial s.writers s.out
  stream : ∃ rest, Stream z s.reader s.input rest ∧
    s.contexts.map Context.sequence ++ rest.map Request.sequence = reqs.map Request.sequence
  /-- The context the reader is busy with is still in its hands. -/
  busy : ∀ k last, s.reader = .busy k last →
    ∃ c, s.contexts[k]? = some c ∧ c.phase.frees = false
  sound : ∀ c ∈ s.contexts, c.Sound

variable {reqs : List Request} {z : ZeroHeader}

theorem inv_start (reqs : List Request) (z : ZeroHeader) :
    Inv reqs z { input := reqs.flatMap Request.octets ++ z.octets } where
  serial := serial_nil
  stream := ⟨reqs, .header reqs, rfl⟩
  busy := by simp
  sound := by simp

/-- The reader has a payload: one context more. -/
theorem Inv.create {s t : Connection} {r : Request} {rest : List Request} (h : Inv reqs z s)
    {c : Context} {reader : Reader} (hc : c.sequence = r.sequence) (hw : c.writer.2 = 0)
    (hphase : c.phase.frees = false) (hcontexts : t.contexts = s.contexts ++ [c])
    (hout : t.out = s.out) (hreader : t.reader = reader)
    (hstream : Stream z reader t.input rest)
    (hbusy : ∀ k last, reader = .busy k last → k = s.contexts.length)
    (hseqs : s.contexts.map Context.sequence ++ (r :: rest).map Request.sequence =
      reqs.map Request.sequence) : Inv reqs z t := by
  constructor
  case serial =>
    have hwriter : c.writer = (c.writer.1, 0) := Prod.ext rfl hw
    rw [Connection.writers, hcontexts, hout, List.map_append, List.map_singleton, hwriter]
    exact h.serial.join _
  case stream =>
    refine ⟨rest, hreader ▸ hstream, ?_⟩
    rw [hcontexts, ← hseqs]
    simp [hc]
  case busy =>
    intro k last hk
    obtain rfl := hbusy k last (hreader.symm.trans hk)
    exact ⟨c, by rw [hcontexts, List.getElem?_concat_length], hphase⟩
  case sound =>
    rw [hcontexts]
    refine forall_mem_snoc h.sound ⟨fun hfailed => ?_, by omega⟩
    simp [hfailed, Phase.frees] at hphase

/-- Only a reader that is busy with another context stays busy. -/
theorem Reader.release_eq_busy {reader : Reader} {j k : Nat} {last : Bool}
    (h : reader.release k = .busy j last) : reader = .busy j last ∧ j ≠ k := by
  unfold Reader.release at h
  split at h
  · split at h
    · split at h <;> simp at h
    · rename_i hne
      obtain ⟨rfl, rfl⟩ := Reader.busy.inj h
      exact ⟨rfl, hne⟩
  · rename_i hnot
    exact absurd h (hnot j last)

/-- A context goes on, and the stream of the responses with it. -/
theorem Inv.move {s t : Connection} {k : Nat} {c : Context} {phase : Phase} (h : Inv reqs z s)
    (hk : s.contexts[k]? = some c) (hsound : Context.Sound { c with phase := phase })
    (hcontexts : t.contexts = (s.setPhase k c phase).contexts)
    (hreader : t.reader = (s.setPhase k c phase).reader) (hinput : t.input = s.input)
    (hserial : Serial (s.writers.set k (Context.writer { c with phase := phase })) t.out) :
    Inv reqs z t := by
  constructor
  case serial =>
    rw [Connection.writers, hcontexts, Connection.setPhase, List.map_set]
    exact hserial
  case stream =>
    obtain ⟨rest, hstream, hseqs⟩ := h.stream
    refine ⟨rest, ?_, ?_⟩
    · rw [hreader, hinput, Connection.setPhase]
      dsimp only
      split
      · exact hstream.release k
      · exact hstream
    · rw [hcontexts, ← hseqs, Connection.setPhase, List.map_set]
      rw [set_getElem?_self (by rw [List.getElem?_map, hk]; rfl)]
  case busy =>
    intro j last hj
    rw [hreader, Connection.setPhase] at hj
    dsimp only at hj
    have hbusy : s.reader = .busy j last ∧ (j = k → phase.frees = false) := by
      split at hj
      · obtain ⟨hr, hne⟩ := Reader.release_eq_busy hj
        exact ⟨hr, fun heq => absurd heq hne⟩
      · exact ⟨hj, fun _ => by simpa using ‹¬ phase.frees = true›⟩
    obtain ⟨d, hd, hfrees⟩ := h.busy j last hbusy.1
    rw [hcontexts]
    by_cases hjk : j = k
    · subst hjk
      exact ⟨_, List.getElem?_set_self (List.getElem?_eq_some_iff.mp hk).1, hbusy.2 rfl⟩
    · exact ⟨d, by rw [← hd]; exact List.getElem?_set_ne (Ne.symm hjk), hfrees⟩
  case sound =>
    rw [hcontexts]
    exact forall_mem_set h.sound hsound

theorem writers_getElem? {s : Connection} {k : Nat} {c : Context}
    (hk : s.contexts[k]? = some c) : s.writers[k]? = some c.writer := by
  rw [Connection.writers, List.getElem?_map, hk]
  rfl

theorem Inv.handleRequest {s : Connection} {sequence : UInt32} {size : Nat} (h : Inv reqs z s)
    (hr : s.reader = .payload sequence size) :
    Inv reqs z (({ s with input := s.input.drop size } : Connection).handleRequest app pooled
      sequence (s.input.take size)) := by
  obtain ⟨rest, hstream, hseqs⟩ := h.stream
  rw [hr] at hstream
  generalize hin : s.input = input at hstream
  cases hstream with
  | payload r rest =>
  rw [List.drop_left' rfl, List.take_left' rfl]
  unfold Connection.handleRequest
  split
  · exact h.create rfl rfl rfl rfl rfl rfl (.busy _ rest)
      (fun _ _ hb => (Reader.busy.inj hb).1.symm) hseqs
  · exact h.create rfl rfl rfl rfl rfl rfl (.busy _ rest)
      (fun _ _ hb => (Reader.busy.inj hb).1.symm) hseqs
  · refine h.create rfl rfl rfl rfl rfl rfl ?_ ?_ hseqs
    · split
      · exact .header rest
      · exact .busy _ rest
    · intro k last hb
      cases pooled with
      | true => exact nomatch hb
      | false => exact (Reader.busy.inj hb).1.symm

/-- After its handler a context waits or begins to write. -/
theorem handleRequestFunc_cases {handler : Option Handler} {outcome : Outcome} {phase : Phase}
    (h : handleRequestFunc app handler outcome = some phase) :
    phase = .pending ∨ ∃ rsp, phase = .writing rsp 0 := by
  unfold handleRequestFunc at h
  split at h
  · exact .inr ⟨_, (Option.some.inj h).symm⟩
  · exact .inr ⟨_, (Option.some.inj h).symm⟩
  · exact .inl (Option.some.inj h).symm
  · exact .inr ⟨_, (Option.some.inj h).symm⟩
  · simp at h

theorem Inv.step {s t : Connection} {e : Event} (h : Inv reqs z s) (hturn : TakesTurns s e)
    (hs : StepsTo app pooled s e t) : Inv reqs z t := by
  cases hs with
  | header hr hlen =>
    obtain ⟨rest, hstream, hseqs⟩ := h.stream
    rw [hr] at hstream
    obtain ⟨hcontexts, hout, hbusy, hstream'⟩ := hstream.afterHeader app rfl
    exact
      { serial := by rw [Connection.writers, hcontexts, hout]; exact h.serial
        stream := ⟨rest, hstream', by rw [hcontexts]; exact hseqs⟩
        busy := fun k last hb => absurd hb (hbusy k last)
        sound := by rw [hcontexts]; exact h.sound }
  | headerError hr hlen =>
    obtain ⟨rest, hstream, -⟩ := h.stream
    rw [hr] at hstream
    have := hstream.length_header
    omega
  | payload hr hlen => exact h.handleRequest hr
  | payloadError hr hlen =>
    obtain ⟨rest, hstream, -⟩ := h.stream
    rw [hr] at hstream
    have := hstream.length_payload
    omega
  | @invoke k c handler outcome phase hk hp ho =>
    have hw : s.writers[k]? = some ([], 0) := by
      rw [writers_getElem? hk, Context.writer, hp]
    rcases handleRequestFunc_cases ho with rfl | ⟨rsp, rfl⟩
    · exact h.move hk ⟨by simp, Nat.zero_le _⟩ rfl rfl rfl (h.serial.replace hw _)
    · exact h.move hk ⟨by simp, Nat.zero_le _⟩ rfl rfl rfl (h.serial.replace hw _)
  | @complete k c rsp hk hp =>
    have hw : s.writers[k]? = some ([], 0) := by
      rw [writers_getElem? hk, Context.writer, hp]
    exact h.move hk ⟨by simp, Nat.zero_le _⟩ rfl rfl rfl (h.serial.replace hw _)
  | @writeSome k n sent c rsp hk hp hn hle =>
    have hw : s.writers[k]? = some (frame c.sequence rsp, sent) := by
      rw [writers_getElem? hk, Context.writer, hp]
    have hsound : Context.Sound { c with phase := .writing rsp (sent + n) } := ⟨by simp, hle⟩
    exact h.move hk hsound rfl rfl rfl (h.serial.put hw hn hle hturn)
  | @writeDone k sent c rsp hk hp hall =>
    -- the frame is out, and now it is known to be
    have hw : s.writers[k]? = some (frame c.sequence rsp, (frame c.sequence rsp).length) := by
      rw [writers_getElem? hk, Context.writer, hp, hall]
    refine h.move hk ⟨by simp, Nat.le_refl _⟩ rfl rfl rfl ?_
    rw [Context.writer, set_getElem?_self hw]
    exact h.serial
  | writeFail => exact absurd hturn id

theorem inv_of_run {s : Connection} {es : List Event}
    (hturns : Along (step app pooled) TakesTurns
      { input := reqs.flatMap Request.octets ++ z.octets } es)
    (hrun : run (step app pooled) { input := reqs.flatMap Request.octets ++ z.octets } es =
      some s) : Inv reqs z s :=
  run_inv_along (fun _ _ _ h hturn he => h.step hturn (stepsTo_of_step he)) (inv_start reqs z)
    hturns hrun

/-! ## The end -/

theorem length_frame (sequence : UInt32) (payload : Bytes) :
    (frame sequence payload).length = payload.length + 8 := by
  simp only [frame, List.length_append, length_be32]
  omega

/-- The response of a context that is done. -/
def Context.response (c : Context) : UInt32 × Bytes :=
  match c.phase with
  | .done rsp => (c.sequence, rsp)
  | _ => (c.sequence, [])

theorem Context.writer_of_done {c : Context} {rsp : Bytes} (h : c.phase = .done rsp) :
    c.writer.1 = frame c.response.1 c.response.2 ∧ whole c.writer = true := by
  simp only [Context.writer, Context.response, h, whole, length_frame, true_and, and_true,
    decide_eq_true_eq]
  omega

theorem Inv.answered {s : Connection} (h : Inv reqs z s) (hfin : Finished s) :
    Answered reqs s.out := by
  obtain ⟨hended, hdone⟩ := hfin
  have hwhole : ∀ w ∈ s.writers, whole w = true := by
    rw [Connection.writers, List.forall_mem_map]
    intro c hc
    obtain ⟨rsp, hp⟩ := hdone c hc
    exact (Context.writer_of_done hp).2
  obtain ⟨fs, hout, hperm⟩ := h.serial.all hwhole
  have hframes : s.writers.map Prod.fst =
      (s.contexts.map Context.response).map fun r => frame r.1 r.2 := by
    rw [Connection.writers, List.map_map, List.map_map]
    apply List.map_congr_left
    intro c hc
    obtain ⟨rsp, hp⟩ := hdone c hc
    exact (Context.writer_of_done hp).1
  -- the frames in the order of the output are responses in that order
  rw [hframes] at hperm
  obtain ⟨rsps, rfl, hrsps⟩ : ∃ rsps : List (UInt32 × Bytes),
      fs = rsps.map (fun r => frame r.1 r.2) ∧ rsps.Perm (s.contexts.map Context.response) := by
    have := congrFun (congrFun (List.eq_map_comp_perm fun r : UInt32 × Bytes => frame r.1 r.2) fs)
      (s.contexts.map Context.response)
    exact this.mpr hperm
  have hseqs : (s.contexts.map Context.response).map Prod.fst =
      reqs.map Request.sequence := by
    obtain ⟨rest, hstream, hseqs⟩ := h.stream
    rw [hended] at hstream
    cases hstream with
    | ended =>
      rw [← hseqs, List.map_nil, List.append_nil, List.map_map]
      apply List.map_congr_left
      intro c _
      simp only [Function.comp_apply, Context.response]
      split <;> rfl
  exact ⟨rsps, by rw [hout, List.flatMap_def], hseqs ▸ hrsps.map Prod.fst⟩

/-- A context that is writing, its frame as a writer. -/
theorem writer_eq_of_cut {c : Context} {n : Nat} (h : cutAt c.writer.1 c.writer.2 = some n) :
    ∃ rsp sent, c.phase = .writing rsp sent ∧ 0 < sent ∧ sent < (frame c.sequence rsp).length := by
  unfold Context.writer at h
  split at h
  · rename_i rsp sent hp
    unfold cutAt at h
    split at h
    · exact ⟨rsp, sent, hp, ‹_ ∧ _›⟩
    · simp at h
  · simp [cutAt] at h
  · simp [cutAt] at h

/-- The frame of a response is gone on with. -/
theorem isSome_writeSome {s : Connection} {k : Nat} {c : Context} {rsp : Bytes} {sent : Nat}
    (hk : s.contexts[k]? = some c) (hp : c.phase = .writing rsp sent)
    (hlt : sent < (frame c.sequence rsp).length) :
    (step app pooled s (.writeSome k 1)).isSome = true := by
  have hle : 0 < 1 ∧ sent + 1 ≤ (frame c.sequence rsp).length := ⟨by omega, hlt⟩
  simp only [step, Event.context, Option.bind_some, hk, contextStep, hp]
  rw [if_pos hle]
  rfl

/-- The response in the middle of its frame can go on, and another one when there is none. -/
theorem Inv.exists_write {s : Connection} (h : Inv reqs z s) {k : Nat} {c : Context}
    {rsp : Bytes} {sent : Nat} (hk : s.contexts[k]? = some c)
    (hp : c.phase = .writing rsp sent) :
    ∃ e, TakesTurns s e ∧ (Driver.step app pooled s e).isSome = true := by
  have hle : sent ≤ (frame c.sequence rsp).length := by
    have hsound := (h.sound c (List.mem_of_getElem? hk)).2
    rwa [Context.writer, hp] at hsound
  obtain ⟨fs, t, -, -, htail⟩ := h.serial
  rcases htail with ⟨-, hnone⟩ | ⟨j, f, n, hj, -, hothers⟩
  · rcases Nat.lt_or_eq_of_le hle with hlt | hall
    · refine ⟨.writeSome k 1, fun i w _ hw => ?_, isSome_writeSome hk hp hlt⟩
      exact hnone (w.1, cutAt w.1 w.2) (List.mem_map.mpr ⟨w, List.mem_of_getElem? hw, rfl⟩)
    · refine ⟨.writeDone k, trivial, ?_⟩
      simp [Driver.step, Event.context, hk, contextStep, hp, hall]
  · -- the `j`-th context is the only one in the middle of its frame
    rw [cuts, Connection.writers, List.map_map, List.getElem?_map] at hj
    obtain ⟨d, hd, heq⟩ := Option.map_eq_some_iff.mp hj
    obtain ⟨rsp', sent', hp', -, hlt⟩ := writer_eq_of_cut (Prod.mk.inj heq).2
    refine ⟨.writeSome j 1, fun i w hi hw => ?_, isSome_writeSome hd hp' hlt⟩
    exact hothers i (w.1, cutAt w.1 w.2) hi (cuts_getElem? hw)

/-- **The connection goes on until it is finished.** -/
theorem Inv.progress {s : Connection} (h : Inv reqs z s) (hfin : ¬ Finished s) :
    ∃ e, TakesTurns s e ∧ (Driver.step app pooled s e).isSome = true := by
  by_cases hdone : ∀ c ∈ s.contexts, ∃ rsp, c.phase = .done rsp
  · -- every response is written, so the reader has more to read
    obtain ⟨rest, hstream, -⟩ := h.stream
    cases hr : s.reader with
    | ended => exact absurd ⟨hr, hdone⟩ hfin
    | header =>
      rw [hr] at hstream
      exact ⟨.header, trivial, by simp [Driver.step, hr, hstream.length_header]⟩
    | payload sequence size =>
      rw [hr] at hstream
      exact ⟨.payload, trivial, by simp [Driver.step, hr, hstream.length_payload]⟩
    | busy k last =>
      obtain ⟨c, hc, hfrees⟩ := h.busy k last hr
      obtain ⟨rsp, hp⟩ := hdone c (List.mem_of_getElem? hc)
      simp [hp, Phase.frees] at hfrees
  · push Not at hdone
    obtain ⟨c, hc, hnot⟩ := hdone
    obtain ⟨k, hk⟩ := List.mem_iff_getElem?.mp hc
    cases hp : c.phase with
    | done rsp => exact absurd hp (hnot rsp)
    | failed => exact absurd hp (h.sound c hc).1
    | pending =>
      refine ⟨.complete k [], trivial, ?_⟩
      simp [Driver.step, Event.context, hk, contextStep, hp]
    | queued handler =>
      have ho : ∃ outcome, (handleRequestFunc app handler outcome).isSome = true := by
        rcases handler with _ | _ | _
        · exact ⟨.accepted, rfl⟩
        · exact ⟨.returned [], rfl⟩
        · exact ⟨.accepted, rfl⟩
      obtain ⟨outcome, ho⟩ := ho
      refine ⟨.invoke k outcome, trivial, ?_⟩
      simp [Driver.step, Event.context, hk, contextStep, hp, ho]
    | writing rsp sent => exact h.exists_write hk hp

/-- **One response for each request.** The stream is requests and a zero header.  In every run
    in which responses are written one at a time and no write fails, the output of a
    connection that has finished is one whole frame for each request, with its sequence, and
    nothing else; and a connection that has not finished can go on. -/
theorem answered_of_turns {s : Connection} {es : List Event}
    (hturns : Along (step app pooled) TakesTurns
      { input := reqs.flatMap Request.octets ++ z.octets } es)
    (hrun : run (step app pooled) { input := reqs.flatMap Request.octets ++ z.octets } es =
      some s) :
    (Finished s → Answered reqs s.out) ∧
      (¬ Finished s → ∃ e, TakesTurns s e ∧ (step app pooled s e).isSome = true) :=
  ⟨(inv_of_run hturns hrun).answered, (inv_of_run hturns hrun).progress⟩

/-! ## Runs -/

/-- Every request has an async handler. -/
def asyncApp : App where
  read payload := .object payload []
  find _ _ := some .async
  errorText := id

def requestA : Request := ⟨1, [97], by decide, by decide, by decide⟩
def requestB : Request := ⟨2, [98], by decide, by decide, by decide⟩

/-- Two requests and a zero header. -/
def twoRequestsInput : Bytes :=
  [requestA, requestB].flatMap Request.octets ++ [0, 0, 0, 0, 0, 0, 0, 0]

/-- Two requests and a zero header are read, and both handlers have called back, in the other
    order. -/
def twoRequests : List Event :=
  [.header, .payload, .header, .payload, .header, .invoke 0 .accepted, .invoke 1 .accepted,
    .complete 1 [66], .complete 0 [65]]

/-- The responses are written one after the other. -/
theorem twoRequests_answered :
    ∃ s, run (step asyncApp true) { input := twoRequestsInput }
        (twoRequests ++
          [.writeSome 1 4, .writeSome 1 5, .writeDone 1, .writeSome 0 9, .writeDone 0]) = some s ∧
      Finished s ∧ Answered [requestA, requestB] s.out := by
  have hfin : (run (step asyncApp true) { input := twoRequestsInput }
      (twoRequests ++
        [.writeSome 1 4, .writeSome 1 5, .writeDone 1, .writeSome 0 9, .writeDone 0])).map
      (fun s => (s.reader, s.contexts)) =
      some (.ended, [⟨1, .done [65]⟩, ⟨2, .done [66]⟩]) := by decide +kernel
  obtain ⟨s, hrun, hs⟩ := Option.map_eq_some_iff.mp hfin
  obtain ⟨hreader, hcontexts⟩ := Prod.mk.inj hs
  have hfinished : Finished s := ⟨hreader, by simp [hcontexts]⟩
  have hanswered := answered_of_turns (z := ⟨0, 0, .inl rfl, []⟩) (by decide +kernel) hrun
  exact ⟨s, hrun, hfinished, hanswered.1 hfinished⟩

/-- The first frame of an output. -/
theorem frame_of_append {out payload : Bytes} {sequence : UInt32} (rest : Bytes)
    (h : out = frame sequence payload ++ rest) :
    readBe32 (out.take 4) = sequence ∧
      readBe32 ((out.drop 4).take 4) = UInt32.ofNat payload.length ∧
      out.drop 8 = payload ++ rest := by
  rw [h, frame, List.append_assoc]
  exact header_of_append sequence (UInt32.ofNat payload.length) (payload ++ rest)

/-- A request is answered and the stream ends after it: a frame of sequence zero follows. -/
theorem endOfStream_not_answered :
    ∃ s, run (step asyncApp true) { input := requestA.octets }
        [.header, .payload, .invoke 0 .accepted, .complete 0 [65], .writeSome 0 9, .writeDone 0,
          .headerError (ascii "End of file"), .writeSome 1 19, .writeDone 1] = some s ∧
      Finished s ∧ s.out = frame 1 [65] ++ frame 0 (ascii "End of file") ∧
      ¬ Answered [requestA] s.out := by
  have hend : (run (step asyncApp true) { input := requestA.octets }
      [.header, .payload, .invoke 0 .accepted, .complete 0 [65], .writeSome 0 9, .writeDone 0,
        .headerError (ascii "End of file"), .writeSome 1 19, .writeDone 1]).map
      (fun s => (s.reader, s.contexts, s.out)) =
      some (.ended, [⟨1, .done [65]⟩, ⟨0, .done (ascii "End of file")⟩],
        frame 1 [65] ++ frame 0 (ascii "End of file")) := by decide +kernel
  obtain ⟨s, hrun, hs⟩ := Option.map_eq_some_iff.mp hend
  obtain ⟨hreader, hs⟩ := Prod.mk.inj hs
  obtain ⟨hcontexts, hout⟩ := Prod.mk.inj hs
  refine ⟨s, hrun, ⟨hreader, by simp [hcontexts]⟩, hout, ?_⟩
  rintro ⟨rsps, hrsps, hperm⟩
  -- one response would have to be the whole output
  obtain ⟨r, rfl⟩ := List.length_eq_one_iff.mp (by simpa using hperm.length_eq)
  obtain ⟨-, hsize, hpayload⟩ := frame_of_append [] (by simpa using hrsps)
  rw [hout] at hsize hpayload
  rw [List.append_nil] at hpayload
  rw [← hpayload] at hsize
  exact absurd hsize (by decide +kernel)

/-- **A torn frame.** The fiber of the second request writes its response after four bytes of
    the first one's. -/
theorem interleaved_not_answered :
    ∃ s, run (step asyncApp true) { input := twoRequestsInput }
        (twoRequests ++
          [.writeSome 0 4, .writeSome 1 9, .writeDone 1, .writeSome 0 5, .writeDone 0]) = some s ∧
      Finished s ∧ ¬ Answered [requestA, requestB] s.out := by
  have hend : (run (step asyncApp true) { input := twoRequestsInput }
      (twoRequests ++
        [.writeSome 0 4, .writeSome 1 9, .writeDone 1, .writeSome 0 5, .writeDone 0])).map
      (fun s => (s.reader, s.contexts, s.out)) =
      some (.ended, [⟨1, .done [65]⟩, ⟨2, .done [66]⟩],
        [0, 0, 0, 1, 0, 0, 0, 2, 0, 0, 0, 1, 66, 0, 0, 0, 1, 65]) := by decide +kernel
  obtain ⟨s, hrun, hs⟩ := Option.map_eq_some_iff.mp hend
  obtain ⟨hreader, hs⟩ := Prod.mk.inj hs
  obtain ⟨hcontexts, hout⟩ := Prod.mk.inj hs
  refine ⟨s, hrun, ⟨hreader, by simp [hcontexts]⟩, ?_⟩
  rintro ⟨rsps, hrsps, hperm⟩
  obtain ⟨r₁, r₂, rfl⟩ := List.length_eq_two.mp (by simpa using hperm.length_eq)
  rw [hout] at hrsps
  obtain ⟨-, hsize, hrest⟩ := frame_of_append (frame r₂.1 r₂.2) (by simpa using hrsps)
  -- the first payload would be of two bytes, so the second frame begins at the eleventh byte
  have hlen : r₁.2.length + r₂.2.length = 2 := by
    have := congrArg List.length hrsps
    simp [length_frame] at this
    omega
  have hlen₁ : r₁.2.length = 2 := by
    have := congrArg UInt32.toNat hsize
    rw [UInt32.toNat_ofNat', Nat.mod_eq_of_lt (by omega)] at this
    exact this.symm.trans (by decide +kernel)
  have hsecond := congrArg (List.drop 2) hrest
  rw [List.drop_left' hlen₁, ← List.append_nil (frame r₂.1 r₂.2)] at hsecond
  have hsequence := (frame_of_append [] hsecond).1
  have hmem : r₂.1 ∈ [requestA, requestB].map Request.sequence := hperm.subset (by simp)
  rw [← hsequence] at hmem
  exact absurd hmem (by decide +kernel)

end FiberProxy.Server.Driver
