/-
  FiberProxy.Server.PortForwardConnection

  A forwarded connection.  `PortForwardConnection::start` carries what the client sends
  to the backend, and `handle_forward_rsp` (`forward-manager/FibpPortForwardMgr.cpp`) what
  the backend sends to the client.  Each of them is a fiber with a loop of its own: read
  some bytes, write all of them, until a read or a write gives an error.  The end of a
  stream is such an error.

  A loop that ends shuts down the receive sides of both sockets.  After `start` the
  connection and its socket are gone; `ClientSession::async_read_some` closes the
  backend's socket at the end of the stream.  So the first loop to end takes away what
  the other one still needs: what the other side has not got through by then is lost
  (`relayed_iff`).  What does come through comes in order and once
  (`delivered_prefix_of_run`), and the loops do not go round without bytes to carry
  (`rests_of_run`).
-/

import FiberProxy.Lib.Bytes
import FiberProxy.Lib.Lists
import FiberProxy.Lib.Run

namespace FiberProxy.Server.PortForwardConnection

open Lib

inductive Side where
  | client
  | backend
deriving DecidableEq, Repr

def Side.other : Side → Side
  | .client => .backend
  | .backend => .client

/-- Where a loop stands. -/
inductive Phase where
  | reading
  | writing
  | done
deriving DecidableEq, Repr

/-- What one side sends, with the loop that carries it to the other. -/
structure Line where
  sent : Bytes := []
  /-- The side has closed its sending direction. -/
  closed : Bool := false
  /-- What has been sent and not been read by the loop. -/
  queue : Bytes := []
  /-- What the loop has read and not yet written. -/
  buf : Bytes := []
  phase : Phase := .reading
  delivered : Bytes := []
deriving DecidableEq, Repr

/-- A connection after `chain_forward_connection`. -/
structure State where
  line : Side → Line := fun _ => {}
  /-- The socket to this side: `socket_` of the connection, `socket_` of the session. -/
  isOpen : Side → Bool := fun _ => true
  /-- `shutdown_receive`, which a loop that ends does on both sockets. -/
  shut : Bool := false

inductive Event where
  | send (d : Side) (bytes : Bytes)
  /-- The side closes its sending direction. -/
  | close (d : Side)
  /-- A read of `n` bytes by the loop that carries what `d` sends. -/
  | read (d : Side) (n : Nat)
  | readEof (d : Side)
  | readFail (d : Side)
  /-- `async_write` gets `n` bytes out. -/
  | write (d : Side) (n : Nat)
  | writeFail (d : Side)
deriving DecidableEq, Repr

/-- `buf.resize(10240)`. -/
def bufSize : Nat := 10240

def State.set (s : State) (d : Side) (l : Line) : State :=
  { s with line := Function.update s.line d l }

/-- The sockets after a loop: `start` returns and the connection goes with its socket;
    `async_read_some` closes the session's socket at the end of the stream only. -/
def opened (isOpen : Side → Bool) (d : Side) (eof : Bool) : Side → Bool :=
  match d with
  | .client => Function.update isOpen .client false
  | .backend => if eof then Function.update isOpen .backend false else isOpen

/-- The loop is left. -/
def State.finish (s : State) (d : Side) (eof : Bool) : State :=
  { line := Function.update s.line d { s.line d with phase := .done }
    isOpen := opened s.isOpen d eof
    shut := true }

def step (s : State) : Event → Option State
  | .send d bytes =>
    if (s.line d).closed = false then
      some (s.set d { s.line d with
        sent := (s.line d).sent ++ bytes, queue := (s.line d).queue ++ bytes })
    else none
  | .close d => some (s.set d { s.line d with closed := true })
  | .read d n =>
    if (s.line d).phase = .reading ∧ 0 < n ∧ n ≤ bufSize ∧ n ≤ (s.line d).queue.length then
      some (s.set d { s.line d with
        queue := (s.line d).queue.drop n, buf := (s.line d).queue.take n, phase := .writing })
    else none
  | .readEof d =>
    -- bytes that came before are read first
    if (s.line d).phase = .reading ∧ (s.line d).queue = [] ∧
        ((s.line d).closed = true ∨ s.shut = true) then some (s.finish d true)
    else none
  | .readFail d => if (s.line d).phase = .reading then some (s.finish d false) else none
  | .write d n =>
    if (s.line d).phase = .writing ∧ s.isOpen d.other = true ∧ 0 < n ∧
        n ≤ (s.line d).buf.length then
      some (s.set d { s.line d with
        delivered := (s.line d).delivered ++ (s.line d).buf.take n
        buf := (s.line d).buf.drop n
        phase := if n = (s.line d).buf.length then .reading else .writing })
    else none
  | .writeFail d => if (s.line d).phase = .writing then some (s.finish d false) else none

/-! ## What the relay is for -/

/-- The loop has ended, or has nothing to do until more is sent. -/
def Idle (s : State) (d : Side) : Prop :=
  (s.line d).phase = .done ∨
    (s.line d).phase = .reading ∧ (s.line d).queue = [] ∧ (s.line d).closed = false ∧ s.shut = false

/-- **A faithful relay**: what has been delivered is the beginning of what was sent, and all
    of it once the loop has nothing left to do. -/
def Faithful (s : State) : Prop :=
  ∀ d, (s.line d).delivered <+: (s.line d).sent ∧
    (Idle s d → (s.line d).delivered = (s.line d).sent)

/-- Reads do not fail, and writes only on a socket that the relay itself has closed. -/
def Steady (s : State) : Event → Prop
  | .readFail _ => False
  | .writeFail d => s.isOpen d.other = false
  | _ => True

/-- Besides, a loop reads the end of its side's stream only when the other side has got
    through everything it has sent, and that side sends nothing afterwards. -/
def Orderly (s : State) : Event → Prop
  | .send d bytes => bytes = [] ∨ (s.line d.other).phase ≠ .done
  | .readEof d => (s.line d.other).delivered = (s.line d.other).sent
  | e => Steady s e

instance (s : State) (e : Event) : Decidable (Orderly s e) :=
  match e with
  | .send d bytes => inferInstanceAs (Decidable (bytes = [] ∨ (s.line d.other).phase ≠ .done))
  | .readEof d => inferInstanceAs (Decidable ((s.line d.other).delivered = (s.line d.other).sent))
  | .readFail _ => .isFalse id
  | .writeFail d => inferInstanceAs (Decidable (s.isOpen d.other = false))
  | .close _ | .read _ _ | .write _ _ => .isTrue trivial

/-! ## The steps -/

/-- What one step can do. -/
inductive StepsTo (s : State) : Event → State → Prop where
  | send (d : Side) (bytes : Bytes) (hopen : (s.line d).closed = false) :
      StepsTo s (.send d bytes) (s.set d { s.line d with
        sent := (s.line d).sent ++ bytes, queue := (s.line d).queue ++ bytes })
  | close (d : Side) : StepsTo s (.close d) (s.set d { s.line d with closed := true })
  | read (d : Side) {n : Nat} (hp : (s.line d).phase = .reading) (hn : 0 < n)
      (hlen : n ≤ (s.line d).queue.length) :
      StepsTo s (.read d n) (s.set d { s.line d with
        queue := (s.line d).queue.drop n, buf := (s.line d).queue.take n, phase := .writing })
  | readEof (d : Side) (hp : (s.line d).phase = .reading) (hqueue : (s.line d).queue = [])
      (heof : (s.line d).closed = true ∨ s.shut = true) : StepsTo s (.readEof d) (s.finish d true)
  | readFail (d : Side) (hp : (s.line d).phase = .reading) :
      StepsTo s (.readFail d) (s.finish d false)
  | write (d : Side) {n : Nat} (hp : (s.line d).phase = .writing)
      (hopen : s.isOpen d.other = true) (hn : 0 < n) (hlen : n ≤ (s.line d).buf.length) :
      StepsTo s (.write d n) (s.set d { s.line d with
        delivered := (s.line d).delivered ++ (s.line d).buf.take n
        buf := (s.line d).buf.drop n
        phase := if n = (s.line d).buf.length then .reading else .writing })
  | writeFail (d : Side) (hp : (s.line d).phase = .writing) :
      StepsTo s (.writeFail d) (s.finish d false)

theorem stepsTo_of_step {s s' : State} {e : Event} (h : step s e = some s') : StepsTo s e s' := by
  cases e with
  | close d =>
    cases h
    exact .close d
  | send d bytes =>
    obtain ⟨hopen, h⟩ := Option.ite_none_right_eq_some.mp h
    cases h
    exact .send d bytes hopen
  | read d n =>
    obtain ⟨⟨hp, hn, -, hlen⟩, h⟩ := Option.ite_none_right_eq_some.mp h
    cases h
    exact .read d hp hn hlen
  | readEof d =>
    obtain ⟨⟨hp, hqueue, heof⟩, h⟩ := Option.ite_none_right_eq_some.mp h
    cases h
    exact .readEof d hp hqueue heof
  | readFail d =>
    obtain ⟨hp, h⟩ := Option.ite_none_right_eq_some.mp h
    cases h
    exact .readFail d hp
  | write d n =>
    obtain ⟨⟨hp, hopen, hn, hlen⟩, h⟩ := Option.ite_none_right_eq_some.mp h
    cases h
    exact .write d hp hopen hn hlen
  | writeFail d =>
    obtain ⟨hp, h⟩ := Option.ite_none_right_eq_some.mp h
    cases h
    exact .writeFail d hp

/-- A write leaves its loop running. -/
theorem phase_write {n m : Nat} {phase : Phase} (hp : phase = .writing) :
    (if n = m then Phase.reading else .writing) = .done ↔ phase = .done := by
  rw [hp]
  split <;> simp

/-! ## In order, nothing twice -/

/-- Whatever was sent is delivered, held or waiting, in this order. -/
structure Line.Ok (l : Line) : Prop where
  conserved : l.sent = l.delivered ++ l.buf ++ l.queue
  reading : l.phase = .reading → l.buf = []
  writing : l.phase = .writing → l.buf ≠ []

section Line

variable {l : Line}

theorem Line.Ok.delivered_prefix_sent (h : l.Ok) : l.delivered <+: l.sent := by
  rw [h.conserved, List.append_assoc]
  exact List.prefix_append _ _

/-- Everything is delivered when nothing is held or waiting. -/
theorem Line.Ok.delivered_eq_iff (h : l.Ok) :
    l.delivered = l.sent ↔ l.buf = [] ∧ l.queue = [] := by
  rw [h.conserved, List.append_assoc, List.self_eq_append_right, List.append_eq_nil_iff]

theorem ok_send (h : l.Ok) (bytes : Bytes) :
    Line.Ok { l with sent := l.sent ++ bytes, queue := l.queue ++ bytes } :=
  ⟨by simp [h.conserved], h.reading, h.writing⟩

theorem ok_close (h : l.Ok) : Line.Ok { l with closed := true } :=
  ⟨h.conserved, h.reading, h.writing⟩

theorem ok_read {n : Nat} (h : l.Ok) (hp : l.phase = .reading) (hn : 0 < n)
    (hlen : n ≤ l.queue.length) :
    Line.Ok { l with queue := l.queue.drop n, buf := l.queue.take n, phase := .writing } := by
  refine ⟨?_, by simp, fun _ => take_ne_nil hn hlen⟩
  simp [h.conserved, h.reading hp]

theorem ok_write {n : Nat} (h : l.Ok) (hn : n ≤ l.buf.length) :
    Line.Ok { l with
      delivered := l.delivered ++ l.buf.take n
      buf := l.buf.drop n
      phase := if n = l.buf.length then .reading else .writing } := by
  refine ⟨?_, fun hp => ?_, fun hp => ?_⟩
  · change l.sent = l.delivered ++ l.buf.take n ++ l.buf.drop n ++ l.queue
    rw [h.conserved, List.append_assoc l.delivered (l.buf.take n), List.take_append_drop]
  · have hall : n = l.buf.length := by
      by_contra hne
      simp [hne] at hp
    simp [hall]
  · have hne : n ≠ l.buf.length := by
      rintro rfl
      simp at hp
    simp only [ne_eq, List.drop_eq_nil_iff, not_le]
    omega

theorem ok_over (h : l.Ok) : Line.Ok { l with phase := .done } := ⟨h.conserved, by simp, by simp⟩

end Line

theorem forall_ok_update {line : Side → Line} {d : Side} {l : Line} (h : ∀ d, (line d).Ok)
    (hl : l.Ok) (d' : Side) : (Function.update line d l d').Ok := by
  by_cases hd : d' = d
  · rw [hd, Function.update_self]
    exact hl
  · rw [Function.update_of_ne hd]
    exact h d'

section Step

variable {s s' : State}

theorem ok_step {e : Event} (h : ∀ d, (s.line d).Ok) (hstep : step s e = some s') (d : Side) :
    (s'.line d).Ok := by
  cases stepsTo_of_step hstep with
  | send d' bytes => exact forall_ok_update h (ok_send (h d') bytes) d
  | close d' => exact forall_ok_update h (ok_close (h d')) d
  | read d' hp hn hlen => exact forall_ok_update h (ok_read (h d') hp hn hlen) d
  | write d' _ _ _ hlen => exact forall_ok_update h (ok_write (h d') hlen) d
  | readEof d' | readFail d' | writeFail d' => exact forall_ok_update h (ok_over (h d')) d

theorem ok_start (d : Side) : (({} : State).line d).Ok := ⟨rfl, fun _ => rfl, by simp⟩

/-- **In order, nothing twice.** In every run, whatever fails and whoever closes, the bytes
    delivered are the first bytes sent. -/
theorem delivered_prefix_of_run {es : List Event} (hrun : run step {} es = some s) (d : Side) :
    (s.line d).delivered <+: (s.line d).sent :=
  (run_inv (fun _ _ _ h hs => ok_step h hs) ok_start hrun d).delivered_prefix_sent

/-- A step of a loop; the others are those of the two sides. -/
def Event.ofLoop : Event → Bool
  | .send _ _ | .close _ => false
  | _ => true

/-- A loop that is not idle can go on: it reads, writes, or ends. -/
theorem exists_step_of_not_idle {d : Side} (h : (s.line d).Ok) (hidle : ¬ Idle s d) :
    ∃ e, e.ofLoop = true ∧ (step s e).isSome = true := by
  simp only [Idle, not_or, not_and] at hidle
  obtain ⟨hover, hwaits⟩ := hidle
  cases hp : (s.line d).phase with
  | done => exact absurd hp hover
  | reading =>
    by_cases hqueue : (s.line d).queue = []
    · refine ⟨.readEof d, rfl, ?_⟩
      have heof : (s.line d).closed = true ∨ s.shut = true := by
        have := hwaits hp hqueue
        cases hclosed : (s.line d).closed <;> simp_all
      simp [step, hp, hqueue, heof]
    · have hlen := List.length_pos_iff.mpr hqueue
      exact ⟨.read d 1, rfl, by simp [step, hp, bufSize, Nat.succ_le_of_lt hlen]⟩
  | writing =>
    have hlen := List.length_pos_iff.mpr (h.writing hp)
    cases hopen : s.isOpen d.other with
    | true =>
      exact ⟨.write d 1, rfl, by simp [step, hp, hopen, Nat.succ_le_of_lt hlen]⟩
    | false => exact ⟨.writeFail d, rfl, by simp [step, hp]⟩

end Step

/-- What the loop of a line still has to do, if nothing more is sent. -/
def Line.work (l : Line) : Nat :=
  2 * l.queue.length + l.buf.length + if l.phase = .done then 0 else 1

def State.work (s : State) : Nat := (s.line .client).work + (s.line .backend).work

section Work

variable {s s' : State} {d : Side}

theorem work_update {l : Line} (h : l.work < (s.line d).work)
    (hs' : s'.line = Function.update s.line d l) : s'.work < s.work := by
  cases d <;> simp only [State.work, hs', Function.update_self] <;>
    rw [Function.update_of_ne (by simp)] <;> omega

theorem work_step {e : Event} (h : ∀ d, (s.line d).Ok) (hstep : step s e = some s')
    (hloop : e.ofLoop = true) : s'.work < s.work := by
  cases stepsTo_of_step hstep with
  | send | close => cases hloop
  | read d hp hn hlen =>
    refine work_update (d := d) ?_ rfl
    simp only [Line.work, hp, (h d).reading hp, List.length_drop, List.length_take,
      List.length_nil, reduceCtorEq, if_false]
    omega
  | write d hp _ hn hlen =>
    refine work_update (d := d) ?_ rfl
    simp only [Line.work, hp, phase_write hp, List.length_drop, reduceCtorEq, if_false]
    omega
  | readEof d hp | readFail d hp | writeFail d hp =>
    refine work_update (d := d) ?_ rfl
    simp [Line.work, hp]

/-- **The loops come to rest.**  Without new bytes they can take only so many steps, and when
    none is left, both have ended or wait for more. -/
theorem rests_of_run {es fs : List Event} {t : State} (hrun : run step {} es = some s)
    (hloop : ∀ e ∈ fs, Event.ofLoop e = true) (hfs : run step s fs = some t) :
    fs.length ≤ s.work ∧
      ((∀ e, Event.ofLoop e = true → step t e = none) → ∀ d, Idle t d) := by
  have hok : ∀ d, (s.line d).Ok := run_inv (fun _ _ _ h hs => ok_step h hs) ok_start hrun
  clear hrun
  induction fs generalizing s with
  | nil =>
    obtain rfl := Option.some.inj hfs
    refine ⟨Nat.zero_le _, fun hstuck d => ?_⟩
    by_contra hidle
    obtain ⟨e, he, hsome⟩ := exists_step_of_not_idle (hok d) hidle
    rw [hstuck e he] at hsome
    cases hsome
  | cons e fs ih =>
    obtain ⟨s', he, hfs⟩ := run_cons_eq_some.mp hfs
    obtain ⟨hel, hloop⟩ := List.forall_mem_cons.mp hloop
    obtain ⟨hlen, hrest⟩ := ih hloop hfs (ok_step hok he)
    have hlt := work_step hok he hel
    exact ⟨by rw [List.length_cons]; omega, hrest⟩

end Work

/-! ## Nothing lost -/

theorem Side.eq_or_eq_other (d d' : Side) : d' = d ∨ d' = d.other := by
  cases d <;> cases d' <;> simp [Side.other]

@[simp] theorem Side.other_ne (d : Side) : d.other ≠ d := by cases d <;> simp [Side.other]

@[simp] theorem Side.other_other (d : Side) : d.other.other = d := by cases d <;> rfl

/-- Where a loop has ended both sides have got through what they have sent, and no more
    will come. -/
structure Inv (s : State) : Prop where
  ok : ∀ d, (s.line d).Ok
  complete : ∀ d, (s.line d).phase = .done → ∀ d', (s.line d').delivered = (s.line d').sent
  cause : ∀ d, (s.line d).phase = .done →
    (s.line d).closed = true ∨ (s.line d.other).phase = .done
  shut : s.shut = true → ∃ d, (s.line d).phase = .done
  isOpen : ∀ d, s.isOpen d = false → (s.line d).phase = .done

section Orderly

variable {s s' : State} {d : Side}

@[simp] theorem line_set_self (s : State) (d : Side) (l : Line) : (s.set d l).line d = l :=
  Function.update_self ..

theorem line_set_of_ne {d' : Side} (hd : d' ≠ d) (s : State) (l : Line) :
    (s.set d l).line d' = s.line d' :=
  Function.update_of_ne hd ..

/-- A loop that goes on stays, as far as its end is concerned, what it was. -/
theorem over_set {l : Line} (hphase : l.phase = .done ↔ (s.line d).phase = .done) (d' : Side) :
    ((s.set d l).line d').phase = .done ↔ (s.line d').phase = .done := by
  by_cases hd : d' = d
  · rw [hd, line_set_self, hphase]
  · rw [line_set_of_ne hd]

@[simp] theorem line_finish_self (s : State) (d : Side) (eof : Bool) :
    (s.finish d eof).line d = { s.line d with phase := .done } :=
  Function.update_self ..

theorem line_finish_of_ne {d' : Side} (hd : d' ≠ d) (s : State) (eof : Bool) :
    (s.finish d eof).line d' = s.line d' :=
  Function.update_of_ne hd ..

/-- A socket that is closed after a loop was closed by it or before. -/
theorem eq_or_of_isOpen_finish {d' : Side} {eof : Bool}
    (h : (s.finish d eof).isOpen d' = false) : d' = d ∨ s.isOpen d' = false := by
  cases d <;> cases d' <;> cases eof <;> simp_all [State.finish, opened]

/-- Something happens to a line whose loop goes on. -/
theorem inv_set {l : Line} (h : Inv s) (hok : l.Ok)
    (hphase : l.phase = .done ↔ (s.line d).phase = .done)
    (hclosed : (s.line d).closed = true → l.closed = true)
    (hcomplete : ∀ d', (s.line d').phase = .done → l.delivered = l.sent) : Inv (s.set d l) := by
  have hover := over_set (d := d) hphase
  refine ⟨forall_ok_update h.ok hok, fun d₁ h₁ d₂ => ?_, fun d₁ h₁ => ?_, fun hshut => ?_,
    fun d₁ hopen => (hover d₁).mpr (h.isOpen d₁ hopen)⟩
  · rw [hover] at h₁
    by_cases hd : d₂ = d
    · rw [hd, line_set_self]
      exact hcomplete d₁ h₁
    · rw [line_set_of_ne hd]
      exact h.complete d₁ h₁ d₂
  · rw [hover] at h₁ ⊢
    refine (h.cause d₁ h₁).imp_left fun hc => ?_
    by_cases hd : d₁ = d
    · rw [hd, line_set_self]
      exact hclosed (hd ▸ hc)
    · rwa [line_set_of_ne hd]
  · obtain ⟨d₁, h₁⟩ := h.shut hshut
    exact ⟨d₁, (hover d₁).mpr h₁⟩

theorem inv_send {bytes : Bytes} (h : Inv s) (hopen : (s.line d).closed = false)
    (hbytes : bytes = [] ∨ (s.line d.other).phase ≠ .done) :
    Inv (s.set d { s.line d with
      sent := (s.line d).sent ++ bytes, queue := (s.line d).queue ++ bytes }) := by
  refine inv_set h (ok_send (h.ok d) bytes) Iff.rfl id fun d' hover => ?_
  rcases hbytes with rfl | hother
  · simpa using h.complete d' hover d
  · -- neither loop has ended
    refine absurd hover ?_
    rcases Side.eq_or_eq_other d d' with rfl | rfl
    · intro hp
      rcases h.cause d' hp with hc | hp'
      · simp [hopen] at hc
      · exact hother hp'
    · exact hother

/-- While a loop has something to do no loop has ended. -/
theorem not_over_of_busy (h : Inv s) (hbusy : (s.line d).queue ≠ [] ∨ (s.line d).buf ≠ [])
    (d' : Side) : (s.line d').phase ≠ .done := by
  intro hover
  obtain ⟨hbuf, hqueue⟩ := (h.ok d).delivered_eq_iff.mp (h.complete d' hover d)
  exact hbusy.elim (absurd hqueue) (absurd hbuf)

theorem inv_readEof (h : Inv s) (hp : (s.line d).phase = .reading)
    (hqueue : (s.line d).queue = []) (heof : (s.line d).closed = true ∨ s.shut = true)
    (hother : (s.line d.other).delivered = (s.line d.other).sent) : Inv (s.finish d true) := by
  have hne := line_finish_of_ne d.other_ne s true
  have hover : ((s.finish d true).line d).phase = .done := by rw [line_finish_self]
  refine ⟨forall_ok_update h.ok (ok_over (h.ok d)), fun _ _ d₂ => ?_, fun d₁ h₁ => ?_,
    fun _ => ⟨d, hover⟩, fun d₁ hopen => ?_⟩
  · rcases Side.eq_or_eq_other d d₂ with rfl | rfl
    · rw [line_finish_self]
      exact (h.ok _).delivered_eq_iff.mpr ⟨(h.ok _).reading hp, hqueue⟩
    · rw [hne]
      exact hother
  · rcases Side.eq_or_eq_other d d₁ with rfl | rfl
    · rw [line_finish_self, hne]
      refine heof.imp_right fun hshut => ?_
      -- another loop has ended before, and it is not this one
      obtain ⟨d₂, h₂⟩ := h.shut hshut
      rcases Side.eq_or_eq_other d₁ d₂ with rfl | rfl
      · simp [hp] at h₂
      · exact h₂
    · rw [Side.other_other]
      exact .inr hover
  · rcases Side.eq_or_eq_other d d₁ with rfl | rfl
    · exact hover
    · rw [hne]
      exact h.isOpen _ ((eq_or_of_isOpen_finish hopen).resolve_left d.other_ne)

theorem inv_step {e : Event} (h : Inv s) (horderly : Orderly s e)
    (hstep : step s e = some s') : Inv s' := by
  cases stepsTo_of_step hstep with
  | send d bytes hopen => exact inv_send h hopen horderly
  | close d =>
    exact inv_set h (ok_close (h.ok d)) Iff.rfl (fun _ => rfl) fun d' hover =>
      h.complete d' hover d
  | read d hp hn hlen =>
    have hbusy := not_over_of_busy h (d := d) <| .inl <|
      List.length_pos_iff.mp (Nat.lt_of_lt_of_le hn hlen)
    exact inv_set h (ok_read (h.ok d) hp hn hlen) (by simp [hp]) id
      fun d' hover => absurd hover (hbusy d')
  | write d hp _ _ hlen =>
    have hbusy := not_over_of_busy h (d := d) (.inr ((h.ok d).writing hp))
    exact inv_set h (ok_write (h.ok d) hlen) (phase_write hp) id
      fun d' hover => absurd hover (hbusy d')
  | readEof d hp hqueue heof => exact inv_readEof h hp hqueue heof horderly
  | readFail d => exact horderly.elim
  | writeFail d hp =>
    -- a socket that the relay has closed has nothing more to be written to it
    exact absurd (h.isOpen d.other horderly)
      (not_over_of_busy h (d := d) (.inr ((h.ok d).writing hp)) d.other)

theorem inv_start : Inv {} :=
  ⟨ok_start, by simp, by simp, by simp, by simp⟩

theorem faithful_of_inv (h : Inv s) : Faithful s := by
  intro d
  refine ⟨(h.ok d).delivered_prefix_sent, ?_⟩
  rintro (hover | ⟨hp, hqueue, -⟩)
  · exact h.complete d hover d
  · exact (h.ok d).delivered_eq_iff.mpr ⟨(h.ok d).reading hp, hqueue⟩

/-- **A faithful relay**, in every run in which no read fails, no write fails on a socket
    that is open, and a loop reads the end of its side's stream only when the other side
    has got through everything it has sent and sends nothing more. -/
theorem faithful {es : List Event} (horderly : Along step Orderly {} es)
    (hrun : run step {} es = some s) : Faithful s :=
  faithful_of_inv (run_inv_along (fun _ _ _ h ho hs => inv_step h ho hs) inv_start horderly hrun)

end Orderly

/-- A request and its answer; then the backend closes, and the loops end one after the
    other. -/
def exchange : List Event :=
  [Event.send .client (ascii "get"), .read .client 3, .write .client 3,
    .send .backend (ascii "value"), .read .backend 5, .write .backend 2, .write .backend 3,
    .close .backend, .readEof .backend, .readEof .client]

theorem faithful_exchange :
    ∃ s, run step {} exchange = some s ∧ (s.line .client).delivered = ascii "get" ∧
      (s.line .backend).delivered = ascii "value" ∧ Faithful s := by
  have hview : (run step {} exchange).map
      (fun s => ((s.line .client).delivered, (s.line .backend).delivered)) =
      some (ascii "get", ascii "value") := by decide +kernel
  obtain ⟨s, hrun, hs⟩ := Option.map_eq_some_iff.mp hview
  obtain ⟨hclient, hbackend⟩ := Prod.mk.inj hs
  exact ⟨s, hrun, hclient, hbackend, faithful (by decide +kernel) hrun⟩

/-- The client closes its sending direction after its request; the answer comes later. -/
def halfClosed : List Event :=
  [Event.send .client (ascii "get"), .close .client, .read .client 3, .write .client 3,
    .readEof .client, .readEof .backend, .send .backend (ascii "value")]

/-- **An answer is lost.** The end of the client's stream makes `start` shut down the
    receive side of the backend's socket, so `handle_forward_rsp` ends before the backend
    has answered. -/
theorem halfClosed_lost :
    ∃ s, run step {} halfClosed = some s ∧ (s.line .client).delivered = ascii "get" ∧
      (s.line .backend).sent = ascii "value" ∧ (s.line .backend).delivered = [] ∧
      ¬ Faithful s := by
  have hview : (run step {} halfClosed).map (fun s => ((s.line .client).delivered,
      (s.line .backend).sent, (s.line .backend).delivered, (s.line .backend).phase)) =
      some (ascii "get", ascii "value", [], .done) := by decide +kernel
  obtain ⟨s, hrun, hs⟩ := Option.map_eq_some_iff.mp hview
  simp only [Prod.mk.injEq] at hs
  obtain ⟨hclient, hsent, hdelivered, hover⟩ := hs
  refine ⟨s, hrun, hclient, hsent, hdelivered, fun hfaithful => ?_⟩
  have hall := (hfaithful .backend).2 (.inl hover)
  rw [hsent, hdelivered] at hall
  exact absurd hall (by decide)

/-! ## What is lost otherwise -/

/-- What holds whatever the sides do. -/
structure Sound (s : State) : Prop where
  ok : ∀ d, (s.line d).Ok
  isOpen : ∀ d, s.isOpen d = false → (s.line d).phase = .done
  ended : ∀ d, (s.line d).phase = .done → s.isOpen d = false ∨ (s.line d.other).phase = .done

/-- Something that `d` has sent will never be delivered. -/
def Lost (s : State) (d : Side) : Prop :=
  (s.line d).delivered.length < (s.line d).sent.length ∧
    ((s.line d).phase = .done ∨ s.isOpen d.other = false)

section Lost

variable {s s' : State} {d : Side}

theorem sound_set {l : Line} (h : Sound s) (hok : l.Ok)
    (hphase : l.phase = .done ↔ (s.line d).phase = .done) : Sound (s.set d l) := by
  have hover := over_set (d := d) hphase
  refine ⟨forall_ok_update h.ok hok, fun d' hopen => (hover d').mpr (h.isOpen d' hopen),
    fun d' hd' => ?_⟩
  rw [hover] at hd' ⊢
  exact h.ended d' hd'

theorem sound_finish {eof : Bool} (h : Sound s)
    (hcause : eof = true ∨ s.isOpen d.other = false) : Sound (s.finish d eof) := by
  have hne := line_finish_of_ne d.other_ne s eof
  have hover : ((s.finish d eof).line d).phase = .done := by rw [line_finish_self]
  refine ⟨forall_ok_update h.ok (ok_over (h.ok d)), fun d' hopen => ?_, fun d' hd' => ?_⟩
  · rcases Side.eq_or_eq_other d d' with rfl | rfl
    · exact hover
    · rw [hne]
      exact h.isOpen _ ((eq_or_of_isOpen_finish hopen).resolve_left d.other_ne)
  · rcases Side.eq_or_eq_other d d' with rfl | rfl
    · rcases hcause with rfl | hclosed
      · left
        cases d' <;> simp [State.finish, opened]
      · right
        rw [hne]
        exact h.isOpen _ hclosed
    · rw [Side.other_other]
      exact .inr hover

theorem sound_step {e : Event} (h : Sound s) (hsteady : Steady s e)
    (hstep : step s e = some s') : Sound s' := by
  cases stepsTo_of_step hstep with
  | send d bytes => exact sound_set h (ok_send (h.ok d) bytes) Iff.rfl
  | close d => exact sound_set h (ok_close (h.ok d)) Iff.rfl
  | read d hp hn hlen => exact sound_set h (ok_read (h.ok d) hp hn hlen) (by simp [hp])
  | write d hp _ _ hlen => exact sound_set h (ok_write (h.ok d) hlen) (phase_write hp)
  | readEof d => exact sound_finish h (.inl rfl)
  | readFail d => exact hsteady.elim
  | writeFail d => exact sound_finish h (.inr hsteady)

theorem lost_set {d' : Side} {l : Line} (h : Lost s d)
    (hl : d = d' → l.delivered.length < l.sent.length)
    (hphase : l.phase = .done ↔ (s.line d').phase = .done) : Lost (s.set d' l) d := by
  refine ⟨?_, h.2.imp_left (over_set hphase d).mpr⟩
  by_cases hd : d = d'
  · rw [hd, line_set_self]
    exact hl hd
  · rw [line_set_of_ne hd]
    exact h.1

theorem lost_finish {d' : Side} {eof : Bool} (h : Lost s d) : Lost (s.finish d' eof) d := by
  refine ⟨?_, h.2.imp (fun hover => ?_) fun hopen => ?_⟩
  · by_cases hd : d = d'
    · subst hd
      rw [line_finish_self]
      exact h.1
    · rw [line_finish_of_ne hd]
      exact h.1
  · by_cases hd : d = d'
    · subst hd
      rw [line_finish_self]
    · rw [line_finish_of_ne hd]
      exact hover
  · cases d <;> cases d' <;> cases eof <;> simp_all [State.finish, opened, Side.other]

/-- What is lost stays lost. -/
theorem lost_step {e : Event} (h : Lost s d) (hstep : step s e = some s') : Lost s' d := by
  cases stepsTo_of_step hstep with
  | send d' bytes =>
    refine lost_set h ?_ Iff.rfl
    rintro rfl
    exact Nat.lt_of_lt_of_le h.1 (by simp)
  | close d' =>
    refine lost_set h ?_ Iff.rfl
    rintro rfl
    exact h.1
  | read d' hp =>
    refine lost_set h ?_ (by simp [hp])
    rintro rfl
    exact h.1
  | write d' hp hopen =>
    refine lost_set h ?_ (phase_write hp)
    -- the loop of a lost byte writes nothing any more
    rintro rfl
    rcases h.2 with hover | hclosed
    · simp [hp] at hover
    · simp [hopen] at hclosed
  | readEof d' | readFail d' | writeFail d' => exact lost_finish h

/-- A step that is not orderly loses something. -/
theorem lost_of_not_orderly {e : Event} (h : Sound s) (hsteady : Steady s e)
    (hstep : step s e = some s') (horderly : ¬ Orderly s e) : ∃ d, Lost s' d := by
  cases stepsTo_of_step hstep with
  | send d bytes =>
    simp only [Orderly, not_or, not_not] at horderly
    obtain ⟨hbytes, hover⟩ := horderly
    refine ⟨d, ?_, ?_⟩
    · have hle := (h.ok d).delivered_prefix_sent.length_le
      have hpos := List.length_pos_iff.mpr hbytes
      simp only [line_set_self, List.length_append]
      omega
    · rw [line_set_self]
      have hended := h.ended d.other hover
      rw [Side.other_other] at hended
      exact hended.symm
  | readEof d =>
    refine ⟨d.other, ?_, .inr ?_⟩
    · rw [line_finish_of_ne d.other_ne]
      have hpre := (h.ok d.other).delivered_prefix_sent
      exact Nat.lt_of_le_of_ne hpre.length_le fun hlen => horderly (hpre.eq_of_length hlen)
    · cases d <;> simp [State.finish, opened, Side.other]
  | close | read | write | readFail | writeFail => exact absurd hsteady horderly

/-- **What a connection loses.** In a run in which no read fails, and no write on a socket
    that is open, up to the end of both loops: everything that was sent has been delivered
    just if every step was orderly. -/
theorem relayed_iff {es : List Event} (hsteady : Along step Steady {} es)
    (hrun : run step {} es = some s) (hover : ∀ d, (s.line d).phase = .done) :
    (∀ d, (s.line d).delivered = (s.line d).sent) ↔ Along step Orderly {} es := by
  constructor
  · intro hall
    refine along_of_unmarked (M := fun s => ∃ d, Lost s d) (fun _ _ _ => sound_step)
      (fun _ _ _ ⟨d, hd⟩ hs => ⟨d, lost_step hd hs⟩) (fun _ _ _ => lost_of_not_orderly)
      ⟨ok_start, by simp, by simp⟩ hsteady hrun ?_
    rintro ⟨d, hlt, -⟩
    rw [hall d] at hlt
    exact Nat.lt_irrefl _ hlt
  · intro horderly d
    have hinv := run_inv_along (fun _ _ _ h ho hs => inv_step h ho hs) inv_start horderly hrun
    exact hinv.complete d (hover d) d

end Lost

end FiberProxy.Server.PortForwardConnection
