/-
  FiberProxy.Log.FibpLogger

  The ring of call logs (`log-manager/FibpLogger.cpp`): a call takes the slot of
  its number when it starts, marks it ready when it ends, and the sender frees
  the slots in the order of their numbers, stopping at the first one that is not
  ready.  A slot is taken while its `id` is not zero.

  The entries of the single services and the texts the sender builds from a slot
  are left out; `now` is the clock.
-/

import Mathlib.Tactic.Common

namespace FiberProxy.Log

/-- `MAX_LOG_NUM`. -/
def maxLogNum : Nat := 1000000

/-- `struct LogData`. -/
structure LogData where
  waitSend : Bool := false
  id : UInt64 := 0
  startTime : Nat := 0
  endTime : Nat := 0
deriving DecidableEq, Repr

/-- `auto_inc_id_`, `logged_call_list_` and the sender's `next_send`. -/
structure FibpLogger where
  autoIncId : UInt64 := 0
  loggedCallList : Nat → LogData := fun _ => {}
  nextSend : UInt64 := 1

/-- The slot of a number. -/
def slot (id : UInt64) : Nat := id.toNat % maxLogNum

/-- One slot is overwritten. -/
def FibpLogger.put (l : FibpLogger) (i : Nat) (d : LogData) : FibpLogger :=
  { l with loggedCallList := fun j => if j = i then d else l.loggedCallList j }

/-- `FibpLogger::startServiceCall`: the number of the call, or 0 when its slot is
    still taken. -/
def FibpLogger.startServiceCall (l : FibpLogger) (now : Nat) : UInt64 × FibpLogger :=
  let myid := l.autoIncId + 1
  let d := l.loggedCallList (slot myid)
  let l := { l with autoIncId := myid }
  if d.waitSend ∨ d.id ≠ 0 then (0, l)
  else (myid, l.put (slot myid) { d with startTime := now, id := myid })

/-- `FibpLogger::endServiceCall`. -/
def FibpLogger.endServiceCall (l : FibpLogger) (id : UInt64) (now : Nat) : FibpLogger :=
  if id = 0 then l
  else l.put (slot id) { l.loggedCallList (slot id) with endTime := now, waitSend := true }

/-- One turn of the sender's inner loop: it frees the slot it waits for, if that is
    ready. -/
def FibpLogger.sendNext (l : FibpLogger) : Option FibpLogger :=
  if (l.loggedCallList (slot l.nextSend)).waitSend then
    some { l.put (slot l.nextSend) {} with nextSend := l.nextSend + 1 }
  else none

end FiberProxy.Log
