/-
  FiberProxy.Forward.TransactionMgr

  `FibpTransactionMgr`: the transaction id it reads out of a participant's
  answer, and the confirm and cancel messages it posts.

  `get_transaction_id` looks for the id's quotes with
  `service_rps.find("\"", pos, 10)` and `find("\"", pos, 128)`.  The last
  argument is the length of the needle, not a search range: the needle is the
  quote, the literal's terminating zero, and whatever the memory holds behind
  the literal.
-/

import FiberProxy.Common.Types

namespace FiberProxy.Forward

open Lib

/-- What the memory holds behind the two literals, as far as `find` reads. -/
structure LiteralMemory where
  behindStart : Bytes
  behindEnd : Bytes
  length_behindStart : behindStart.length = 8
  length_behindEnd : behindEnd.length = 126

/-- Zeros behind both literals. -/
def zeroMemory : LiteralMemory where
  behindStart := List.replicate 8 0
  behindEnd := List.replicate 126 0
  length_behindStart := rfl
  length_behindEnd := rfl

/-- The key, in its quotes. -/
def tranKey : Bytes := ascii "\"transaction_id\""

/-- `FibpTransactionMgr::get_transaction_id`; empty when nothing is found. -/
def getTransactionId (mem : LiteralMemory) (serviceRps : Bytes) : Bytes :=
  match findFrom tranKey serviceRps 0 with
  | none => []
  | some pos =>
    -- ten octets from the address of the literal, so never just the quote
    match findFrom (34 :: 0 :: mem.behindStart) serviceRps (pos + tranKey.length) with
    | none => []
    | some idStart =>
      match findFrom (34 :: 0 :: mem.behindEnd) serviceRps (idStart + 1) with
      | none => []
      | some idEnd => (serviceRps.drop (idStart + 1)).take (idEnd - idStart - 1)

inductive TranAction where
  | confirm | cancel
deriving DecidableEq, Repr

def TranAction.text : TranAction → Bytes
  | .confirm => ascii "/confirm"
  | .cancel => ascii "/cancel"

/-- The request that `send_transaction_api` posts: where to, path and body. -/
structure TranMsg where
  host : Bytes
  port : Bytes
  path : Bytes
  postdata : Bytes
deriving DecidableEq, Repr

/-- `FibpTransactionMgr::send_transaction_api`, the message; what becomes of it is
    logged and otherwise ignored. -/
def sendTransactionApi (host port api tranId : Bytes) (action : TranAction) : TranMsg where
  host := host
  port := port
  path := api ++ action.text
  postdata := ascii "\x7b" ++ tranKey ++ ascii ":\"" ++ tranId ++ ascii "\"\x7d"

end FiberProxy.Forward
