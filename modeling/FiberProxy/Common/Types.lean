/-
  FiberProxy.Common.Types

  The shared data types of `common/FibpCommonTypes.h`: a service call request
  and its response record, with the enumerations their integer fields stand
  for.  Strings are byte strings, as in the source.
-/

import FiberProxy.Lib.Bytes

namespace FiberProxy

open Lib

/-- `enum method`. -/
inductive Method where
  | delete | get | head | post | put
deriving DecidableEq, Repr

/-- The value of a method in the enumeration. -/
def Method.toInt : Method → Int
  | .delete => 0
  | .get => 1
  | .head => 2
  | .post => 3
  | .put => 4

/-- The cast `(http::method)n`, for the values of the enumeration. -/
def Method.ofInt? (n : Int) : Option Method :=
  [delete, get, head, post, put].find? fun m => m.toInt == n

/-- `enum ServiceType`; `End_Service` only counts them. -/
inductive ServiceType where
  | http | rpc | raw | custom
deriving DecidableEq, Repr

def ServiceType.toInt : ServiceType → Int
  | .http => 0
  | .rpc => 1
  | .raw => 2
  | .custom => 3

/-- `struct ServiceCallReq`, with the defaults of its constructor.  `method`
    and `serviceType` are plain integers there too. -/
structure ServiceCallReq where
  serviceName : Bytes := []
  serviceApi : Bytes := []
  method : Int := Method.post.toInt
  serviceReqData : Bytes := []
  serviceCluster : Bytes := []
  serviceType : Int := ServiceType.http.toInt
  enableCache : Bool := false
deriving DecidableEq, Repr

/-- `ServiceCallReq::operator==`: `enable_cache` does not take part. -/
def ServiceCallReq.same (a b : ServiceCallReq) : Bool :=
  a.serviceName == b.serviceName && a.serviceApi == b.serviceApi &&
    a.serviceReqData == b.serviceReqData && a.serviceCluster == b.serviceCluster &&
    a.serviceType == b.serviceType && a.method == b.method

/-- `struct ServiceCallRsp`, with the defaults of its constructor. -/
structure ServiceCallRsp where
  serviceName : Bytes := []
  rsp : Bytes := []
  error : Bytes := []
  isCached : Bool := false
  host : Bytes := []
  port : Bytes := []
deriving DecidableEq, Repr

/-- Requests that compare equal name the same service. -/
theorem ServiceCallReq.same_serviceName {a b : ServiceCallReq} (h : a.same b = true) :
    a.serviceName = b.serviceName := by
  simp only [ServiceCallReq.same, Bool.and_eq_true, beq_iff_eq] at h
  exact h.1.1.1.1.1

end FiberProxy
