/-
  FiberProxy.Front.RequestParser

  The front ends that turn a client's message into service call requests
  (`process/controllers/RequestParser.cpp`).  `izenelib::driver::Value` is not
  part of the repository: what its accessors return for one list element is
  the input here, and an accessor that throws is `none`.
-/

import FiberProxy.Common.Types

namespace FiberProxy.Front

open Lib

/-- `GetReqMethod`: anything but the other four is a POST. -/
def getReqMethod (method : Bytes) : Method :=
  if method = ascii "DELETE" then .delete
  else if method = ascii "GET" then .get
  else if method = ascii "PUT" then .put
  else if method = ascii "HEAD" then .head
  else .post

/-- What the accessors return for one element of the posted list. -/
structure ApiData where
  serviceName : Bytes
  serviceApi : Bytes
  serviceMethod : Bytes
  serviceReqData : Bytes
  serviceCluster : Bytes
  serviceType : Int
  enableCache : Bool

/-- One turn of the loop in `parse_api_request`; `packTuple` is msgpack's
    packing of a one-string tuple. -/
def parseApiData (packTuple : Bytes → Bytes) (d : ApiData) : ServiceCallReq where
  serviceName := d.serviceName
  serviceApi := d.serviceApi
  method := (getReqMethod d.serviceMethod).toInt
  serviceReqData :=
    if d.serviceType = ServiceType.rpc.toInt then packTuple d.serviceReqData else d.serviceReqData
  serviceCluster := d.serviceCluster
  serviceType := d.serviceType
  enableCache := d.enableCache

/-- `RequestParser::parse_api_request`: `none` when the value is no array or an
    accessor throws. -/
def parseApiRequest (packTuple : Bytes → Bytes) (apiList : Option (List (Option ApiData))) :
    Option (List ServiceCallReq) :=
  apiList.bind fun l => (l.mapM id).map fun ds => ds.map (parseApiData packTuple)

/-- `boost::trim_if(temp, is_any_of("/"))`. -/
def trimSlashes (bs : Bytes) : Bytes :=
  ((bs.dropWhile (· == 47)).reverse.dropWhile (· == 47)).reverse

/-- `boost::split` at `/` with `token_compress_on`: a run of slashes separates
    two tokens.  `inRun` says that the last byte was a slash. -/
def splitSlashes (inRun : Bool) : Bytes → List Bytes
  | [] => [[]]
  | b :: bs =>
    if b = 47 then
      if inRun then splitSlashes true bs else [] :: splitSlashes true bs
    else
      match splitSlashes false bs with
      | [] => [[b]]
      | l :: ls => (b :: l) :: ls

/-- `RequestParser::parse_single_api_request`: the request for a path
    `/controller/action/service/api...`; the api is cut out of the trimmed path
    by the lengths of the first three elements. -/
def parseSingleApiRequest (method : Int) (rawReq path : Bytes) : Option ServiceCallReq :=
  let temp := trimSlashes path
  match splitSlashes false temp with
  | e₀ :: e₁ :: e₂ :: _ :: _ =>
    some {
      serviceName := e₂
      serviceApi := temp.drop (e₀.length + 1 + (e₁.length + 1) + e₂.length)
      serviceReqData := rawReq
      serviceType := 0
      method := method }
  | _ => none

end FiberProxy.Front
