/-
  FiberProxy.Registry.Polls

  The long polls of `FibpServiceMgr` (`forward-manager/FibpServiceMgr.cpp`): one
  iteration of `watchServiceNodeChangeFunc`, which asks the registry for the nodes of a
  service, and of `watchCurrentClusterName`, which asks for the name of the cluster.

  An iteration gives `none` where an exception or a failed assertion leaves the fiber.
  The index of a poll is taken from the response before its body is read, and the body
  is read with accessors that assert the type of a value; `polls_iff` says for which
  answers the iteration still does all or nothing.
-/

import FiberProxy.Http.ResponseText
import FiberProxy.Lib.Lists
import FiberProxy.Registry.ClusterNames

namespace FiberProxy.Registry

open Lib Lib.Http1 Http

/-- `http::find_header`. -/
def findHeader (headers : List Header) (key : Bytes) : Bytes :=
  match headers.find? (fun h => h.1 = key) with
  | some h => h.2
  | none => []

/-- `boost::lexical_cast<uint32_t>`: a sign and digits; it throws for any other text. -/
def lexicalCast (text : Bytes) : Option UInt32 :=
  match text with
  | 45 :: digits => (unsigned digits).map fun n => 0 - n
  | 43 :: digits => unsigned digits
  | digits => unsigned digits
where
  /-- The digits of a number of 32 bits. -/
  unsigned (digits : Bytes) : Option UInt32 :=
    (readDecimal digits).bind fun n => if n < 2 ^ 32 then some (UInt32.ofNat n) else none

/-! ## The types that the walkers ask for -/

def Json.isObject : Json → Bool
  | .obj _ => true
  | _ => false

def Json.hasAddress : Json → Bool
  | .obj ms => (ms.lookup (ascii "Address")).isSome
  | _ => false

/-- The `Node` of an entry: its `Address`, if it has one, is a string. -/
def NodeInfoTyped : Json → Prop
  | .obj ms => ∀ v, ms.lookup (ascii "Address") = some v → v.getString.isSome
  | _ => True

/-- The `Tags` of a service are strings, if they are an array. -/
def TagsTyped : Json → Prop
  | .arr tags => ∀ tag ∈ tags, tag.getString.isSome
  | _ => True

def ServiceMemberTyped (m : Bytes × Json) : Prop :=
  (m.1 = ascii "Port" → m.2.getInt.isSome) ∧ (m.1 = ascii "Tags" → TagsTyped m.2) ∧
    (m.1 = ascii "Service" → m.2.getString.isSome)

/-- The `Service` of an entry. -/
def ServiceTyped : Json → Prop
  | .obj ms => ∀ m ∈ ms, ServiceMemberTyped m
  | _ => True

/-- The member ends the walk over the checks. -/
def isFailedStatus (m : Bytes × Json) : Bool :=
  m.1 = ascii "Status" && m.2.getString != some (ascii "passing")

/-- A check is an object, and each of its statuses that is looked at is a string. -/
def CheckTyped : Json → Prop
  | .obj ms => ∀ m ∈ upTo isFailedStatus ms, m.1 = ascii "Status" → m.2.getString.isSome
  | _ => False

def isFailedCheck : Json → Bool
  | .obj ms => ms.any isFailedStatus
  | _ => false

/-- The `Checks` of an entry, up to the first that does not pass. -/
def ChecksTyped : Json → Prop
  | .arr checks => ∀ check ∈ upTo isFailedCheck checks, CheckTyped check
  | _ => True

/-- The part of an entry for which `ret` becomes false. -/
def isUnreadable (m : Bytes × Json) : Bool :=
  if m.1 = ascii "Node" then !m.2.hasAddress
  else if m.1 = ascii "Service" then !m.2.isObject
  else false

def NodeMemberTyped (m : Bytes × Json) : Prop :=
  (m.1 = ascii "Node" → NodeInfoTyped m.2) ∧ (m.1 = ascii "Service" → ServiceTyped m.2) ∧
    (m.1 = ascii "Checks" → ChecksTyped m.2)

/-- An entry of a health response is an object, and its parts have the types that are
    asked for, up to the first that cannot be read. -/
def NodeTyped : Json → Prop
  | .obj ms => ∀ m ∈ upTo isUnreadable ms, NodeMemberTyped m
  | _ => False

theorem isSome_parseServiceNodeInfo {v : Json} {st : NodeState} :
    (parseServiceNodeInfo v st).isSome ↔ NodeInfoTyped v := by
  cases v with
  | obj ms =>
    simp only [parseServiceNodeInfo, NodeInfoTyped]
    cases ms.lookup (ascii "Address") with
    | none => simp
    | some value => simp
  | other | int n | str s | arr vs => simp [parseServiceNodeInfo, NodeInfoTyped]

theorem isSome_foldlM_readTag {tags : List Json} {st : NodeState} :
    (tags.foldlM (fun st (tag : Json) => tag.getString.map fun s => readTag st (toLower s))
      st).isSome ↔ TagsTyped (.arr tags) :=
  isSome_foldlM fun _ _ => by rw [Option.isSome_map]

theorem isSome_parseServiceMember (st : NodeState) (m : Bytes × Json) :
    (parseServiceMember st m).isSome ↔ ServiceMemberTyped m := by
  obtain ⟨name, v⟩ := m
  unfold parseServiceMember ServiceMemberTyped
  dsimp only
  split_ifs with hport htag hservice
  · simp [hport, show ascii "Port" ≠ ascii "Tags" by decide,
      show ascii "Port" ≠ ascii "Service" by decide]
  · have hne : ascii "Tags" ≠ ascii "Port" ∧ ascii "Tags" ≠ ascii "Service" := by decide
    cases v with
    | arr tags => simp [htag, hne, isSome_foldlM_readTag]
    | other | int n | str s | obj ms => simp [htag, hne, TagsTyped]
  · simp [hservice, show ascii "Service" ≠ ascii "Port" by decide,
      show ascii "Service" ≠ ascii "Tags" by decide]
  · simp [hport, htag, hservice]

theorem isSome_parseServiceInfo {v : Json} {st : NodeState} :
    (parseServiceInfo v st).isSome ↔ ServiceTyped v := by
  cases v with
  | obj ms =>
    simp only [parseServiceInfo, ServiceTyped, Option.isSome_map]
    exact isSome_foldlM isSome_parseServiceMember
  | other | int n | str s | arr vs => simp [parseServiceInfo, ServiceTyped]

theorem checkTyped_obj {ms : List (Bytes × Json)} :
    CheckTyped (.obj ms) ↔
      ∀ m ∈ upTo isFailedStatus ms, m.1 = ascii "Status" → m.2.getString.isSome :=
  Iff.rfl

/-- The walk over a check that finds the types it asks for. -/
theorem membersPassing_eq_some {ms : List (Bytes × Json)} {b : Bool} :
    membersPassing ms = some b ↔ CheckTyped (.obj ms) ∧ (!ms.any isFailedStatus) = b := by
  induction ms with
  | nil => simp [membersPassing, checkTyped_obj]
  | cons m ms ih =>
    rw [checkTyped_obj] at ih
    rw [membersPassing, checkTyped_obj, forall_mem_upTo_cons, List.any_cons]
    by_cases hm : m.1 = ascii "Status"
    · cases hs : m.2.getString with
      | none => simp [hm]
      | some s =>
        by_cases hp : s = ascii "passing"
        · simp [hm, hs, hp, ih, isFailedStatus]
        · have hfailed : isFailedStatus m = true := by simp [isFailedStatus, hm, hs, hp]
          simp [hm, hp, hfailed]
    · simp [hm, ih, isFailedStatus]

theorem isSome_checksPassing {checks : List Json} :
    (checksPassing checks).isSome ↔ ∀ check ∈ upTo isFailedCheck checks, CheckTyped check := by
  induction checks with
  | nil => simp [checksPassing]
  | cons check checks ih =>
    rw [forall_mem_upTo_cons]
    cases check with
    | obj ms =>
      simp only [checksPassing, isFailedCheck]
      by_cases ht : CheckTyped (.obj ms)
      · rw [membersPassing_eq_some.mpr ⟨ht, rfl⟩]
        cases hany : ms.any isFailedStatus with
        | true => simp [ht]
        | false => simp [ht, ih]
      · cases hms : membersPassing ms with
        | none => simp [ht]
        | some b => exact absurd (membersPassing_eq_some.mp hms).1 ht
    | other | int n | str s | arr vs => simp [checksPassing, CheckTyped]

theorem isSome_parseServiceCheckInfo {v : Json} {st : NodeState} :
    (parseServiceCheckInfo v st).isSome ↔ ChecksTyped v := by
  cases v with
  | arr checks => simpa [parseServiceCheckInfo, ChecksTyped] using isSome_checksPassing
  | other | int n | str s | obj ms => simp [parseServiceCheckInfo, ChecksTyped]

theorem isSome_parseNodeMember (st : NodeState) (m : Bytes × Json) :
    (parseNodeMember st m).isSome ↔ NodeMemberTyped m := by
  unfold parseNodeMember NodeMemberTyped
  split_ifs with hnode hservice hchecks
  · simp [hnode, isSome_parseServiceNodeInfo, show ascii "Node" ≠ ascii "Service" by decide,
      show ascii "Node" ≠ ascii "Checks" by decide]
  · simp [hservice, isSome_parseServiceInfo, show ascii "Service" ≠ ascii "Node" by decide,
      show ascii "Service" ≠ ascii "Checks" by decide]
  · simp [hchecks, isSome_parseServiceCheckInfo, show ascii "Checks" ≠ ascii "Node" by decide,
      show ascii "Checks" ≠ ascii "Service" by decide]
  · simp [hnode, hservice, hchecks]

/-! ## `ret` -/

theorem ret_readTag (st : NodeState) (tag : Bytes) : (readTag st tag).ret = st.ret := by
  rw [readTag_eq]

theorem ret_parseServiceMember {st st' : NodeState} {m : Bytes × Json}
    (h : parseServiceMember st m = some st') : st'.ret = st.ret := by
  unfold parseServiceMember at h
  split_ifs at h
  · obtain ⟨n, -, rfl⟩ := Option.map_eq_some_iff.mp h
    rfl
  · split at h
    · refine foldlM_inv (I := fun st' => st'.ret = st.ret) (fun b tag b' hb hb' => ?_) rfl h
      obtain ⟨s, -, rfl⟩ := Option.map_eq_some_iff.mp hb'
      exact (ret_readTag _ _).trans hb
    · obtain rfl := Option.some.inj h
      rfl
  · obtain ⟨s, -, rfl⟩ := Option.map_eq_some_iff.mp h
    rfl
  · obtain rfl := Option.some.inj h
    rfl

theorem ret_parseServiceInfo {v : Json} {st st' : NodeState}
    (h : parseServiceInfo v st = some st') : st'.ret = v.isObject := by
  cases v with
  | obj ms =>
    obtain ⟨st₁, hfold, rfl⟩ := Option.map_eq_some_iff.mp h
    have hret : st₁.ret = true :=
      foldlM_inv (I := fun st => st.ret = true)
        (fun _ _ _ hb hb' => (ret_parseServiceMember hb').trans hb) rfl hfold
    unfold addDev
    split
    · exact hret
    · exact hret
  | other | int n | str s | arr vs =>
    obtain rfl := Option.some.inj h
    rfl

theorem ret_parseServiceNodeInfo {v : Json} {st st' : NodeState}
    (h : parseServiceNodeInfo v st = some st') : st'.ret = v.hasAddress := by
  cases v with
  | obj ms =>
    simp only [parseServiceNodeInfo] at h
    unfold Json.hasAddress
    split at h
    · rename_i value hl
      obtain ⟨s, -, rfl⟩ := Option.map_eq_some_iff.mp h
      simp only [hl, Option.isSome_some]
    · rename_i hl
      obtain rfl := Option.some.inj h
      simp only [hl, Option.isSome_none]
  | other | int n | str s | arr vs =>
    obtain rfl := Option.some.inj h
    rfl

theorem ret_parseNodeMember {st st' : NodeState} {m : Bytes × Json} (hst : st.ret = true)
    (h : parseNodeMember st m = some st') : st'.ret = !isUnreadable m := by
  unfold parseNodeMember at h
  unfold isUnreadable
  split_ifs at h with hnode hservice hchecks
  · rw [if_pos hnode, ret_parseServiceNodeInfo h, Bool.not_not]
  · rw [if_neg hnode, if_pos hservice, ret_parseServiceInfo h, Bool.not_not]
  · rw [if_neg hnode, if_neg hservice]
    unfold parseServiceCheckInfo at h
    split at h
    · obtain ⟨b, -, rfl⟩ := Option.map_eq_some_iff.mp h
      rfl
    · obtain rfl := Option.some.inj h
      rfl
  · rw [if_neg hnode, if_neg hservice]
    obtain rfl := Option.some.inj h
    simpa using hst

theorem isSome_parseNodeMembers {ms : List (Bytes × Json)} {st : NodeState}
    (hst : st.ret = true) :
    (parseNodeMembers ms st).isSome ↔ ∀ m ∈ upTo isUnreadable ms, NodeMemberTyped m := by
  induction ms generalizing st with
  | nil => simp [parseNodeMembers]
  | cons m ms ih =>
    rw [parseNodeMembers, forall_mem_upTo_cons, ← isSome_parseNodeMember st m]
    cases hm : parseNodeMember st m with
    | none => simp
    | some st' =>
      have hret := ret_parseNodeMember hst hm
      cases hu : isUnreadable m with
      | true => simp [hret, hu]
      | false => simp [hret, hu, @ih st' (by simp [hret, hu])]

/-- **Where the walkers assert nothing.** -/
theorem isSome_parseServiceInfoRsp {nodes : List Json} :
    (parseServiceInfoRsp (.arr nodes)).isSome ↔ ∀ node ∈ nodes, NodeTyped node := by
  simp only [parseServiceInfoRsp, Option.isSome_map]
  refine isSome_foldlM fun nodeList node => ?_
  rw [Option.isSome_map]
  cases node with
  | obj ms => exact isSome_parseNodeMembers rfl
  | other | int n | str s | arr vs => simp [parseNode, NodeTyped]

/-! ## One iteration of `watchServiceNodeChangeFunc` -/

/-- A watcher registers a response: all its passes, with no other watcher between them. -/
def State.register (s : State) (name : Bytes) (nodeList : NodeList) : State :=
  ((((s.begin name nodeList).pass name .http [.rpc, .raw, .custom]).pass name .rpc
    [.raw, .custom]).pass name .raw [.custom]).pass name .custom []

theorem run_handling {s : State} {name : Bytes} {doc : Json} {nodeList : NodeList}
    (hidle : (s.watchers name).todo = [])
    (hdoc : parseServiceInfoRsp doc = some (some nodeList)) :
    run step s (handling name [doc]) = some (s.register name nodeList) := by
  have hpass (s : State) (t : ServiceType) (todo : List ServiceType)
      (h : (s.watchers name).todo = t :: todo) :
      step s (.pass name) = some (s.pass name t todo) := by
    simp only [step, h]
  have hbegin : ((s.begin name nodeList).watchers name).todo = serviceTypes := by
    simp [State.begin]
  have hrsp : step s (.rsp name doc) = some (s.begin name nodeList) := by
    simp only [step, hidle, hdoc, Option.map_some]
  show run step s (.rsp name doc :: [.pass name, .pass name, .pass name, .pass name]) = _
  rw [run_cons, hrsp, Option.bind_some, run_cons, hpass _ _ _ hbegin, Option.bind_some, run_cons,
    hpass _ _ _ pass_watcher_todo, Option.bind_some, run_cons, hpass _ _ _ pass_watcher_todo,
    Option.bind_some, run_cons, hpass _ _ _ pass_watcher_todo, Option.bind_some, run_nil]
  rfl

theorem run_handling_refused {s : State} {name : Bytes} {doc : Json}
    (hidle : (s.watchers name).todo = []) (hdoc : parseServiceInfoRsp doc = some none) :
    run step s (handling name [doc]) = none := by
  show run step s (.rsp name doc :: .pass name :: [.pass name, .pass name, .pass name]) = none
  simp [step, hidle, hdoc]

/-- The table and the locals of the watcher of a service, at the top of its loop. -/
structure NodeWatch (name : Bytes) where
  table : State
  idle : (table.watchers name).todo = []
  indexid : UInt32
  balanceIndex : UInt32

section Polls

-- `rj::Document::Parse`: the tree of a text that is JSON
variable (parse : Bytes → Option Json)

/-- What `get_http_response` leaves: `none` when the request cannot be sent or the response
    not be read. -/
abbrev PollAnswer := Option ResponseT

/-- `longPollingRequest`: false, or the new index and `json_rsp`; `none` when
    `lexical_cast` throws. -/
def longPollingRequest (answer : PollAnswer) : Option (Option (UInt32 × Bytes)) :=
  match answer with
  | none => some none
  | some rsp =>
    if rsp.code = 200 then
      (lexicalCast (findHeader rsp.headers (ascii "X-Consul-Index"))).map fun indexid =>
        some (indexid, rsp.body)
    else some none

/-- `parseServiceInfoRsp` of a text. -/
def parseServiceInfoText (text : Bytes) : Option (Option NodeList) :=
  match parse text with
  | none => some none
  | some doc => parseServiceInfoRsp doc

variable {name : Bytes}

def watchServiceNodeChange (w : NodeWatch name) (answer : PollAnswer) : Option (NodeWatch name) :=
  (longPollingRequest answer).bind fun
    | none => some { w with balanceIndex := w.balanceIndex + 1 }
    | some (indexid, text) =>
      (parseServiceInfoText parse text).map fun
        | none => { w with indexid := indexid }
        | some nodeList =>
          { w with
            table := w.table.register name nodeList
            idle := pass_watcher_todo
            indexid := indexid }

/-- The iteration has handled all of the response. -/
def Applied (w w' : NodeWatch name) (answer : PollAnswer) : Prop :=
  ∃ rsp doc, answer = some rsp ∧ rsp.code = 200 ∧ parse rsp.body = some doc ∧
    run step w.table (handling name [doc]) = some w'.table ∧
    lexicalCast (findHeader rsp.headers (ascii "X-Consul-Index")) = some w'.indexid

/-- The iteration has changed neither the table, with the names that the watchers remember,
    nor the index. -/
def Unchanged (w w' : NodeWatch name) : Prop := w'.table = w.table ∧ w'.indexid = w.indexid

/-- The iteration does all or nothing, and the fiber goes on. -/
def AllOrNothing (w : NodeWatch name) (answer : PollAnswer) : Prop :=
  ∃ w', watchServiceNodeChange parse w answer = some w' ∧
    (Applied parse w w' answer ∨ Unchanged w w')

/-- The answer is not taken, or its index is a number of 32 bits and its body either an array
    in which the walkers find the types that they ask for, or no array, with the index as
    it was. -/
def Readable (indexid : UInt32) : PollAnswer → Prop
  | none => True
  | some rsp => rsp.code = 200 →
      ∃ index, lexicalCast (findHeader rsp.headers (ascii "X-Consul-Index")) = some index ∧
        match parse rsp.body with
        | some (.arr nodes) => ∀ node ∈ nodes, NodeTyped node
        | _ => index = indexid

section

variable {parse} {w : NodeWatch name} {rsp : ResponseT} {index : UInt32}

theorem allOrNothing_of_failed {answer : PollAnswer}
    (h : longPollingRequest answer = some none) : AllOrNothing parse w answer := by
  refine ⟨{ w with balanceIndex := w.balanceIndex + 1 }, ?_, .inr ⟨rfl, rfl⟩⟩
  simp only [watchServiceNodeChange, h, Option.bind_some]

theorem longPollingRequest_of_index (hcode : rsp.code = 200)
    (hindex : lexicalCast (findHeader rsp.headers (ascii "X-Consul-Index")) = some index) :
    longPollingRequest (some rsp) = some (some (index, rsp.body)) := by
  simp only [longPollingRequest, if_pos hcode, hindex, Option.map_some]

/-- A body that is refused: the index is kept although nothing was registered. -/
theorem allOrNothing_iff_of_refused (hpoll : longPollingRequest (some rsp) =
      some (some (index, rsp.body)))
    (hbody : parseServiceInfoText parse rsp.body = some none) :
    AllOrNothing parse w (some rsp) ↔ index = w.indexid := by
  have hnext : watchServiceNodeChange parse w (some rsp) = some { w with indexid := index } := by
    simp only [watchServiceNodeChange, hpoll, Option.bind_some, hbody, Option.map_some]
  constructor
  · rintro ⟨w', hw', happlied | hsame⟩
    · obtain ⟨_, doc, hrsp, -, hparse, hrun, -⟩ := happlied
      obtain rfl := Option.some.inj hrsp
      have hdoc : parseServiceInfoRsp doc = some none := by
        simpa only [parseServiceInfoText, hparse] using hbody
      rw [run_handling_refused w.idle hdoc] at hrun
      cases hrun
    · obtain rfl := Option.some.inj (hnext.symm.trans hw')
      exact hsame.2
  · rintro rfl
    exact ⟨w, hnext, .inr ⟨rfl, rfl⟩⟩

/-- An array: the iteration handles it unless a walker asserts. -/
theorem allOrNothing_iff_of_array {nodes : List Json} (hcode : rsp.code = 200)
    (hindex : lexicalCast (findHeader rsp.headers (ascii "X-Consul-Index")) = some index)
    (hparse : parse rsp.body = some (.arr nodes)) :
    AllOrNothing parse w (some rsp) ↔ ∀ node ∈ nodes, NodeTyped node := by
  rw [← isSome_parseServiceInfoRsp]
  have hpoll := longPollingRequest_of_index hcode hindex
  have hnext : watchServiceNodeChange parse w (some rsp) =
      (parseServiceInfoRsp (.arr nodes)).map fun
        | none => { w with indexid := index }
        | some nodeList =>
          { w with
            table := w.table.register name nodeList
            idle := pass_watcher_todo
            indexid := index } := by
    simp only [watchServiceNodeChange, hpoll, Option.bind_some, parseServiceInfoText, hparse]
  cases hdoc : parseServiceInfoRsp (.arr nodes) with
  | none =>
    rw [hdoc, Option.map_none] at hnext
    constructor
    · rintro ⟨w', hw', -⟩
      rw [hnext] at hw'
      cases hw'
    · rintro ⟨⟩
  | some read =>
    obtain ⟨nodeList, rfl⟩ : ∃ nodeList, read = some nodeList := by
      obtain ⟨nodeList, -, h⟩ := Option.map_eq_some_iff.mp hdoc
      exact ⟨nodeList, h.symm⟩
    rw [hdoc, Option.map_some] at hnext
    refine ⟨fun _ => rfl, fun _ => ⟨_, hnext, .inl ?_⟩⟩
    exact ⟨rsp, .arr nodes, rfl, hcode, hparse, run_handling w.idle hdoc, hindex⟩

end

/-- **A poll does all or nothing.** One iteration registers the whole response or leaves
    table and index as they were, without an exception or a failed assertion, exactly for
    the readable answers. -/
theorem polls_iff (w : NodeWatch name) (answer : PollAnswer) :
    AllOrNothing parse w answer ↔ Readable parse w.indexid answer := by
  cases answer with
  | none => exact iff_of_true (allOrNothing_of_failed rfl) trivial
  | some rsp =>
    by_cases hcode : rsp.code = 200
    case neg =>
      have hpoll : longPollingRequest (some rsp) = some none := if_neg hcode
      exact iff_of_true (allOrNothing_of_failed hpoll) fun h => absurd h hcode
    case pos =>
      simp only [Readable, hcode, forall_const]
      cases hindex : lexicalCast (findHeader rsp.headers (ascii "X-Consul-Index")) with
      | none =>
        have hpoll : longPollingRequest (some rsp) = none := by
          simp only [longPollingRequest, if_pos hcode, hindex, Option.map_none]
        simp [AllOrNothing, watchServiceNodeChange, hpoll]
      | some index =>
        have hpoll := longPollingRequest_of_index hcode hindex
        simp only [Option.some.injEq, exists_eq_left']
        split
        · rename_i nodes hparse
          exact allOrNothing_iff_of_array hcode hindex hparse
        · rename_i hnot
          refine allOrNothing_iff_of_refused hpoll ?_
          unfold parseServiceInfoText
          cases hparse : parse rsp.body with
          | none => rfl
          | some doc =>
            cases doc with
            | arr nodes => exact absurd hparse (hnot nodes)
            | other | int n | str s | obj ms => rfl

/-- The watcher of `svc` before its first poll. -/
def firstWatch : NodeWatch (ascii "svc") where
  table := {}
  idle := rfl
  indexid := 0
  balanceIndex := 0

/-- A response that is no JSON. -/
def notJson : ResponseT where
  code := 200
  headers := [(ascii "X-Consul-Index", ascii "7")]
  body := ascii "<"

/-- Nothing is registered, yet the next poll waits for a change after index 7.  Without the
    header the fiber ends. -/
theorem badAnswers_notAllOrNothing :
    (∃ w', watchServiceNodeChange (fun _ => none) firstWatch (some notJson) = some w' ∧
        w'.table = firstWatch.table ∧ w'.indexid = 7) ∧
      ¬ AllOrNothing (fun _ => none) firstWatch (some notJson) ∧
      watchServiceNodeChange (fun _ => none) firstWatch (some { notJson with headers := [] }) =
        none := by
  have hpoll : longPollingRequest (some notJson) = some (some (7, notJson.body)) :=
    longPollingRequest_of_index rfl (by decide)
  refine ⟨⟨{ firstWatch with indexid := 7 }, ?_, rfl, rfl⟩, ?_, ?_⟩
  · simp only [watchServiceNodeChange, hpoll, Option.bind_some, parseServiceInfoText,
      Option.map_some]
  · rw [allOrNothing_iff_of_refused hpoll rfl]
    decide
  · have hnone : longPollingRequest (some { notJson with headers := [] }) = none := by decide
    rw [watchServiceNodeChange, hnone, Option.bind_none]

/-! ## `watchCurrentClusterName` -/

/-- `curClusterName_`, and `indexid` of its watcher. -/
structure ClusterWatch where
  curClusterName : Bytes
  indexid : Bytes := ascii "0"
deriving DecidableEq, Repr

/-- `newClusterName`: the document itself as a string, then the first `Name`. -/
def newClusterName (ms : List (Bytes × Json)) : Option Bytes :=
  (Json.obj ms).getString.bind fun newClusterName =>
    match ms.lookup (ascii "Name") with
    | none => some newClusterName
    | some value => value.getString

/-- One iteration. -/
def watchCurrentClusterName (w : ClusterWatch) (answer : PollAnswer) : Option ClusterWatch :=
  match answer with
  | none => some w
  | some rsp =>
    if rsp.code = 200 then
      match parse rsp.body with
      | some (.obj ms) =>
        (newClusterName ms).map fun name =>
          let indexid := findHeader rsp.headers (ascii "X-Consul-Index")
          { curClusterName :=
              if name ≠ w.curClusterName then changeCluster w.curClusterName name
              else w.curClusterName
            indexid := if indexid = [] then ascii "0" else indexid }
      | _ => some w
    else some w

/-- A successful response that is an object. -/
def IsClusterObject (answer : PollAnswer) (ms : List (Bytes × Json)) : Prop :=
  ∃ rsp, answer = some rsp ∧ rsp.code = 200 ∧ parse rsp.body = some (.obj ms)

/-- The name that is current after an object: its `Name`, if that is a string and not
    empty. -/
def namedCluster (cur : Bytes) (ms : List (Bytes × Json)) : Bytes :=
  match ms.lookup (ascii "Name") with
  | some (.str name) => if name = [] then cur else name
  | _ => cur

/-- The watcher follows the answers: it goes on after each, with the name that an object
    gives, and the same name after any other answer. -/
def FollowsCluster : ClusterWatch → List PollAnswer → Prop
  | _, [] => True
  | w, answer :: answers =>
    ∃ w', watchCurrentClusterName parse w answer = some w' ∧
      (∀ ms, IsClusterObject parse answer ms →
        w'.curClusterName = namedCluster w.curClusterName ms) ∧
      ((∀ ms, ¬ IsClusterObject parse answer ms) → w'.curClusterName = w.curClusterName) ∧
      FollowsCluster w' answers

/-- An object is no string, so the first accessor asserts. -/
theorem newClusterName_eq_none (ms : List (Bytes × Json)) : newClusterName ms = none := rfl

theorem watchCurrentClusterName_of_object {w : ClusterWatch} {answer : PollAnswer}
    {ms : List (Bytes × Json)} (h : IsClusterObject parse answer ms) :
    watchCurrentClusterName parse w answer = none := by
  obtain ⟨rsp, rfl, hcode, hparse⟩ := h
  simp only [watchCurrentClusterName, if_pos hcode, hparse, newClusterName_eq_none,
    Option.map_none]

theorem watchCurrentClusterName_of_other {w : ClusterWatch} {answer : PollAnswer}
    (h : ∀ ms, ¬ IsClusterObject parse answer ms) :
    watchCurrentClusterName parse w answer = some w := by
  cases answer with
  | none => rfl
  | some rsp =>
    unfold watchCurrentClusterName
    dsimp only
    split
    · rename_i hcode
      split
      · rename_i ms hparse
        exact absurd ⟨rsp, rfl, hcode, hparse⟩ (h ms)
      · rfl
    · rfl

/-- **The name of the cluster is never followed.** The watcher follows the answers exactly
    when none of them is an object. -/
theorem followsCluster_iff (w : ClusterWatch) (answers : List PollAnswer) :
    FollowsCluster parse w answers ↔
      ∀ answer ∈ answers, ∀ ms, ¬ IsClusterObject parse answer ms := by
  induction answers generalizing w with
  | nil => simp [FollowsCluster]
  | cons answer answers ih =>
    rw [FollowsCluster, List.forall_mem_cons]
    constructor
    · rintro ⟨w', hw', -, -, hrest⟩
      refine ⟨fun ms hms => ?_, (ih w').mp hrest⟩
      rw [watchCurrentClusterName_of_object parse hms] at hw'
      cases hw'
    · rintro ⟨hother, hrest⟩
      refine ⟨w, watchCurrentClusterName_of_other parse hother, ?_, fun _ => rfl,
        (ih w).mpr hrest⟩
      exact fun ms hms => absurd hms (hother ms)

/-- A reader for the response that names the cluster `prod`. -/
def readProd (_ : Bytes) : Option Json := some (.obj [(ascii "Name", .str (ascii "prod"))])

/-- The registry names the cluster, and the watcher ends. -/
theorem prodCluster_notFollowed :
    IsClusterObject readProd (some { code := 200 }) [(ascii "Name", .str (ascii "prod"))] ∧
      watchCurrentClusterName readProd { curClusterName := ascii "dev" } (some { code := 200 }) =
        none ∧
      ¬ FollowsCluster readProd { curClusterName := ascii "dev" } [some { code := 200 }] := by
  have hobject : IsClusterObject readProd (some { code := 200 })
      [(ascii "Name", .str (ascii "prod"))] := ⟨_, rfl, rfl, rfl⟩
  have hnone := watchCurrentClusterName_of_object _ (w := { curClusterName := ascii "dev" }) hobject
  refine ⟨hobject, hnone, ?_⟩
  rintro ⟨w', hw', -⟩
  rw [hnone] at hw'
  cases hw'

end Polls

end FiberProxy.Registry
