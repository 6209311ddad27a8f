/-
  FiberProxy.Registry.ServiceInfo

  The registry's health responses and how they are read: `parseServiceInfoRsp` with
  `parseServiceNodeInfo`, `parseServiceInfo` and `parseServiceCheckInfo`
  (`forward-manager/FibpServiceMgr.cpp`).

  A response is read from its JSON tree.  A string of the tree is what `GetString`
  gives.  The readers return `none` where an accessor of the tree would assert: a
  string is asked of something else, or the members of something that is not an
  object.
-/

import FiberProxy.Common.Types
import FiberProxy.Lib.OrderedSet
import Mathlib.Data.List.AList
import Mathlib.Data.Prod.Lex

namespace FiberProxy.Registry

open Lib

/-- `rj::Value`.  `other` stands for null, booleans and numbers that are not an `int`. -/
inductive Json where
  | other
  | int (n : Int)
  | str (s : Bytes)
  | arr (vs : List Json)
  | obj (ms : List (Bytes × Json))

def Json.getString : Json → Option Bytes
  | .str s => some s
  | _ => none

def Json.getInt : Json → Option Int
  | .int n => some n
  | _ => none

/-- `boost::lexical_cast<std::string>(n)`. -/
def intText (n : Int) : Bytes :=
  if n < 0 then ascii "-" ++ decimal n.natAbs else decimal n.toNat

/-- `HostPairT`: host and port. -/
abbrev HostPair := Bytes × Bytes

/-- The order of `std::pair<std::string, std::string>`. -/
abbrev hostLt : HostPair → HostPair → Prop := Prod.Lex (· < ·) (· < ·)

abbrev HostSet := OrderedSet hostLt

/-- The locals of the loop over the nodes, and `ret`. -/
structure NodeState where
  host : Bytes := []
  port : Bytes := []
  serviceName : Bytes := []
  type : ServiceType := .custom
  serviceTags : List Bytes := []
  isPassing : Bool := false
  ret : Bool := true
deriving DecidableEq, Repr

/-- `parseServiceNodeInfo`. -/
def parseServiceNodeInfo (v : Json) (st : NodeState) : Option NodeState :=
  match v with
  | .obj ms =>
    match ms.lookup (ascii "Address") with
    | some value => value.getString.map fun host => { st with host := host, ret := true }
    | none => some { st with ret := false }
  | _ => some { st with ret := false }

/-- A tag in lower case: the protocol it names, or a tag of the service. -/
def readTag (st : NodeState) (tag : Bytes) : NodeState :=
  if tag = ascii "http" then { st with type := .http }
  else if tag = ascii "raw" then { st with type := .raw }
  else if tag = ascii "rpc" then { st with type := .rpc }
  else { st with serviceTags := st.serviceTags ++ [tag] }

/-- One member in the loop of `parseServiceInfo`. -/
def parseServiceMember (st : NodeState) (m : Bytes × Json) : Option NodeState :=
  if m.1 = ascii "Port" then m.2.getInt.map fun n => { st with port := intText n }
  else if m.1 = ascii "Tags" then
    match m.2 with
    | .arr tags => tags.foldlM (fun st tag => tag.getString.map fun s => readTag st (toLower s)) st
    | _ => some st
  else if m.1 = ascii "Service" then m.2.getString.map fun s => { st with serviceName := s }
  else some st

/-- The default tag. -/
def addDev (st : NodeState) : NodeState :=
  if st.serviceName ≠ [] ∧ st.serviceTags = [] then { st with serviceTags := [ascii "dev"] }
  else st

/-- `parseServiceInfo`. -/
def parseServiceInfo (v : Json) (st : NodeState) : Option NodeState :=
  match v with
  | .obj ms =>
    (ms.foldlM parseServiceMember
      { st with type := .custom, serviceTags := [], serviceName := [], ret := true }).map addDev
  | _ => some { st with ret := false }

/-- The members of one check, up to a status that is not `passing`. -/
def membersPassing : List (Bytes × Json) → Option Bool
  | [] => some true
  | m :: ms =>
    if m.1 = ascii "Status" then
      m.2.getString.bind fun s => if s = ascii "passing" then membersPassing ms else some false
    else membersPassing ms

def checksPassing : List Json → Option Bool
  | [] => some true
  | .obj ms :: checks =>
    (membersPassing ms).bind fun passing => if passing then checksPassing checks else some false
  | _ :: _ => none

/-- `parseServiceCheckInfo`. -/
def parseServiceCheckInfo (v : Json) (st : NodeState) : Option NodeState :=
  match v with
  | .arr checks => (checksPassing checks).map fun b => { st with isPassing := b, ret := true }
  | _ => some { st with isPassing := true, ret := true }

def parseNodeMember (st : NodeState) (m : Bytes × Json) : Option NodeState :=
  if m.1 = ascii "Node" then parseServiceNodeInfo m.2 st
  else if m.1 = ascii "Service" then parseServiceInfo m.2 st
  else if m.1 = ascii "Checks" then parseServiceCheckInfo m.2 st
  else some st

/-- The loop over the members of a node, which stops when a part cannot be read. -/
def parseNodeMembers : List (Bytes × Json) → NodeState → Option NodeState
  | [], st => some st
  | m :: ms, st =>
    (parseNodeMember st m).bind fun st' => if st'.ret then parseNodeMembers ms st' else some st'

def parseNode : Json → Option NodeState
  | .obj ms => parseNodeMembers ms {}
  | _ => none

/-- `service_name + connector + tag`. -/
def serviceKey (serviceName tag : Bytes) : Bytes := serviceName ++ ascii "-" ++ tag

/-- `std::map<std::string, std::set<HostPairT>>`. -/
abbrev HostSets := AList fun _ : Bytes => HostSet

/-- `node_list`. -/
abbrev NodeList := ServiceType → HostSets

/-- `server_info[key].insert(hp)`. -/
def insertHost (info : HostSets) (hp : HostPair) (key : Bytes) : HostSets :=
  info.insert key (((info.lookup key).getD .empty).insert hp)

/-- The end of the loop over the nodes. -/
def addNode (nodeList : NodeList) (st : NodeState) : NodeList :=
  if st.isPassing = false ∨ st.ret = false then nodeList
  else
    Function.update nodeList st.type
      ((st.serviceTags.map (serviceKey st.serviceName)).foldl
        (fun info key => insertHost info (st.host, st.port) key) (nodeList st.type))

/-- `parseServiceInfoRsp` of a response that is JSON: it returns false, or the nodes. -/
def parseServiceInfoRsp (doc : Json) : Option (Option NodeList) :=
  match doc with
  | .arr nodes =>
    (nodes.foldlM (fun nodeList node => (parseNode node).map (addNode nodeList))
      fun _ => ∅).map some
  | _ => some none

/-! ## What a response says -/

/-- One node of a health response, with the statuses of its checks if it has a `Checks`
    member. -/
structure Node where
  host : Bytes
  port : Int
  service : Bytes
  tags : List Bytes
  statuses : Option (List Bytes)
deriving DecidableEq, Repr

/-- The protocol that a tag in lower case names. -/
def protocol? (tag : Bytes) : Option ServiceType :=
  if tag = ascii "http" then some .http
  else if tag = ascii "raw" then some .raw
  else if tag = ascii "rpc" then some .rpc
  else none

/-- The protocol of the last tag that names one. -/
def lastProtocol (tags : List Bytes) (d : ServiceType) : ServiceType :=
  (tags.filterMap protocol?).getLast?.getD d

/-- The tags that name no protocol. -/
def plainTags (tags : List Bytes) : List Bytes := tags.filter fun tag => (protocol? tag).isNone

namespace Node

def address (n : Node) : HostPair := (n.host, intText n.port)

/-- There are checks, and no status differs from `passing`. -/
def passing (n : Node) : Bool :=
  match n.statuses with
  | some statuses => statuses.all (· = ascii "passing")
  | none => false

/-- The last protocol tag wins. -/
def type (n : Node) : ServiceType := lastProtocol (n.tags.map toLower) .custom

/-- The other tags, in lower case; `dev` for a named service without any. -/
def serviceTags (n : Node) : List Bytes :=
  if n.service ≠ [] ∧ plainTags (n.tags.map toLower) = [] then [ascii "dev"]
  else plainTags (n.tags.map toLower)

def keys (n : Node) : List Bytes := n.serviceTags.map (serviceKey n.service)

end Node

/-- The statuses of one check. -/
def Json.statuses : Json → Option (List Bytes)
  | .obj ms => (ms.filter (·.1 = ascii "Status")).mapM (·.2.getString)
  | _ => none

/-- The members of an object have different names. -/
def DistinctNames (ms : List (Bytes × Json)) : Prop := (ms.map Prod.fst).Nodup

/-- The `Tags` member: an array of strings, or no array at all. -/
def TagsAre (v : Option Json) (tags : List Bytes) : Prop :=
  v = some (.arr (tags.map .str)) ∨ tags = [] ∧ (v = none ∨ v = some .other)

/-- The `Checks` member: an array of objects, or none. -/
def ChecksAre (v : Option Json) (statuses : Option (List Bytes)) : Prop :=
  match statuses with
  | some statuses =>
    ∃ checks lists, v = some (.arr checks) ∧ checks.mapM Json.statuses = some lists ∧
      statuses = lists.flatten
  | none => v = none

/-- A well-formed entry of a health response. -/
structure Describes (members nodeMembers serviceMembers : List (Bytes × Json)) (n : Node) :
    Prop where
  distinct : DistinctNames members
  node : members.lookup (ascii "Node") = some (.obj nodeMembers)
  address : nodeMembers.lookup (ascii "Address") = some (.str n.host)
  service : members.lookup (ascii "Service") = some (.obj serviceMembers)
  distinctService : DistinctNames serviceMembers
  port : serviceMembers.lookup (ascii "Port") = some (.int n.port)
  name : serviceMembers.lookup (ascii "Service") = some (.str n.service)
  tags : TagsAre (serviceMembers.lookup (ascii "Tags")) n.tags
  checks : ChecksAre (members.lookup (ascii "Checks")) n.statuses

/-- A well-formed health response and its nodes. -/
def WellFormed (doc : Json) (nodes : List Node) : Prop :=
  ∃ entries, doc = .arr entries ∧
    List.Forall₂ (fun entry n => ∃ members nodeMembers serviceMembers,
      entry = .obj members ∧ Describes members nodeMembers serviceMembers n) entries nodes

/-! ## Members by name -/

section Members

variable {ms : List (Bytes × Json)} {name : Bytes} {v : Json}

theorem filter_of_lookup (hd : DistinctNames ms) (h : ms.lookup name = some v) :
    ms.filter (·.1 = name) = [(name, v)] := by
  induction ms with
  | nil => simp at h
  | cons m ms ih =>
    obtain ⟨hm, hms⟩ := List.nodup_cons.mp hd
    rw [List.lookup_cons] at h
    by_cases hn : m.1 = name
    · have hnone : ms.filter (·.1 = name) = [] := by
        rw [List.filter_eq_nil_iff]
        intro m' hm' hn'
        exact hm (List.mem_map.mpr ⟨m', hm', by simpa [hn] using hn'⟩)
      have hv : m.2 = v := by simpa [hn] using h
      rw [List.filter_cons_of_pos (by simpa using hn), hnone, ← hv, ← hn]
    · have hne : (name == m.1) = false := by simpa using Ne.symm hn
      rw [List.filter_cons_of_neg (by simpa using hn)]
      exact ih hms (by simpa [hne] using h)

theorem filter_of_lookup_none (h : ms.lookup name = none) : ms.filter (·.1 = name) = [] := by
  rw [List.filter_eq_nil_iff]
  intro m hm hn
  have := List.lookup_eq_none_iff.mp h m hm
  simp_all

/-- The member of this name, if there is one, has this value. -/
theorem eq_of_filter (h : ms.filter (·.1 = name) = [(name, v)]) :
    (∃ m ∈ ms, m.1 = name) ∧ ∀ m ∈ ms, m.1 = name → m.2 = v := by
  constructor
  · have : (name, v) ∈ ms.filter (·.1 = name) := by simp [h]
    exact ⟨_, (List.mem_filter.mp this).1, rfl⟩
  · intro m hm hn
    have : m ∈ ms.filter (·.1 = name) := List.mem_filter.mpr ⟨hm, by simpa using hn⟩
    rw [h, List.mem_singleton] at this
    rw [this]

end Members

/-! ## The parts of an entry -/

theorem lastProtocol_append (a b : List Bytes) (d : ServiceType) :
    lastProtocol (a ++ b) d = lastProtocol b (lastProtocol a d) := by
  unfold lastProtocol
  rw [List.filterMap_append, List.getLast?_append]
  cases (b.filterMap protocol?).getLast? <;> rfl

theorem readTag_eq (st : NodeState) (tag : Bytes) :
    readTag st tag = { st with
      type := lastProtocol [tag] st.type, serviceTags := st.serviceTags ++ plainTags [tag] } := by
  have hcases : readTag st tag = match protocol? tag with
      | some t => { st with type := t }
      | none => { st with serviceTags := st.serviceTags ++ [tag] } := by
    unfold readTag protocol?
    split_ifs <;> rfl
  rw [hcases]
  cases htag : protocol? tag <;> simp [lastProtocol, plainTags, htag]

theorem foldl_readTag (tags : List Bytes) (st : NodeState) :
    tags.foldl readTag st = { st with
      type := lastProtocol tags st.type, serviceTags := st.serviceTags ++ plainTags tags } := by
  induction tags generalizing st with
  | nil => simp [lastProtocol, plainTags]
  | cons tag tags ih =>
    rw [List.foldl_cons, ih, readTag_eq]
    have hlast := lastProtocol_append [tag] tags st.type
    have hplain : plainTags (tag :: tags) = plainTags [tag] ++ plainTags tags :=
      List.filter_append [tag] tags
    simp only [List.singleton_append] at hlast
    rw [hlast, hplain, List.append_assoc]

theorem foldlM_readTag (tags : List Bytes) (st : NodeState) :
    (tags.map Json.str).foldlM
        (fun st tag => tag.getString.map fun s => readTag st (toLower s)) st =
      some ((tags.map toLower).foldl readTag st) := by
  induction tags generalizing st with
  | nil => rfl
  | cons tag tags ih => exact ih _

/-- The tags among the members of `Service`, in lower case. -/
def tagsOf (ms : List (Bytes × Json)) : List Bytes :=
  (ms.filter (·.1 = ascii "Tags")).flatMap fun m =>
    match m.2 with
    | .arr vs => (vs.filterMap Json.getString).map toLower
    | _ => []

theorem filterMap_getString (tags : List Bytes) :
    (tags.map Json.str).filterMap Json.getString = tags := by
  rw [List.filterMap_map]
  exact List.filterMap_some

theorem tagsOf_arr (tags : List Bytes) :
    tagsOf [(ascii "Tags", .arr (tags.map Json.str))] = tags.map toLower := by
  simp [tagsOf, -List.filterMap_map, filterMap_getString]

theorem parseServiceMember_eq {m : Bytes × Json} {n : Node} (st : NodeState)
    (hport : m.1 = ascii "Port" → m.2 = .int n.port)
    (hname : m.1 = ascii "Service" → m.2 = .str n.service)
    (htags : m.1 = ascii "Tags" → ∀ vs, m.2 = .arr vs →
      ∃ tags : List Bytes, vs = tags.map Json.str) :
    parseServiceMember st m = some { st with
      port := if m.1 = ascii "Port" then intText n.port else st.port
      serviceName := if m.1 = ascii "Service" then n.service else st.serviceName
      type := lastProtocol (tagsOf [m]) st.type
      serviceTags := st.serviceTags ++ plainTags (tagsOf [m]) } := by
  obtain ⟨name, v⟩ := m
  simp only at hport hname htags ⊢
  have htagsOf (h : name ≠ ascii "Tags") : tagsOf [(name, v)] = [] := by simp [tagsOf, h]
  have hnil (d : ServiceType) : lastProtocol [] d = d := rfl
  unfold parseServiceMember
  by_cases h₁ : name = ascii "Port"
  · subst h₁
    rw [htagsOf (by decide), hport rfl]
    simp [Json.getInt, hnil, plainTags, show ascii "Port" ≠ ascii "Service" by decide]
  by_cases h₂ : name = ascii "Tags"
  · subst h₂
    simp only [h₁, if_false, if_true, show ascii "Tags" ≠ ascii "Service" by decide]
    cases v with
    | arr vs =>
      obtain ⟨tags, rfl⟩ := htags rfl vs rfl
      simp only [foldlM_readTag, foldl_readTag, tagsOf_arr]
    | _ => simp [tagsOf, hnil, plainTags]
  by_cases h₃ : name = ascii "Service"
  · subst h₃
    rw [htagsOf h₂, hname rfl]
    simp [h₁, h₂, Json.getString, hnil, plainTags]
  · rw [htagsOf h₂]
    simp [h₁, h₂, h₃, hnil, plainTags]

theorem ite_any_cons {α : Type} (m : Bytes × Json) (ms : List (Bytes × Json)) (name : Bytes)
    (x d : α) :
    (if (m :: ms).any (·.1 = name) then x else d) =
      if ms.any (·.1 = name) then x else if m.1 = name then x else d := by
  rw [List.any_cons]
  by_cases h : m.1 = name
  · rw [decide_eq_true h, Bool.true_or, if_pos rfl, if_pos h, ite_self]
  · rw [decide_eq_false h, Bool.false_or, if_neg h]

theorem foldlM_parseServiceMember {ms : List (Bytes × Json)} {n : Node} (st : NodeState)
    (hport : ∀ m ∈ ms, m.1 = ascii "Port" → m.2 = .int n.port)
    (hname : ∀ m ∈ ms, m.1 = ascii "Service" → m.2 = .str n.service)
    (htags : ∀ m ∈ ms, m.1 = ascii "Tags" → ∀ vs, m.2 = .arr vs →
      ∃ tags : List Bytes, vs = tags.map Json.str) :
    ms.foldlM parseServiceMember st = some { st with
      port := if ms.any (·.1 = ascii "Port") then intText n.port else st.port
      serviceName := if ms.any (·.1 = ascii "Service") then n.service else st.serviceName
      type := lastProtocol (tagsOf ms) st.type
      serviceTags := st.serviceTags ++ plainTags (tagsOf ms) } := by
  induction ms generalizing st with
  | nil => simp [tagsOf, lastProtocol, plainTags]
  | cons m ms ih =>
    rw [List.foldlM_cons, parseServiceMember_eq st (hport m List.mem_cons_self)
      (hname m List.mem_cons_self) (htags m List.mem_cons_self)]
    rw [Option.bind_eq_bind, Option.bind_some,
      ih _ (fun m' hm' => hport m' (List.mem_cons_of_mem _ hm'))
        (fun m' hm' => hname m' (List.mem_cons_of_mem _ hm'))
        fun m' hm' => htags m' (List.mem_cons_of_mem _ hm')]
    have hcons : tagsOf (m :: ms) = tagsOf [m] ++ tagsOf ms := by
      simp only [tagsOf, ← List.flatMap_append, ← List.filter_append, List.singleton_append]
    have hplain : plainTags (tagsOf [m] ++ tagsOf ms) =
        plainTags (tagsOf [m]) ++ plainTags (tagsOf ms) := List.filter_append ..
    rw [hcons, lastProtocol_append, hplain, ite_any_cons, ite_any_cons, List.append_assoc]

/-- `parseServiceInfo` of a well-formed entry. -/
theorem parseServiceInfo_eq {members nodeMembers serviceMembers : List (Bytes × Json)} {n : Node}
    (h : Describes members nodeMembers serviceMembers n) (st : NodeState) :
    parseServiceInfo (.obj serviceMembers) st = some { st with
      port := intText n.port, serviceName := n.service, type := n.type
      serviceTags := n.serviceTags, ret := true } := by
  obtain ⟨⟨mp, hmp, hpn⟩, hport⟩ := eq_of_filter (filter_of_lookup h.distinctService h.port)
  obtain ⟨⟨ms, hms, hsn⟩, hname⟩ := eq_of_filter (filter_of_lookup h.distinctService h.name)
  have htagsOf : tagsOf serviceMembers = n.tags.map toLower := by
    unfold tagsOf
    rcases h.tags with htags | ⟨hnil, htags | htags⟩
    · rw [filter_of_lookup h.distinctService htags]
      simpa [tagsOf] using tagsOf_arr n.tags
    · simp [filter_of_lookup_none htags, hnil]
    · simp [filter_of_lookup h.distinctService htags, hnil]
  have htags : ∀ m ∈ serviceMembers, m.1 = ascii "Tags" → ∀ vs, m.2 = .arr vs →
      ∃ tags : List Bytes, vs = tags.map Json.str := by
    intro m hm hn vs hvs
    rcases h.tags with htags | ⟨-, htags | htags⟩
    · have := (eq_of_filter (filter_of_lookup h.distinctService htags)).2 m hm hn
      exact ⟨n.tags, Json.arr.inj (hvs.symm.trans this)⟩
    · have hnone := filter_of_lookup_none htags
      have : m ∈ serviceMembers.filter (·.1 = ascii "Tags") :=
        List.mem_filter.mpr ⟨hm, by simpa using hn⟩
      simp [hnone] at this
    · have := (eq_of_filter (filter_of_lookup h.distinctService htags)).2 m hm hn
      simp [hvs] at this
  have hanyPort : serviceMembers.any (·.1 = ascii "Port") = true :=
    List.any_eq_true.mpr ⟨mp, hmp, by simpa using hpn⟩
  have hanyName : serviceMembers.any (·.1 = ascii "Service") = true :=
    List.any_eq_true.mpr ⟨ms, hms, by simpa using hsn⟩
  unfold parseServiceInfo
  simp only [foldlM_parseServiceMember _ hport hname htags, hanyPort, hanyName, htagsOf,
    Option.map_some, if_true, List.nil_append, addDev, Node.serviceTags, Node.type]
  split <;> rfl

theorem membersPassing_eq {ms : List (Bytes × Json)} {statuses : List Bytes}
    (h : (ms.filter (·.1 = ascii "Status")).mapM (·.2.getString) = some statuses) :
    membersPassing ms = some (statuses.all (· = ascii "passing")) := by
  induction ms generalizing statuses with
  | nil =>
    obtain rfl : [] = statuses := by simpa using h
    rfl
  | cons m ms ih =>
    unfold membersPassing
    by_cases hm : m.1 = ascii "Status"
    · rw [List.filter_cons_of_pos (by simpa using hm), List.mapM_cons] at h
      obtain ⟨s, hs, h⟩ := Option.bind_eq_some_iff.mp h
      obtain ⟨ss, hss, h⟩ := Option.bind_eq_some_iff.mp h
      obtain rfl : s :: ss = statuses := by simpa using h
      rw [if_pos hm, hs, Option.bind_some, ih hss]
      by_cases hp : s = ascii "passing" <;> simp [hp]
    · rw [List.filter_cons_of_neg (by simpa using hm)] at h
      rw [if_neg hm, ih h]

theorem checksPassing_eq {checks : List Json} {lists : List (List Bytes)}
    (h : checks.mapM Json.statuses = some lists) :
    checksPassing checks = some (lists.flatten.all (· = ascii "passing")) := by
  induction checks generalizing lists with
  | nil =>
    obtain rfl : [] = lists := by simpa using h
    rfl
  | cons check checks ih =>
    rw [List.mapM_cons] at h
    obtain ⟨ss, hss, h⟩ := Option.bind_eq_some_iff.mp h
    obtain ⟨sss, hsss, h⟩ := Option.bind_eq_some_iff.mp h
    obtain rfl : ss :: sss = lists := by simpa using h
    cases check with
    | obj ms =>
      unfold checksPassing
      rw [membersPassing_eq hss, Option.bind_some, ih hsss, List.flatten_cons, List.all_append]
      cases ss.all (· = ascii "passing") <;> rfl
    | _ => simp [Json.statuses] at hss

/-! ## The entries -/

section Entry

variable {members nodeMembers serviceMembers : List (Bytes × Json)} {n : Node}

theorem parseServiceNodeInfo_eq (h : Describes members nodeMembers serviceMembers n)
    (st : NodeState) :
    parseServiceNodeInfo (.obj nodeMembers) st = some { st with host := n.host, ret := true } := by
  simp [parseServiceNodeInfo, h.address, Json.getString]

theorem parseServiceCheckInfo_eq (h : Describes members nodeMembers serviceMembers n)
    {v : Json} (hv : members.lookup (ascii "Checks") = some v) (st : NodeState) :
    parseServiceCheckInfo v st = some { st with isPassing := n.passing, ret := true } := by
  have hchecks := h.checks
  rw [hv] at hchecks
  unfold ChecksAre at hchecks
  split at hchecks
  · rename_i statuses hst
    obtain ⟨checks, lists, hv', hlists, rfl⟩ := hchecks
    obtain rfl := Option.some.inj hv'
    simp [parseServiceCheckInfo, checksPassing_eq hlists, Node.passing, hst]
  · simp at hchecks

theorem parseNodeMember_eq (h : Describes members nodeMembers serviceMembers n)
    {m : Bytes × Json} (hm : m ∈ members) {st : NodeState} (hret : st.ret = true) :
    parseNodeMember st m = some { st with
      host := if m.1 = ascii "Node" then n.host else st.host
      port := if m.1 = ascii "Service" then intText n.port else st.port
      serviceName := if m.1 = ascii "Service" then n.service else st.serviceName
      type := if m.1 = ascii "Service" then n.type else st.type
      serviceTags := if m.1 = ascii "Service" then n.serviceTags else st.serviceTags
      isPassing := if m.1 = ascii "Checks" then n.passing else st.isPassing } := by
  unfold parseNodeMember
  by_cases h₁ : m.1 = ascii "Node"
  · rw [if_pos h₁, (eq_of_filter (filter_of_lookup h.distinct h.node)).2 m hm h₁,
      parseServiceNodeInfo_eq h, ← hret]
    simp [h₁, show ascii "Node" ≠ ascii "Service" by decide,
      show ascii "Node" ≠ ascii "Checks" by decide]
  rw [if_neg h₁]
  by_cases h₂ : m.1 = ascii "Service"
  · rw [if_pos h₂, (eq_of_filter (filter_of_lookup h.distinct h.service)).2 m hm h₂,
      parseServiceInfo_eq h, ← hret]
    simp [h₂, show ascii "Service" ≠ ascii "Node" by decide,
      show ascii "Service" ≠ ascii "Checks" by decide]
  rw [if_neg h₂]
  by_cases h₃ : m.1 = ascii "Checks"
  · rw [if_pos h₃]
    cases hv : members.lookup (ascii "Checks") with
    | none =>
      have : m ∈ members.filter (·.1 = ascii "Checks") :=
        List.mem_filter.mpr ⟨hm, by simpa using h₃⟩
      simp [filter_of_lookup_none hv] at this
    | some v =>
      rw [(eq_of_filter (filter_of_lookup h.distinct hv)).2 m hm h₃,
        parseServiceCheckInfo_eq h hv, ← hret, if_pos h₃]
      simp only [if_neg h₁, if_neg h₂]
  · simp [h₁, h₂, h₃]

theorem parseNodeMembers_eq (h : Describes members nodeMembers serviceMembers n)
    {ms : List (Bytes × Json)} (hms : ms ⊆ members) {st : NodeState} (hret : st.ret = true) :
    parseNodeMembers ms st = some { st with
      host := if ms.any (·.1 = ascii "Node") then n.host else st.host
      port := if ms.any (·.1 = ascii "Service") then intText n.port else st.port
      serviceName := if ms.any (·.1 = ascii "Service") then n.service else st.serviceName
      type := if ms.any (·.1 = ascii "Service") then n.type else st.type
      serviceTags := if ms.any (·.1 = ascii "Service") then n.serviceTags else st.serviceTags
      isPassing := if ms.any (·.1 = ascii "Checks") then n.passing else st.isPassing } := by
  induction ms generalizing st with
  | nil => rfl
  | cons m ms ih =>
    unfold parseNodeMembers
    have htail : ms ⊆ members := fun m' hm' => hms (List.mem_cons_of_mem _ hm')
    rw [parseNodeMember_eq h (hms List.mem_cons_self) hret, Option.bind_some, if_pos hret]
    refine (@ih htail _ ?_).trans ?_
    · exact hret
    · simp only [ite_any_cons]

/-- **A well-formed entry is read as it stands.** -/
theorem parseNode_eq (h : Describes members nodeMembers serviceMembers n) :
    parseNode (.obj members) = some
      { host := n.host, port := intText n.port, serviceName := n.service, type := n.type
        serviceTags := n.serviceTags, isPassing := n.passing, ret := true } := by
  have hany {name : Bytes} {v : Json} (hv : members.lookup name = some v) :
      members.any (·.1 = name) = true := by
    obtain ⟨m, hm, hn⟩ := (eq_of_filter (filter_of_lookup h.distinct hv)).1
    exact List.any_eq_true.mpr ⟨m, hm, by simpa using hn⟩
  have hpassing : (if members.any (·.1 = ascii "Checks") then n.passing else false) =
      n.passing := by
    cases hst : n.statuses with
    | none => simp [Node.passing, hst]
    | some statuses =>
      have hchecks := h.checks
      rw [hst] at hchecks
      obtain ⟨checks, lists, hv, -⟩ := hchecks
      rw [if_pos (hany hv)]
  refine (parseNodeMembers_eq h (List.Subset.refl _) rfl).trans ?_
  rw [hany h.node, hany h.service, hpassing]
  rfl

end Entry

/-! ## The response -/

/-- The host sets agree with the nodes: a key is there when a passing node has it, with
    the addresses of those nodes. -/
structure Agrees (nodes : List Node) (nodeList : NodeList) : Prop where
  mem : ∀ t k (hs : HostSet), (nodeList t).lookup k = some hs → ∀ p, p ∈ hs ↔
    ∃ n ∈ nodes, n.passing = true ∧ n.type = t ∧ k ∈ n.keys ∧ p = n.address
  isSome : ∀ t k, ((nodeList t).lookup k).isSome = true ↔
    ∃ n ∈ nodes, n.passing = true ∧ n.type = t ∧ k ∈ n.keys

theorem lookup_insertHosts (hp : HostPair) (keys : List Bytes) (info : HostSets) (k : Bytes) :
    ∀ hs, (keys.foldl (fun info key => insertHost info hp key) info).lookup k = some hs →
      ∀ p, p ∈ hs ↔ p ∈ (info.lookup k).getD .empty ∨ p = hp ∧ k ∈ keys := by
  induction keys generalizing info with
  | nil =>
    intro hs h p
    simp only [List.foldl_nil] at h
    simp [h]
  | cons key keys ih =>
    intro hs h p
    rw [List.foldl_cons] at h
    rw [ih _ hs h p]
    by_cases hk : k = key
    · subst hk
      simp only [insertHost, AList.lookup_insert, Option.getD_some, OrderedSet.mem_insert,
        List.mem_cons_self, and_true]
      tauto
    · simp only [insertHost, AList.lookup_insert_ne hk, List.mem_cons, hk, false_or]

theorem isSome_insertHosts (hp : HostPair) (keys : List Bytes) (info : HostSets) (k : Bytes) :
    ((keys.foldl (fun info key => insertHost info hp key) info).lookup k).isSome = true ↔
      (info.lookup k).isSome = true ∨ k ∈ keys := by
  induction keys generalizing info with
  | nil => simp
  | cons key keys ih =>
    rw [List.foldl_cons, ih]
    by_cases hk : k = key
    · subst hk
      simp [insertHost]
    · simp [insertHost, AList.lookup_insert_ne hk, hk]

/-- One more node. -/
theorem Agrees.addNode {nodes : List Node} {nodeList : NodeList} (h : Agrees nodes nodeList)
    (n : Node) :
    Agrees (nodes ++ [n]) (addNode nodeList
      { host := n.host, port := intText n.port, serviceName := n.service, type := n.type
        serviceTags := n.serviceTags, isPassing := n.passing, ret := true }) := by
  have hex (P : Node → Prop) : (∃ m ∈ nodes ++ [n], P m) ↔ (∃ m ∈ nodes, P m) ∨ P n := by
    simp [or_and_right, exists_or]
  unfold Registry.addNode
  cases hp : n.passing with
  | false =>
    rw [if_pos (.inl rfl)]
    constructor
    · intro t k hs hk p
      rw [hex, h.mem t k hs hk p]
      simp [hp]
    · intro t k
      rw [hex, h.isSome t k]
      simp [hp]
  | true =>
    rw [if_neg (by simp)]
    constructor
    · intro t k hs hk p
      rw [hex]
      by_cases ht : n.type = t
      · subst ht
        rw [Function.update_self] at hk
        rw [lookup_insertHosts _ _ _ k hs hk p]
        refine or_congr ?_ ?_
        · cases hl : (nodeList n.type).lookup k with
          | none =>
            have := (h.isSome n.type k).not.mp (by simp [hl])
            simp only [Option.getD_none, OrderedSet.not_mem_empty, false_iff]
            rintro ⟨m, hm, h₁, h₂, h₃, -⟩
            exact this ⟨m, hm, h₁, h₂, h₃⟩
          | some hs' => exact h.mem n.type k hs' hl p
        · simp only [hp, true_and]
          exact and_comm
      · rw [Function.update_of_ne (Ne.symm ht)] at hk
        rw [h.mem t k hs hk p]
        simp [ht]
    · intro t k
      rw [hex]
      by_cases ht : n.type = t
      · subst ht
        rw [Function.update_self, isSome_insertHosts, h.isSome n.type k]
        simp [hp, Node.keys]
      · rw [Function.update_of_ne (Ne.symm ht), h.isSome t k]
        simp [ht]

/-- **A well-formed response is read as it stands.** -/
theorem parseServiceInfoRsp_agrees {doc : Json} {nodes : List Node} (h : WellFormed doc nodes) :
    ∃ nodeList, parseServiceInfoRsp doc = some (some nodeList) ∧ Agrees nodes nodeList := by
  obtain ⟨entries, rfl, hentries⟩ := h
  -- the nodes read so far agree with the node list built so far
  have hfold (done : List Node) (nodeList : NodeList) (hdone : Agrees done nodeList) :
      ∃ nodeList', entries.foldlM (fun nl node => (parseNode node).map (addNode nl)) nodeList =
        some nodeList' ∧ Agrees (done ++ nodes) nodeList' := by
    induction hentries generalizing done nodeList with
    | nil => exact ⟨nodeList, rfl, by simpa using hdone⟩
    | cons hentry _ ih =>
      obtain ⟨members, nodeMembers, serviceMembers, rfl, hn⟩ := hentry
      obtain ⟨nodeList', hnl, hagrees⟩ := ih _ _ (hdone.addNode _)
      refine ⟨nodeList', ?_, by simpa using hagrees⟩
      rw [List.foldlM_cons, parseNode_eq hn]
      exact hnl
  obtain ⟨nodeList, hnl, hagrees⟩ := hfold [] (fun _ => ∅) ⟨by simp, by simp⟩
  exact ⟨nodeList, by rw [parseServiceInfoRsp, hnl]; rfl, hagrees⟩

/-! ## A response for any nodes -/

def Node.serviceMembers (n : Node) : List (Bytes × Json) :=
  [(ascii "Service", .str n.service), (ascii "Port", .int n.port),
    (ascii "Tags", .arr (n.tags.map .str))]

/-- The entry of a node. -/
def Node.members (n : Node) : List (Bytes × Json) :=
  [(ascii "Node", .obj [(ascii "Address", .str n.host)]),
    (ascii "Service", .obj n.serviceMembers)] ++
    match n.statuses with
    | some statuses =>
      [(ascii "Checks", .arr (statuses.map fun s => .obj [(ascii "Status", .str s)]))]
    | none => []

/-- A response with these nodes. -/
def healthRsp (nodes : List Node) : Json := .arr (nodes.map fun n => .obj n.members)

theorem describes_members (n : Node) :
    Describes n.members [(ascii "Address", .str n.host)] n.serviceMembers n := by
  have hstatus (statuses : List Bytes) :
      (statuses.map fun s => Json.obj [(ascii "Status", .str s)]).mapM Json.statuses =
        some (statuses.map fun s => [s]) := by
    induction statuses with
    | nil => rfl
    | cons s statuses ih =>
      rw [List.map_cons, List.mapM_cons, ih]
      rfl
  constructor
  case distinct =>
    unfold Node.members DistinctNames
    cases n.statuses <;> simp [ascii]
  case checks =>
    unfold Node.members
    cases n.statuses with
    | none => rfl
    | some statuses =>
      refine ⟨_, statuses.map fun s => [s], rfl, hstatus statuses, ?_⟩
      rw [← List.flatMap_def, List.flatMap_singleton']
  case distinctService =>
    unfold Node.serviceMembers DistinctNames
    simp [ascii]
  case tags => exact .inl rfl
  all_goals rfl

theorem wellFormed_healthRsp (nodes : List Node) : WellFormed (healthRsp nodes) nodes := by
  refine ⟨_, rfl, ?_⟩
  induction nodes with
  | nil => exact .nil
  | cons n nodes ih => exact .cons ⟨_, _, _, rfl, describes_members n⟩ ih

end FiberProxy.Registry
