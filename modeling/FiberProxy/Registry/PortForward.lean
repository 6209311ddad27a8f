/-
  FiberProxy.Registry.PortForward

  Forward ports: `FibpServiceMgr::watchPortForwardChangeFunc` and the manager it
  drives (`forward-manager/FibpPortForwardMgr.cpp`).  The watcher polls the keys
  under `fibp-forward-port/`; a key is an agent's id and a name, its value a
  service and its type.  Every service named by a key gets one port, shared by
  the agents that ask for it.

  A poll is what the registry and the operating system answered while it was
  handled: the list of keys, the values that were fetched, and the ports that
  were bound.  A port that a running server listens on is never bound again.
-/

import FiberProxy.Lib.Run
import FiberProxy.Registry.ServiceInfo
import Mathlib.Data.Finset.Basic

namespace FiberProxy.Registry.PortForward

open Lib

/-- `AGENT_ID_LEN`. -/
def agentIdLen : Nat := 10

abbrev Port := UInt16

/-- `struct ServiceInfo`. -/
structure ServiceInfo where
  serviceName : Bytes
  type : ServiceType
deriving DecidableEq, Repr

/-- `service_uniquestr`. -/
def ServiceInfo.uniqueStr (si : ServiceInfo) : Bytes := si.serviceName ++ intText si.type.toInt

abbrev AgentSet := OrderedSet fun a b : Bytes => a < b

abbrev PortSet := OrderedSet fun a b : Port => a < b

/-! ## The manager -/

/-- `FibpPortForwardMgr`: what each port forwards to, and the ports that have a
    server. -/
structure PortForwardMgr where
  forwardServiceList : AList (fun _ : Port => ServiceInfo) := ∅
  forwardServerList : Finset Port := ∅

namespace PortForwardMgr

/-- `startPortForward`, for the port that was bound. -/
def startPortForward (m : PortForwardMgr) (port : Port) : PortForwardMgr :=
  { m with forwardServerList := insert port m.forwardServerList }

def updateForwardService (m : PortForwardMgr) (port : Port) (si : ServiceInfo) : PortForwardMgr :=
  { m with forwardServiceList := m.forwardServiceList.insert port si }

def getForwardService (m : PortForwardMgr) (port : Port) : Option ServiceInfo :=
  m.forwardServiceList.lookup port

def stopPortForward (m : PortForwardMgr) (port : Port) : PortForwardMgr :=
  if port ∈ m.forwardServerList then
    { forwardServiceList := m.forwardServiceList.erase port
      forwardServerList := m.forwardServerList.erase port }
  else m

end PortForwardMgr

/-! ## The watcher -/

/-- The locals of `watchPortForwardChangeFunc`, `ports_used_by_agent_` and the
    manager. -/
structure State where
  /-- The agents that use a port. -/
  lastPorts : AList (fun _ : Port => AgentSet) := ∅
  servicePortMap : AList (fun _ : Bytes => Port) := ∅
  previousKeys : AList (fun _ : Bytes => ServiceInfo) := ∅
  mgr : PortForwardMgr := {}
  portsUsedByAgent : AList (fun _ : Bytes => PortSet) := ∅

/-- What the watcher meets in one poll. -/
structure Poll where
  /-- The response with the keys. -/
  doc : Json
  /-- The value fetched for a key; `none`: the request failed. -/
  info : Bytes → Option Bytes
  /-- The ports bound for new services, in order; `none`: no server could be started. -/
  starts : List (Option Port)

/-- `parseForwardPortListRsp`: `some none` when it returns false, `none` where an element
    is no string. -/
def parseForwardPortListRsp : Json → Option (Option (List Bytes))
  | .arr vs =>
    (vs.mapM Json.getString).map fun keys =>
      -- the prefix is cut off by its length; it is not compared
      some ((keys.filter fun key => (ascii "fibp-forward-port/").length < key.length).map
        (·.drop (ascii "fibp-forward-port/").length))
  | _ => some none

/-- `boost::split` at commas with `token_compress_on`. -/
def splitCommas (inRun : Bool) : Bytes → List Bytes
  | [] => [[]]
  | b :: bs =>
    if b = 44 then
      if inRun then splitCommas true bs else [] :: splitCommas true bs
    else
      match splitCommas false bs with
      | [] => [[b]]
      | l :: ls => (b :: l) :: ls

/-- `getForwardPortInfo`, for the text that was fetched. -/
def getForwardPortInfo (info : Option Bytes) : Option ServiceInfo :=
  match info with
  | none => none
  | some info =>
    match splitCommas false info with
    | name :: type :: _ =>
      let type := toLower type
      some {
        serviceName := name
        type :=
          if type = ascii "http" then .http
          else if type = ascii "rpc" then .rpc
          else if type = ascii "raw" then .raw
          else .custom }
    | _ => none

/-- The variables of the loop over the keys. -/
structure Round where
  lastPorts : AList (fun _ : Port => AgentSet)
  servicePortMap : AList (fun _ : Bytes => Port)
  newKeys : AList (fun _ : Bytes => ServiceInfo)
  mgr : PortForwardMgr
  /-- The ports not bound yet. -/
  starts : List (Option Port)

/-- `last_ports[port].insert(agentid)`. -/
def addAgent (lastPorts : AList (fun _ : Port => AgentSet)) (port : Port) (agentid : Bytes) :
    AList (fun _ : Port => AgentSet) :=
  lastPorts.insert port (((lastPorts.lookup port).getD .empty).insert agentid)

/-- The service of a key: what it was in the last poll, or what is fetched. -/
def serviceOf (previousKeys : AList (fun _ : Bytes => ServiceInfo)) (info : Bytes → Option Bytes)
    (key : Bytes) : Option ServiceInfo :=
  (previousKeys.lookup key).or (getForwardPortInfo (info key))

section Handle

variable (previousKeys : AList (fun _ : Bytes => ServiceInfo)) (info : Bytes → Option Bytes)

/-- `new_keys[forwardkey] = si`. -/
def Round.note (r : Round) (key : Bytes) (si : ServiceInfo) : Round :=
  { r with newKeys := r.newKeys.insert key si }

/-- The service has no port yet: one is bound. -/
def Round.start (r : Round) (key : Bytes) (si : ServiceInfo) : Option Round :=
  match r.starts with
  | [] => none
  | none :: starts => some { r with starts := starts }
  | some port :: starts =>
    if port ∈ r.mgr.forwardServerList then none
    else
      some { r with
        lastPorts := addAgent r.lastPorts port (key.take agentIdLen)
        servicePortMap := r.servicePortMap.insert si.uniqueStr port
        mgr := (r.mgr.startPortForward port).updateForwardService port si
        starts := starts }

/-- One turn of the loop over the keys. -/
def handleKey (r : Round) (key : Bytes) : Option Round :=
  if key.length ≤ agentIdLen then some r
  else
    match serviceOf previousKeys info key with
    | none => some r
    | some si =>
      match r.servicePortMap.lookup si.uniqueStr with
      | some port =>
        some { r.note key si with lastPorts := addAgent r.lastPorts port (key.take agentIdLen) }
      | none => (r.note key si).start key si

end Handle

/-- The agents of every port are forgotten before the keys are read. -/
def clearAgents (lastPorts : AList (fun _ : Port => AgentSet)) :
    AList (fun _ : Port => AgentSet) :=
  lastPorts.keys.foldl (fun m port => m.insert port .empty) lastPorts

/-- The ports that no agent uses. -/
def removedPorts (lastPorts : AList (fun _ : Port => AgentSet)) : List Port :=
  lastPorts.keys.filter fun port => (lastPorts.lookup port).all (·.toList.isEmpty)

/-- A port that no agent uses is stopped.  The erasure from `last_ports` is a loop of its
    own in the source, over the same ports. -/
def Round.stop (r : Round) (port : Port) : Round :=
  { r with
    servicePortMap :=
      match r.mgr.getForwardService port with
      | some si => r.servicePortMap.erase si.uniqueStr
      | none => r.servicePortMap
    mgr := r.mgr.stopPortForward port
    lastPorts := r.lastPorts.erase port }

/-- What the agents are told: the ports they use are added. -/
def usePorts (used : AList (fun _ : Bytes => PortSet))
    (lastPorts : AList (fun _ : Port => AgentSet)) : AList (fun _ : Bytes => PortSet) :=
  lastPorts.entries.foldl (fun used e =>
    e.2.toList.foldl (fun used agentid =>
      used.insert agentid (((used.lookup agentid).getD .empty).insert e.1)) used) used

/-- The end of an iteration. -/
def State.finish (s : State) (r : Round) : State :=
  let r' := (removedPorts r.lastPorts).foldl Round.stop r
  { lastPorts := r'.lastPorts
    servicePortMap := r'.servicePortMap
    previousKeys := r.newKeys
    mgr := r'.mgr
    portsUsedByAgent := usePorts s.portsUsedByAgent r'.lastPorts }

/-- The loop over the keys begins. -/
def State.round (s : State) (p : Poll) : Round where
  lastPorts := clearAgents s.lastPorts
  servicePortMap := s.servicePortMap
  newKeys := ∅
  mgr := s.mgr
  starts := p.starts

/-- One iteration of `watchPortForwardChangeFunc`. -/
def step (s : State) (p : Poll) : Option State :=
  match parseForwardPortListRsp p.doc with
  | none => none
  | some none => some s
  | some (some []) => some { s with previousKeys := ∅ }
  | some (some (key :: keys)) =>
    (run (handleKey s.previousKeys p.info) (s.round p) (key :: keys)).map s.finish

/-! ## The books agree -/

theorem typeText (t : ServiceType) : ∃ d, intText t.toInt = [d] := by
  cases t <;> exact ⟨_, rfl⟩

/-- A type is one digit, so the name and the type can be read back. -/
theorem uniqueStr_inj {a b : ServiceInfo} (h : a.uniqueStr = b.uniqueStr) : a = b := by
  obtain ⟨d, hd⟩ := typeText a.type
  obtain ⟨d', hd'⟩ := typeText b.type
  unfold ServiceInfo.uniqueStr at h
  obtain ⟨hname, htype⟩ := List.append_inj' h (by rw [hd, hd']; rfl)
  have hinj : a.type = b.type := by
    revert htype
    cases a.type <;> cases b.type <;> decide
  cases a
  cases b
  simp_all

/-- `service_port_map`, the keys of `last_ports` and the tables of the manager say the
    same. -/
structure Books (lastPorts : AList (fun _ : Port => AgentSet))
    (servicePortMap : AList (fun _ : Bytes => Port)) (mgr : PortForwardMgr) : Prop where
  served : ∀ u port, servicePortMap.lookup u = some port ↔
    ∃ si, mgr.forwardServiceList.lookup port = some si ∧ si.uniqueStr = u
  ports : ∀ port, port ∈ lastPorts ↔ port ∈ mgr.forwardServiceList
  servers : ∀ port, port ∈ mgr.forwardServerList ↔ port ∈ mgr.forwardServiceList

def Round.Books (r : Round) : Prop := PortForward.Books r.lastPorts r.servicePortMap r.mgr

def State.Books (s : State) : Prop := PortForward.Books s.lastPorts s.servicePortMap s.mgr

/-- The agents of a port. -/
def agents (lastPorts : AList (fun _ : Port => AgentSet)) (port : Port) : AgentSet :=
  (lastPorts.lookup port).getD .empty

theorem lookup_clearAgents (m : AList (fun _ : Port => AgentSet)) (port : Port) :
    (clearAgents m).lookup port = if port ∈ m then some .empty else none := by
  have hfold (ps : List Port) (m : AList (fun _ : Port => AgentSet)) :
      (ps.foldl (fun m p => m.insert p .empty) m).lookup port =
        if port ∈ ps then some .empty else m.lookup port := by
    induction ps generalizing m with
    | nil => simp
    | cons p ps ih =>
      rw [List.foldl_cons, ih]
      by_cases hp : port = p
      · subst hp
        simp
      · simp [AList.lookup_insert_ne hp, hp]
  unfold clearAgents
  rw [hfold]
  simp only [AList.mem_keys]
  split
  · rfl
  · exact AList.lookup_eq_none.mpr ‹_›

theorem mem_clearAgents {m : AList (fun _ : Port => AgentSet)} {port : Port} :
    port ∈ clearAgents m ↔ port ∈ m := by
  rw [← AList.lookup_isSome, lookup_clearAgents]
  split <;> simp [*]

theorem agents_clearAgents (m : AList (fun _ : Port => AgentSet)) (port : Port) :
    agents (clearAgents m) port = .empty := by
  unfold agents
  rw [lookup_clearAgents]
  split <;> rfl

theorem mem_addAgent {m : AList (fun _ : Port => AgentSet)} {port port' : Port} {agentid : Bytes} :
    port' ∈ addAgent m port agentid ↔ port' = port ∨ port' ∈ m := AList.mem_insert _

theorem mem_agents_addAgent {m : AList (fun _ : Port => AgentSet)} {port port' : Port}
    {a agentid : Bytes} : a ∈ agents (addAgent m port agentid) port' ↔
      (port' = port ∧ a = agentid) ∨ a ∈ agents m port' := by
  unfold agents addAgent
  by_cases h : port' = port
  · subst h
    simp [OrderedSet.mem_insert]
  · simp [AList.lookup_insert_ne h, h]

theorem State.Books.round {s : State} (h : s.Books) (p : Poll) : (s.round p).Books where
  served := h.served
  ports := fun port => mem_clearAgents.trans (h.ports port)
  servers := h.servers

/-! ## One turn of the loop over the keys -/

section Keys

variable {previousKeys : AList (fun _ : Bytes => ServiceInfo)} {info : Bytes → Option Bytes}

/-- What a turn can do. -/
inductive KeyStep (previousKeys : AList (fun _ : Bytes => ServiceInfo))
    (info : Bytes → Option Bytes) (r : Round) (key : Bytes) : Round → Prop where
  | short (hlen : key.length ≤ agentIdLen) : KeyStep previousKeys info r key r
  | unknown (hlen : agentIdLen < key.length) (hsi : serviceOf previousKeys info key = none) :
      KeyStep previousKeys info r key r
  | shared {si : ServiceInfo} {port : Port} (hlen : agentIdLen < key.length)
      (hsi : serviceOf previousKeys info key = some si)
      (hport : r.servicePortMap.lookup si.uniqueStr = some port) :
      KeyStep previousKeys info r key { r with
        newKeys := r.newKeys.insert key si
        lastPorts := addAgent r.lastPorts port (key.take agentIdLen) }
  | failed {si : ServiceInfo} {starts : List (Option Port)} (hlen : agentIdLen < key.length)
      (hsi : serviceOf previousKeys info key = some si) (hst : r.starts = none :: starts) :
      KeyStep previousKeys info r key
        { r with newKeys := r.newKeys.insert key si, starts := starts }
  | bound {si : ServiceInfo} {port : Port} {starts : List (Option Port)}
      (hlen : agentIdLen < key.length) (hsi : serviceOf previousKeys info key = some si)
      (hno : r.servicePortMap.lookup si.uniqueStr = none) (hst : r.starts = some port :: starts)
      (hfree : port ∉ r.mgr.forwardServerList) :
      KeyStep previousKeys info r key { r with
        newKeys := r.newKeys.insert key si
        lastPorts := addAgent r.lastPorts port (key.take agentIdLen)
        servicePortMap := r.servicePortMap.insert si.uniqueStr port
        mgr := (r.mgr.startPortForward port).updateForwardService port si
        starts := starts }

theorem keyStep_of_handleKey {r r' : Round} {key : Bytes}
    (h : handleKey previousKeys info r key = some r') : KeyStep previousKeys info r key r' := by
  unfold handleKey at h
  split at h
  · obtain rfl := Option.some.inj h
    exact .short ‹_›
  · rename_i hlen
    have hlen : agentIdLen < key.length := by omega
    split at h
    · obtain rfl := Option.some.inj h
      exact .unknown hlen ‹_›
    · rename_i si hsi
      split at h
      · obtain rfl := Option.some.inj h
        exact .shared hlen hsi ‹_›
      · rename_i hno
        unfold Round.start at h
        split at h
        · simp at h
        · obtain rfl := Option.some.inj h
          exact .failed hlen hsi ‹_›
        · rename_i hst
          split at h
          · simp at h
          · obtain rfl := Option.some.inj h
            exact .bound hlen hsi hno hst ‹_›

/-- A port is bound for a service that had none. -/
theorem Books.start {lastPorts : AList (fun _ : Port => AgentSet)}
    {servicePortMap : AList (fun _ : Bytes => Port)} {mgr : PortForwardMgr}
    (h : Books lastPorts servicePortMap mgr) {si : ServiceInfo} {port : Port} {agentid : Bytes}
    (hno : servicePortMap.lookup si.uniqueStr = none) (hfree : port ∉ mgr.forwardServerList) :
    Books (addAgent lastPorts port agentid) (servicePortMap.insert si.uniqueStr port)
      ((mgr.startPortForward port).updateForwardService port si) where
  served := by
    intro u p
    have hnew : mgr.forwardServiceList.lookup port = none :=
      AList.lookup_eq_none.mpr fun hmem => hfree ((h.servers port).mpr hmem)
    show (servicePortMap.insert si.uniqueStr port).lookup u = some p ↔
      ∃ si', (mgr.forwardServiceList.insert port si).lookup p = some si' ∧ si'.uniqueStr = u
    by_cases hp : p = port
    · subst hp
      rw [AList.lookup_insert]
      by_cases hu : u = si.uniqueStr
      · subst hu
        simp
      · rw [AList.lookup_insert_ne hu, h.served, hnew]
        simp [Ne.symm hu]
    · rw [AList.lookup_insert_ne hp]
      by_cases hu : u = si.uniqueStr
      · -- the service had no port
        subst hu
        rw [AList.lookup_insert, ← h.served, hno]
        simp [Ne.symm hp]
      · rw [AList.lookup_insert_ne hu, h.served]
  ports := by
    intro p
    rw [mem_addAgent, h.ports]
    exact (AList.mem_insert _).symm
  servers := by
    intro p
    show p ∈ insert port mgr.forwardServerList ↔ p ∈ mgr.forwardServiceList.insert port si
    rw [Finset.mem_insert, AList.mem_insert, h.servers]

theorem Round.Books.handleKey {r r' : Round} {key : Bytes} (hr : r.Books)
    (h : handleKey previousKeys info r key = some r') : r'.Books := by
  cases keyStep_of_handleKey h with
  | short | unknown => exact hr
  | failed => exact ⟨hr.served, hr.ports, hr.servers⟩
  | @shared si port hlen hsi hport =>
    refine ⟨hr.served, fun p => ?_, hr.servers⟩
    rw [mem_addAgent, hr.ports, or_iff_right_iff_imp]
    rintro rfl
    obtain ⟨si', hsi', -⟩ := (hr.served _ _).mp hport
    exact AList.lookup_isSome.mp (by rw [hsi']; rfl)
  | bound hlen hsi hno hst hfree => exact Books.start hr hno hfree

/-- A turn takes no port from a service, and no agent from a port. -/
theorem KeyStep.grows {r r' : Round} {key : Bytes} (h : KeyStep previousKeys info r key r') :
    (∀ u port, r.servicePortMap.lookup u = some port → r'.servicePortMap.lookup u = some port) ∧
      ∀ port a, a ∈ agents r.lastPorts port → a ∈ agents r'.lastPorts port := by
  cases h with
  | short | unknown | failed => exact ⟨fun _ _ h => h, fun _ _ h => h⟩
  | shared => exact ⟨fun _ _ h => h, fun _ _ h => mem_agents_addAgent.mpr (.inr h)⟩
  | @bound si port starts hlen hsi hno hst hfree =>
    refine ⟨fun u p h => ?_, fun _ _ h => mem_agents_addAgent.mpr (.inr h)⟩
    have hu : u ≠ si.uniqueStr := by
      rintro rfl
      simp [hno] at h
    rw [AList.lookup_insert_ne hu]
    exact h

/-- The key asks for the service. -/
def Asks (previousKeys : AList (fun _ : Bytes => ServiceInfo)) (info : Bytes → Option Bytes)
    (key : Bytes) (si : ServiceInfo) : Prop :=
  agentIdLen < key.length ∧ serviceOf previousKeys info key = some si

/-- What the loop has done when it has read the keys `keys`, the results of
    `startPortForward` being `starts`. -/
structure Read (previousKeys : AList (fun _ : Bytes => ServiceInfo)) (info : Bytes → Option Bytes)
    (starts : List (Option Port)) (keys : List Bytes) (r : Round) : Prop where
  books : r.Books
  suffix : r.starts <:+ starts
  noted : ∀ key si, r.newKeys.lookup key = some si ↔ key ∈ keys ∧ Asks previousKeys info key si
  -- a port has agents only for a key that asks for its service
  used : ∀ port a, a ∈ agents r.lastPorts port →
    ∃ key ∈ keys, ∃ si, Asks previousKeys info key si ∧
      r.servicePortMap.lookup si.uniqueStr = some port
  attached : none ∉ starts → ∀ key ∈ keys, ∀ si, Asks previousKeys info key si →
    ∃ port, r.servicePortMap.lookup si.uniqueStr = some port ∧
      key.take agentIdLen ∈ agents r.lastPorts port

theorem read_nil {s : State} (hs : s.Books) (p : Poll) :
    Read s.previousKeys p.info p.starts [] (s.round p) where
  books := hs.round p
  suffix := List.suffix_rfl
  noted := by simp [State.round]
  used := by
    intro port a ha
    rw [State.round, agents_clearAgents] at ha
    exact absurd ha (OrderedSet.not_mem_empty a)
  attached := by simp

/-- The keys noted after one more. -/
theorem noted_snoc {keys : List Bytes} {m : AList (fun _ : Bytes => ServiceInfo)} {key : Bytes}
    {si : ServiceInfo} (hsi : Asks previousKeys info key si)
    (h : ∀ k si', m.lookup k = some si' ↔ k ∈ keys ∧ Asks previousKeys info k si') (k : Bytes)
    (si' : ServiceInfo) : (m.insert key si).lookup k = some si' ↔
      k ∈ keys ++ [key] ∧ Asks previousKeys info k si' := by
  by_cases hk : k = key
  · subst hk
    rw [AList.lookup_insert]
    have hiff : Asks previousKeys info k si' ↔ si = si' := by
      simp [Asks, hsi.1, hsi.2]
    simp [hiff]
  · rw [AList.lookup_insert_ne hk, h]
    simp [hk]

/-- The agents there were are still there for a key that asks for the service. -/
theorem Read.used_snoc {starts : List (Option Port)} {keys : List Bytes} {r r' : Round}
    {key : Bytes} (hr : Read previousKeys info starts keys r)
    (h : handleKey previousKeys info r key = some r') {port : Port} {a : Bytes}
    (ha : a ∈ agents r.lastPorts port) :
    ∃ k ∈ keys ++ [key], ∃ si, Asks previousKeys info k si ∧
      r'.servicePortMap.lookup si.uniqueStr = some port := by
  obtain ⟨hports, -⟩ := (keyStep_of_handleKey h).grows
  obtain ⟨k, hk, si, hsi, hport⟩ := hr.used port a ha
  exact ⟨k, List.mem_append_left _ hk, si, hsi, hports _ _ hport⟩

/-- What was attached stays attached, whatever the turn does. -/
theorem Read.attached_snoc {starts : List (Option Port)} {keys : List Bytes} {r r' : Round}
    {key : Bytes} (hr : Read previousKeys info starts keys r)
    (h : handleKey previousKeys info r key = some r') (hst : none ∉ starts) {k : Bytes}
    (hk : k ∈ keys) {si : ServiceInfo} (hsi : Asks previousKeys info k si) :
    ∃ port, r'.servicePortMap.lookup si.uniqueStr = some port ∧
      k.take agentIdLen ∈ agents r'.lastPorts port := by
  obtain ⟨hports, hagents⟩ := (keyStep_of_handleKey h).grows
  obtain ⟨port, hport, hagent⟩ := hr.attached hst k hk si hsi
  exact ⟨port, hports _ _ hport, hagents _ _ hagent⟩

/-- A key that asks for nothing changes nothing. -/
theorem Read.skip {starts : List (Option Port)} {keys : List Bytes} {r : Round} {key : Bytes}
    (hr : Read previousKeys info starts keys r) (hno : ∀ si, ¬ Asks previousKeys info key si) :
    Read previousKeys info starts (keys ++ [key]) r := by
  have hmem {k : Bytes} {si : ServiceInfo} (hsi : Asks previousKeys info k si) :
      k ∈ keys ++ [key] ↔ k ∈ keys := by
    have hne : k ≠ key := by
      rintro rfl
      exact hno si hsi
    simp [hne]
  refine ⟨hr.books, hr.suffix, fun k si => ?_, fun port a ha => ?_, fun hst k hk si hsi => ?_⟩
  · rw [hr.noted]
    exact and_congr_left fun hsi => (hmem hsi).symm
  · obtain ⟨k, hk, hused⟩ := hr.used port a ha
    exact ⟨k, List.mem_append_left _ hk, hused⟩
  · exact hr.attached hst k ((hmem hsi).mp hk) si hsi

/-- A key whose service has a port in the end is attached to it. -/
theorem Read.attach {starts : List (Option Port)} {keys : List Bytes} {r r' : Round}
    {key : Bytes} {si : ServiceInfo} {port : Port} (hr : Read previousKeys info starts keys r)
    (h : handleKey previousKeys info r key = some r') (hsi : Asks previousKeys info key si)
    (hport : r'.servicePortMap.lookup si.uniqueStr = some port)
    (hnew : r'.newKeys = r.newKeys.insert key si)
    (hlast : r'.lastPorts = addAgent r.lastPorts port (key.take agentIdLen))
    (hsuf : r'.starts <:+ starts) : Read previousKeys info starts (keys ++ [key]) r' := by
  refine ⟨hr.books.handleKey h, hsuf, ?_, fun p a ha => ?_, fun hst k hk si' hsi' => ?_⟩
  · rw [hnew]
    exact noted_snoc hsi hr.noted
  · rw [hlast, mem_agents_addAgent] at ha
    rcases ha with ⟨rfl, -⟩ | ha
    · exact ⟨key, by simp, si, hsi, hport⟩
    · exact hr.used_snoc h ha
  · rcases List.mem_append.mp hk with hk | hk
    · exact hr.attached_snoc h hst hk hsi'
    · obtain rfl := List.mem_singleton.mp hk
      obtain rfl : si = si' := Option.some.inj (hsi.2.symm.trans hsi'.2)
      refine ⟨port, hport, ?_⟩
      rw [hlast, mem_agents_addAgent]
      exact .inl ⟨rfl, rfl⟩

theorem Read.snoc {starts : List (Option Port)} {keys : List Bytes} {r r' : Round} {key : Bytes}
    (hr : Read previousKeys info starts keys r)
    (h : handleKey previousKeys info r key = some r') :
    Read previousKeys info starts (keys ++ [key]) r' := by
  have hused (port : Port) (a : Bytes) (ha : a ∈ agents r.lastPorts port) :=
    hr.used_snoc h ha
  cases keyStep_of_handleKey h with
  | short hlen => exact hr.skip fun si h => absurd h.1 (by omega)
  | unknown hlen hsi => exact hr.skip fun si h => by simp [Asks, hsi] at h
  | shared hlen hsi hport => exact hr.attach h ⟨hlen, hsi⟩ hport rfl rfl hr.suffix
  | @bound si port starts' hlen hsi hno hst hfree =>
    refine hr.attach h ⟨hlen, hsi⟩ (AList.lookup_insert _) rfl rfl ?_
    have hsuf := hr.suffix
    rw [hst] at hsuf
    exact (List.suffix_cons _ _).trans hsuf
  | @failed si starts' hlen hsi hst =>
    -- the start that failed is one of the results, so nothing is promised
    have hsuf := hr.suffix
    rw [hst] at hsuf
    have hmem : none ∈ starts := hsuf.subset (by simp)
    exact {
      books := hr.books.handleKey h
      suffix := (List.suffix_cons _ _).trans hsuf
      noted := noted_snoc ⟨hlen, hsi⟩ hr.noted
      used := hused
      attached := fun h => absurd hmem h }

/-- The whole loop. -/
theorem read_of_run {s : State} (hs : s.Books) {p : Poll} {keys : List Bytes} {r : Round}
    (h : run (handleKey s.previousKeys p.info) (s.round p) keys = some r) :
    Read s.previousKeys p.info p.starts keys r :=
  run_induction (read_nil hs p) (fun _ _ _ _ _ hr h => hr.snoc h) h

end Keys

/-! ## Ports that nobody uses are stopped -/

/-- Only the service of a stopped port is gone. -/
theorem Round.Books.lookup_stop {r : Round} (hr : r.Books) (port p : Port) :
    (r.stop port).mgr.forwardServiceList.lookup p =
      if p = port then none else r.mgr.forwardServiceList.lookup p := by
  simp only [Round.stop, PortForwardMgr.stopPortForward]
  by_cases hmem : port ∈ r.mgr.forwardServerList
  · rw [if_pos hmem]
    by_cases hp : p = port
    · subst hp
      simp
    · simp [AList.lookup_erase_ne hp, hp]
  · rw [if_neg hmem]
    split
    · subst p
      exact AList.lookup_eq_none.mpr fun h => hmem ((hr.servers _).mpr h)
    · rfl

/-- The service of a stopped port has no port, every other one keeps its own. -/
theorem Round.Books.lookup_servicePortMap_stop {r : Round} (hr : r.Books) (port : Port)
    (u : Bytes) (p : Port) : (r.stop port).servicePortMap.lookup u = some p ↔
      p ≠ port ∧ r.servicePortMap.lookup u = some p := by
  cases hsi : r.mgr.getForwardService port with
  | none =>
    have hmap : (r.stop port).servicePortMap = r.servicePortMap := by
      simp [Round.stop, hsi]
    rw [hmap]
    refine ⟨fun h => ⟨?_, h⟩, And.right⟩
    rintro rfl
    obtain ⟨si, hsi', -⟩ := (hr.served u p).mp h
    rw [PortForwardMgr.getForwardService, hsi'] at hsi
    cases hsi
  | some si =>
    have hmap : (r.stop port).servicePortMap = r.servicePortMap.erase si.uniqueStr := by
      simp [Round.stop, hsi]
    rw [hmap]
    by_cases hu : u = si.uniqueStr
    · -- that service had this port and no other
      subst hu
      have hport : r.servicePortMap.lookup si.uniqueStr = some port :=
        (hr.served _ _).mpr ⟨si, hsi, rfl⟩
      rw [AList.lookup_erase, hport]
      simpa using fun h => Ne.symm h
    · rw [AList.lookup_erase_ne hu]
      refine ⟨fun h => ⟨?_, h⟩, And.right⟩
      rintro rfl
      obtain ⟨si', hsi', rfl⟩ := (hr.served u p).mp h
      exact hu (by rw [Option.some.inj (hsi'.symm.trans hsi)])

theorem mem_forwardServerList_stopPortForward {m : PortForwardMgr} {port p : Port} :
    p ∈ (m.stopPortForward port).forwardServerList ↔ p ≠ port ∧ p ∈ m.forwardServerList := by
  unfold PortForwardMgr.stopPortForward
  split
  · exact Finset.mem_erase
  · rename_i hport
    exact ⟨fun hp => ⟨fun h => hport (h ▸ hp), hp⟩, And.right⟩

theorem Round.Books.stop {r : Round} (hr : r.Books) (port : Port) : (r.stop port).Books := by
  have hmem (p : Port) : p ∈ (r.stop port).mgr.forwardServiceList ↔
      p ≠ port ∧ p ∈ r.mgr.forwardServiceList := by
    rw [← AList.lookup_isSome, hr.lookup_stop]
    split <;> simp [*, AList.lookup_isSome]
  refine ⟨fun u p => ?_, fun p => ?_, fun p => ?_⟩
  · rw [hr.lookup_servicePortMap_stop, hr.lookup_stop, hr.served]
    split <;> simp [*]
  · rw [hmem, ← hr.ports]
    exact AList.mem_erase
  · rw [hmem, ← hr.servers]
    exact mem_forwardServerList_stopPortForward

theorem Round.Books.stopAll {r : Round} (hr : r.Books) (ports : List Port) :
    (ports.foldl Round.stop r).Books ∧
      ∀ p, (ports.foldl Round.stop r).mgr.forwardServiceList.lookup p =
        if p ∈ ports then none else r.mgr.forwardServiceList.lookup p := by
  induction ports generalizing r with
  | nil => exact ⟨hr, fun p => by simp⟩
  | cons port ports ih =>
    obtain ⟨hall, hlookups⟩ := ih (hr.stop port)
    refine ⟨hall, fun p => ?_⟩
    rw [List.foldl_cons, hlookups, hr.lookup_stop]
    by_cases hp : p = port <;> simp [hp]

theorem mem_removedPorts {m : AList (fun _ : Port => AgentSet)} {port : Port} :
    port ∈ removedPorts m ↔ port ∈ m ∧ ∀ a, a ∉ agents m port := by
  unfold removedPorts agents
  rw [List.mem_filter, AList.mem_keys]
  refine and_congr_right fun hmem => ?_
  obtain ⟨as, has⟩ := Option.isSome_iff_exists.mp (AList.lookup_isSome.mpr hmem)
  rw [has]
  simp only [Option.all_some, Option.getD_some, List.isEmpty_iff]
  exact List.eq_nil_iff_forall_not_mem

end FiberProxy.Registry.PortForward
