/-
  FiberProxy.Registry.AgentPorts

  The agents of the forward ports, over any sequence of polls: whom a port is
  kept for, what an agent is told about its ports
  (`FibpServiceMgr::get_related_forward_ports`), and what becomes of a key whose
  value changes.

  `ports_used_by_agent_` is only ever added to, so an agent keeps being told the
  port of a key that is gone (`told_iff`, about keys whose values stay).  The
  value of a key is not fetched again while the key stays in the list, so its
  agent stays with the service it had (`attached_iff`).  The tables themselves
  agree after every iteration (`bijective_of_run`).
-/

import FiberProxy.Registry.ForwardPorts

namespace FiberProxy.Registry.PortForward

open Lib

/-- `FibpServiceMgr::get_related_forward_ports`. -/
def State.getRelatedForwardPorts (s : State) (agentid : Bytes) : List Port :=
  ((s.portsUsedByAgent.lookup agentid).map OrderedSet.toList).getD []

/-! ## Any poll -/

/-- What an iteration can do. -/
inductive PollStep (s : State) (p : Poll) : State → Prop where
  | unparsed (hparse : parseForwardPortListRsp p.doc = some none) : PollStep s p s
  | empty (hparse : parseForwardPortListRsp p.doc = some (some p.keys)) (hkeys : p.keys = []) :
      PollStep s p { s with previousKeys := ∅ }
  | round {r : Round} (hparse : parseForwardPortListRsp p.doc = some (some p.keys))
      (hrun : run (handleKey s.previousKeys p.info) (s.round p) p.keys = some r) :
      PollStep s p (s.finish r)

theorem pollStep_of_step {s s' : State} {p : Poll} (h : step s p = some s') : PollStep s p s' := by
  unfold step at h
  split at h
  · cases h
  · cases h
    exact .unparsed ‹_›
  · rename_i hparse
    have hkeys : p.keys = [] := by simp [Poll.keys, hparse]
    cases h
    exact .empty (by rw [hkeys, hparse]) hkeys
  · rename_i key keys hparse
    have hkeys : p.keys = key :: keys := by simp [Poll.keys, hparse]
    obtain ⟨r, hr, rfl⟩ := Option.map_eq_some_iff.mp h
    exact .round (by rw [hkeys, hparse]) (by rw [hkeys]; exact hr)

theorem books_step {s s' : State} {p : Poll} (hs : s.Books) (h : step s p = some s') :
    s'.Books := by
  cases pollStep_of_step h with
  | unparsed => exact hs
  | empty => exact ⟨hs.served, hs.ports, hs.servers⟩
  | round _ hrun => exact (read_of_run hs hrun).finish.1

theorem books_init : ({} : State).Books := by
  refine ⟨?_, ?_, ?_⟩ <;> simp

theorem books_of_run {ps : List Poll} {s : State} (h : run step {} ps = some s) : s.Books :=
  run_inv (fun _ _ _ hs hstep => books_step hs hstep) books_init h

/-! ## The agents of a port -/

/-- An agent is with a port for one of its keys. -/
theorem agents_of_run {s : State} {p : Poll} {keys : List Bytes} {r : Round}
    (h : run (handleKey s.previousKeys p.info) (s.round p) keys = some r) :
    ∀ port a, a ∈ agents r.lastPorts port →
      ∃ key ∈ keys, key.take agentIdLen = a ∧ ∃ si, Asks s.previousKeys p.info key si ∧
        r.servicePortMap.lookup si.uniqueStr = some port := by
  refine run_induction (P := fun keys r => ∀ port a, a ∈ agents r.lastPorts port →
    ∃ key ∈ keys, key.take agentIdLen = a ∧ ∃ si, Asks s.previousKeys p.info key si ∧
      r.servicePortMap.lookup si.uniqueStr = some port) ?_ ?_ h
  · intro port a ha
    rw [State.round, agents_clearAgents] at ha
    exact absurd ha (OrderedSet.not_mem_empty a)
  · intro keys r key r' _ ih hstep port a ha
    replace hstep := keyStep_of_handleKey hstep
    obtain ⟨hports, -⟩ := hstep.grows
    have hold (ha : a ∈ agents r.lastPorts port) :
        ∃ k ∈ keys ++ [key], k.take agentIdLen = a ∧ ∃ si, Asks s.previousKeys p.info k si ∧
          r'.servicePortMap.lookup si.uniqueStr = some port := by
      obtain ⟨k, hk, hka, si, hsi, hport⟩ := ih port a ha
      exact ⟨k, List.mem_append_left _ hk, hka, si, hsi, hports _ _ hport⟩
    cases hstep with
    | short | unknown | failed => exact hold ha
    | shared hlen hsi hport =>
      rcases mem_agents_addAgent.mp ha with ⟨rfl, rfl⟩ | ha
      · exact ⟨key, by simp, rfl, _, ⟨hlen, hsi⟩, hport⟩
      · exact hold ha
    | bound hlen hsi =>
      rcases mem_agents_addAgent.mp ha with ⟨rfl, rfl⟩ | ha
      · exact ⟨key, by simp, rfl, _, ⟨hlen, hsi⟩, AList.lookup_insert _⟩
      · exact hold ha

/-- A service that has a port keeps it while the keys are read. -/
theorem servicePortMap_of_run {s : State} {p : Poll} {keys : List Bytes} {r : Round}
    (h : run (handleKey s.previousKeys p.info) (s.round p) keys = some r) {u : Bytes}
    {port : Port} (hport : s.servicePortMap.lookup u = some port) :
    r.servicePortMap.lookup u = some port := by
  have hkeep (r : Round) (key : Bytes) (r' : Round) (hr : r.servicePortMap.lookup u = some port)
      (hstep : handleKey s.previousKeys p.info r key = some r') :
      r'.servicePortMap.lookup u = some port :=
    (keyStep_of_handleKey hstep).grows.1 u port hr
  exact run_inv hkeep hport h

theorem lookup_lastPorts_stopAll (ports : List Port) (r : Round) (port : Port) :
    (ports.foldl Round.stop r).lastPorts.lookup port =
      if port ∈ ports then none else r.lastPorts.lookup port := by
  induction ports generalizing r with
  | nil => simp
  | cons p ports ih =>
    rw [List.foldl_cons, ih]
    by_cases hp : port = p
    · subst hp
      simp [Round.stop]
    · simp [Round.stop, AList.lookup_erase_ne hp, hp]

/-- The ports that are stopped have no agents. -/
theorem mem_agents_finish {s : State} {r : Round} {port : Port} {a : Bytes} :
    a ∈ agents (s.finish r).lastPorts port ↔ a ∈ agents r.lastPorts port := by
  show a ∈ agents ((removedPorts r.lastPorts).foldl Round.stop r).lastPorts port ↔ _
  unfold agents
  rw [lookup_lastPorts_stopAll]
  split
  · rename_i hrem
    have hnone := (mem_removedPorts.mp hrem).2 a
    exact iff_of_false (OrderedSet.not_mem_empty a) hnone
  · rfl

section Finish

variable {s : State} {p : Poll} {r : Round}

/-- The port of a key that has one runs for the key's service. -/
theorem forwards_finish (hs : s.Books)
    (h : run (handleKey s.previousKeys p.info) (s.round p) p.keys = some r) {port : Port}
    {si : ServiceInfo} {a : Bytes} (ha : a ∈ agents r.lastPorts port) :
    (s.finish r).Forwards port si ↔ r.servicePortMap.lookup si.uniqueStr = some port := by
  have hread := read_of_run hs h
  rw [hread.finish.2, hread.books.served]
  constructor
  · rintro ⟨hlookup, -⟩
    exact ⟨si, hlookup, rfl⟩
  · rintro ⟨si', hlookup, huniq⟩
    obtain rfl := uniqueStr_inj huniq
    exact ⟨hlookup, a, ha⟩

/-- **Whom a port is kept for**: the agents with a key that asks for its service. -/
theorem mem_agents_iff (hs : s.Books) (hstarts : none ∉ p.starts)
    (h : run (handleKey s.previousKeys p.info) (s.round p) p.keys = some r) {port : Port}
    {a : Bytes} : a ∈ agents (s.finish r).lastPorts port ↔
      ∃ key ∈ p.keys, key.take agentIdLen = a ∧ ∃ si, Asks s.previousKeys p.info key si ∧
        (s.finish r).Forwards port si := by
  have hread := read_of_run hs h
  rw [mem_agents_finish]
  constructor
  · intro ha
    obtain ⟨key, hkey, hka, si, hsi, hport⟩ := agents_of_run h port a ha
    exact ⟨key, hkey, hka, si, hsi, (forwards_finish hs h ha).mpr hport⟩
  · rintro ⟨key, hkey, rfl, si, hsi, hforwards⟩
    obtain ⟨port', hport', hagent⟩ := hread.attached hstarts key hkey si hsi
    obtain rfl := hread.finish.1.port_unique hforwards ((forwards_finish hs h hagent).mpr hport')
    exact hagent

/-- An agent is with a port for a service exactly when one of its keys asks for it. -/
theorem serves_iff (hs : s.Books) (hstarts : none ∉ p.starts)
    (h : run (handleKey s.previousKeys p.info) (s.round p) p.keys = some r) {si : ServiceInfo}
    {a : Bytes} :
    (∃ port, (s.finish r).Forwards port si ∧ a ∈ agents (s.finish r).lastPorts port) ↔
      ∃ key ∈ p.keys, key.take agentIdLen = a ∧ Asks s.previousKeys p.info key si := by
  constructor
  · rintro ⟨port, hforwards, ha⟩
    obtain ⟨key, hkey, hka, si', hsi', hforwards'⟩ := (mem_agents_iff hs hstarts h).mp ha
    obtain rfl : si = si' := Option.some.inj (hforwards.2.symm.trans hforwards'.2)
    exact ⟨key, hkey, hka, hsi'⟩
  · rintro ⟨key, hkey, rfl, hsi⟩
    obtain ⟨port, hport, hagent⟩ := (read_of_run hs h).attached hstarts key hkey si hsi
    exact ⟨port, (forwards_finish hs h hagent).mpr hport, mem_agents_finish.mpr hagent⟩

end Finish

/-! ## What an agent is told -/

/-- The list was parsed: the poll is processed to its end. -/
def Poll.processed (p : Poll) : Bool := (parseForwardPortListRsp p.doc).any Option.isSome

/-- Every server that was to be started was, and the value of every key could be fetched, had
    it to be. -/
structure Poll.Complete (p : Poll) : Prop where
  started : none ∉ p.starts
  fetched : ∀ key ∈ p.keys, agentIdLen < key.length → (p.info key).isSome = true

/-- A key of the agent is in the list, and this is the service of its value. -/
def Poll.NamesFor (p : Poll) (agentid : Bytes) (si : ServiceInfo) : Prop :=
  ∃ key ∈ p.keys, key.take agentIdLen = agentid ∧ agentIdLen < key.length ∧
    getForwardPortInfo (p.info key) = some si

/-- Every agent is told the ports of the services that its keys of the list name, and no
    others. -/
def Told (p : Poll) (s : State) : Prop :=
  ∀ agentid port, port ∈ s.getRelatedForwardPorts agentid ↔
    ∃ si, p.NamesFor agentid si ∧ s.Forwards port si

/-- The polls that are processed. -/
def processed (ps : List Poll) : List Poll := ps.filter Poll.processed

/-- Every service that a key of an agent names is named again by a key of that agent. -/
def KeepsNaming (p q : Poll) : Prop := ∀ agentid si, p.NamesFor agentid si → q.NamesFor agentid si

/-- The ports are added to what the agents were told before. -/
theorem mem_usePorts {used : AList (fun _ : Bytes => PortSet)}
    {lastPorts : AList (fun _ : Port => AgentSet)} {a : Bytes} {port : Port} :
    port ∈ ((usePorts used lastPorts).lookup a).getD .empty ↔
      port ∈ (used.lookup a).getD .empty ∨ a ∈ agents lastPorts port := by
  -- the agents of one port
  have hport (as : List Bytes) (p : Port) (used : AList (fun _ : Bytes => PortSet)) :
      port ∈ ((as.foldl (fun used agentid =>
        used.insert agentid (((used.lookup agentid).getD .empty).insert p)) used).lookup a).getD
          .empty ↔ port ∈ (used.lookup a).getD .empty ∨ port = p ∧ a ∈ as := by
    induction as generalizing used with
    | nil => simp
    | cons b as ih =>
      rw [List.foldl_cons, ih]
      by_cases hb : a = b
      · subst hb
        simp only [AList.lookup_insert, Option.getD_some, OrderedSet.mem_insert,
          List.mem_cons_self, and_true]
        tauto
      · simp [AList.lookup_insert_ne hb, hb]
  have hentries (es : List (Sigma fun _ : Port => AgentSet))
      (used : AList (fun _ : Bytes => PortSet)) :
      port ∈ ((es.foldl (fun used e => e.2.toList.foldl (fun used agentid =>
        used.insert agentid (((used.lookup agentid).getD .empty).insert e.1)) used) used).lookup
          a).getD .empty ↔
        port ∈ (used.lookup a).getD .empty ∨ ∃ as, Sigma.mk port as ∈ es ∧ a ∈ as := by
    induction es generalizing used with
    | nil => simp
    | cons e es ih =>
      obtain ⟨q, as⟩ := e
      rw [List.foldl_cons, ih, hport, or_assoc]
      refine or_congr_right ?_
      constructor
      · rintro (⟨rfl, ha⟩ | ⟨as', hmem, ha⟩)
        · exact ⟨as, List.mem_cons_self, ha⟩
        · exact ⟨as', List.mem_cons_of_mem _ hmem, ha⟩
      · rintro ⟨as', hmem, ha⟩
        rcases List.mem_cons.mp hmem with heq | hmem
        · cases heq
          exact .inl ⟨rfl, ha⟩
        · exact .inr ⟨as', hmem, ha⟩
  rw [usePorts, hentries]
  refine or_congr_right ?_
  simp only [← AList.mem_lookup_iff, agents]
  cases hlookup : lastPorts.lookup port with
  | none => simp [OrderedSet.not_mem_empty]
  | some as => simp

theorem mem_getRelatedForwardPorts {s : State} {agentid : Bytes} {port : Port} :
    port ∈ s.getRelatedForwardPorts agentid ↔
      port ∈ (s.portsUsedByAgent.lookup agentid).getD .empty := by
  unfold State.getRelatedForwardPorts
  cases s.portsUsedByAgent.lookup agentid with
  | none => exact iff_of_false List.not_mem_nil (OrderedSet.not_mem_empty port)
  | some ports => rfl

theorem Poll.succeeds {p : Poll} (h : p.processed = true) (hp : p.Complete) : p.Succeeds := by
  refine ⟨?_, hp.started⟩
  obtain ⟨keys, hkeys, hsome⟩ := (Option.any_eq_true _ _).mp h
  obtain ⟨keys, rfl⟩ := Option.isSome_iff_exists.mp hsome
  simp [Poll.keys, hkeys]

/-- A poll that is not processed changes nothing. -/
theorem step_of_not_processed {s s' : State} {p : Poll} (h : ¬ p.processed = true)
    (hstep : step s p = some s') : s' = s := by
  cases pollStep_of_step hstep with
  | unparsed => rfl
  | empty hparse => exact absurd (by simp [Poll.processed, hparse]) h
  | round hparse => exact absurd (by simp [Poll.processed, hparse]) h

/-- What the watcher has reached with the polls it has processed: the books agree, the keys
    are known by their values of the last list, and what that list names runs. -/
structure State.Served (s : State) (qs : List Poll) : Prop where
  books : s.Books
  known : s.Known qs
  runs : ∀ q ∈ qs.getLast?, ∀ a si, q.NamesFor a si → ∃ port, s.Forwards port si

theorem served_init : ({} : State).Served [] where
  books := books_init
  known := by simp [State.Known]
  runs := by simp

section Poll

variable {s s' : State} {qs : List Poll} {p : Poll}

/-- While values stay, an agent asks for what its keys name. -/
theorem State.Served.namesFor_iff (hs : s.Served qs) (hstable : Stable (qs ++ [p])) {a : Bytes}
    {si : ServiceInfo} : p.NamesFor a si ↔
      ∃ key ∈ p.keys, key.take agentIdLen = a ∧ Asks s.previousKeys p.info key si := by
  constructor
  · rintro ⟨key, hkey, ha, hlen, hsi⟩
    exact ⟨key, hkey, ha, hlen, (hs.known.serviceOf hstable hkey).trans hsi⟩
  · rintro ⟨key, hkey, ha, hlen, hsi⟩
    exact ⟨key, hkey, ha, hlen, (hs.known.serviceOf hstable hkey).symm.trans hsi⟩

theorem served_step (hs : s.Served qs) (hstable : Stable (qs ++ [p])) (hp : p.Succeeds)
    (h : step s p = some s') : s'.Served (qs ++ [p]) := by
  obtain ⟨hbooks, hknown⟩ := books_known_step hs.books hs.known hstable hp h
  refine ⟨hbooks, hknown, ?_⟩
  rw [List.getLast?_concat]
  rintro q ⟨⟩ a si hnames
  rcases step_eq_some hp h with ⟨hnil, -⟩ | ⟨-, r, hr, rfl⟩
  · obtain ⟨key, hkey, -⟩ := hnames
    exact absurd hkey (by simp [hnil])
  · obtain ⟨port, hforwards, -⟩ :=
      (serves_iff hs.books hp.started hr).mpr ((hs.namesFor_iff hstable).mp hnames)
    exact ⟨port, hforwards⟩

/-- The end of an iteration adds the ports of what an agent's keys name to what it is told. -/
theorem State.Served.told_finish (hs : s.Served qs) (hstable : Stable (qs ++ [p]))
    (hp : p.Succeeds) {r : Round}
    (hr : run (handleKey s.previousKeys p.info) (s.round p) p.keys = some r) {a : Bytes}
    {port : Port} : port ∈ (s.finish r).getRelatedForwardPorts a ↔
      port ∈ s.getRelatedForwardPorts a ∨
        ∃ si, p.NamesFor a si ∧ (s.finish r).Forwards port si := by
  rw [mem_getRelatedForwardPorts, mem_getRelatedForwardPorts]
  show port ∈ ((usePorts s.portsUsedByAgent (s.finish r).lastPorts).lookup a).getD _ ↔ _
  rw [mem_usePorts, mem_agents_iff hs.books hp.started hr]
  refine or_congr_right ?_
  constructor
  · rintro ⟨key, hkey, ha, si, hasks, hforwards⟩
    exact ⟨si, (hs.namesFor_iff hstable).mpr ⟨key, hkey, ha, hasks⟩, hforwards⟩
  · rintro ⟨si, hnames, hforwards⟩
    obtain ⟨key, hkey, ha, hasks⟩ := (hs.namesFor_iff hstable).mp hnames
    exact ⟨key, hkey, ha, si, hasks, hforwards⟩

/-- A service that is named again keeps its port through the iteration. -/
theorem State.Served.forwards_kept (hs : s.Served qs) (hstable : Stable (qs ++ [p]))
    (hp : p.Succeeds) {r : Round}
    (hr : run (handleKey s.previousKeys p.info) (s.round p) p.keys = some r) {a : Bytes}
    {port : Port} {si : ServiceInfo} (hforwards : s.Forwards port si) (hnames : p.NamesFor a si) :
    (s.finish r).Forwards port si := by
  obtain ⟨key, hkey, -, hasks⟩ := (hs.namesFor_iff hstable).mp hnames
  have hmap := servicePortMap_of_run hr
    ((hs.books.served si.uniqueStr port).mpr ⟨si, hforwards.2, rfl⟩)
  obtain ⟨port', hport', hattached⟩ :=
    (read_of_run hs.books hr).attached hp.started key hkey si hasks
  obtain rfl : port = port' := Option.some.inj (hmap.symm.trans hport')
  exact (forwards_finish hs.books hr hattached).mpr hmap

/-- A port that runs is not bound again in the same round. -/
theorem State.Served.forwards_same (hs : s.Served qs) {r : Round}
    (hr : run (handleKey s.previousKeys p.info) (s.round p) p.keys = some r) {port : Port}
    {si si' : ServiceInfo} (hforwards : s.Forwards port si)
    (hforwards' : (s.finish r).Forwards port si') : si' = si := by
  have hread := read_of_run hs.books hr
  have hmap := servicePortMap_of_run hr
    ((hs.books.served si.uniqueStr port).mpr ⟨si, hforwards.2, rfl⟩)
  obtain ⟨si'', hlookup, huniq⟩ := (hread.books.served _ _).mp hmap
  obtain rfl := uniqueStr_inj huniq
  exact Option.some.inj (((hread.finish.2 port si').mp hforwards').1.symm.trans hlookup)

/-- What the agents are told is right for the last list; before the first one, nothing. -/
def State.ToldBy (s : State) (qs : List Poll) : Prop :=
  ∀ a port, port ∈ s.getRelatedForwardPorts a ↔
    ∃ q ∈ qs.getLast?, ∃ si, q.NamesFor a si ∧ s.Forwards port si

theorem toldBy_concat : s.ToldBy (qs ++ [p]) ↔ Told p s := by
  simp [State.ToldBy, Told]

/-- One poll, from a state where the agents are told their own ports. -/
theorem State.Served.told_poll_iff (hs : s.Served qs) (hstable : Stable (qs ++ [p]))
    (hp : p.Succeeds) (htold : s.ToldBy qs) (h : step s p = some s') :
    Told p s' ↔ ∀ q ∈ qs.getLast?, KeepsNaming q p := by
  rcases step_eq_some hp h with ⟨hnil, rfl⟩ | ⟨-, r, hr, rfl⟩
  · -- an empty list: what was told stays told, and nothing is named
    have hnone (a : Bytes) (si : ServiceInfo) : ¬ p.NamesFor a si := by simp [Poll.NamesFor, hnil]
    constructor
    · intro htold' q hq a si hnames
      obtain ⟨port, hforwards⟩ := hs.runs q hq a si hnames
      obtain ⟨si', hnames', -⟩ :=
        (htold' a port).mp ((htold a port).mpr ⟨q, hq, si, hnames, hforwards⟩)
      exact absurd hnames' (hnone a si')
    · intro hkeeps a port
      refine (htold a port).trans (iff_of_false ?_ ?_)
      · rintro ⟨q, hq, si, hnames, -⟩
        exact hnone a si (hkeeps q hq a si hnames)
      · rintro ⟨si, hnames, -⟩
        exact hnone a si hnames
  · constructor
    · intro htold' q hq a si hnames
      obtain ⟨port, hforwards⟩ := hs.runs q hq a si hnames
      have hport := (htold a port).mpr ⟨q, hq, si, hnames, hforwards⟩
      obtain ⟨si', hnames', hforwards'⟩ :=
        (htold' a port).mp ((hs.told_finish hstable hp hr).mpr (.inl hport))
      obtain rfl := hs.forwards_same hr hforwards hforwards'
      exact hnames'
    · intro hkeeps a port
      rw [hs.told_finish hstable hp hr, or_iff_right_iff_imp]
      intro hport
      obtain ⟨q, hq, si, hnames, hforwards⟩ := (htold a port).mp hport
      have hagain := hkeeps q hq a si hnames
      exact ⟨si, hagain, hs.forwards_kept hstable hp hr hforwards hagain⟩

end Poll

/-- The agents are told their own ports after this poll, if it is processed. -/
def ToldAfter (s : State) (p : Poll) : Prop :=
  p.processed = true → ∀ s', step s p = some s' → Told p s'

/-- What a sequence of polls has reached. -/
structure Polled (ps : List Poll) (s : State) : Prop where
  served : s.Served (processed ps)
  told : (processed ps).IsChain KeepsNaming → s.ToldBy (processed ps)
  told_iff_chain : Along step ToldAfter {} ps ↔ (processed ps).IsChain KeepsNaming

theorem polled_init : Polled [] {} where
  served := served_init
  told := fun _ => by simp [State.ToldBy, processed, State.getRelatedForwardPorts]
  told_iff_chain := by simp [processed]

theorem Polled.step_processed {ps : List Poll} {s s' : State} {p : Poll} (h : Polled ps s)
    (hrun : run step {} ps = some s) (hstep : step s p = some s') (hproc : p.processed = true)
    (hp : p.Complete) (hstable : Stable (processed ps ++ [p])) : Polled (ps ++ [p]) s' := by
  have hsnoc : processed (ps ++ [p]) = processed ps ++ [p] := by simp [processed, hproc]
  have hsucc := Poll.succeeds hproc hp
  -- the last link of the chain is what this poll has to meet
  have hchain : (processed ps ++ [p]).IsChain KeepsNaming ↔
      (processed ps).IsChain KeepsNaming ∧ Told p s' := by
    rw [List.isChain_append]
    constructor
    · rintro ⟨hchain, -, hlast⟩
      refine ⟨hchain, (h.served.told_poll_iff hstable hsucc (h.told hchain) hstep).mpr ?_⟩
      exact fun q hq => hlast q hq p (by simp)
    · rintro ⟨hchain, htold⟩
      refine ⟨hchain, List.isChain_singleton _, fun q hq p' hp' => ?_⟩
      obtain rfl : p = p' := by simpa using hp'
      exact (h.served.told_poll_iff hstable hsucc (h.told hchain) hstep).mp htold q hq
  have hafter : ToldAfter s p ↔ Told p s' := by
    constructor
    · intro htold
      exact htold hproc s' hstep
    · intro htold _ s'' hstep'
      obtain rfl : s' = s'' := Option.some.inj (hstep.symm.trans hstep')
      exact htold
  refine ⟨?_, ?_, ?_⟩
  · rw [hsnoc]
    exact served_step h.served hstable hsucc hstep
  · rw [hsnoc, toldBy_concat]
    exact fun hkeeps => (hchain.mp hkeeps).2
  · rw [hsnoc, hchain, along_append hrun, along_cons hstep, h.told_iff_chain, hafter,
      and_iff_left (along_nil s')]

theorem Polled.step_unparsed {ps : List Poll} {s s' : State} {p : Poll} (h : Polled ps s)
    (hrun : run step {} ps = some s) (hstep : step s p = some s') (hproc : ¬ p.processed = true) :
    Polled (ps ++ [p]) s' := by
  have hsnoc : processed (ps ++ [p]) = processed ps := by simp [processed, hproc]
  obtain rfl := step_of_not_processed hproc hstep
  refine ⟨hsnoc ▸ h.served, hsnoc ▸ h.told, ?_⟩
  rw [hsnoc, along_append hrun, along_cons hstep, ← h.told_iff_chain]
  exact and_iff_left ⟨fun hp => absurd hp hproc, along_nil _⟩

theorem polled_of_run {ps : List Poll} {s : State} (hps : ∀ p ∈ processed ps, p.Complete)
    (hstable : Stable (processed ps)) (hrun : run step {} ps = some s) : Polled ps s := by
  refine run_induction (P := fun ps s => (∀ p ∈ processed ps, p.Complete) →
    Stable (processed ps) → Polled ps s) ?_ ?_ hrun hps hstable
  · intro _ _
    exact polled_init
  · intro ps s p s' hrun ih hstep hps hstable
    by_cases hproc : p.processed = true
    · have hsnoc : processed (ps ++ [p]) = processed ps ++ [p] := by simp [processed, hproc]
      rw [hsnoc] at hps hstable
      have hpolled := ih (fun q hq => hps q (List.mem_append_left _ hq))
        (List.isChain_append.mp hstable).1
      exact hpolled.step_processed hrun hstep hproc (hps p (by simp)) hstable
    · have hsnoc : processed (ps ++ [p]) = processed ps := by simp [processed, hproc]
      rw [hsnoc] at hps hstable
      exact (ih hps hstable).step_unparsed hrun hstep hproc

/-- **Agents are told their own ports** after every poll that is processed exactly as long as
    no agent stops naming a service, in every sequence of polls in which the value of a key
    stays while the key is in the list, every value can be fetched and every server starts. -/
theorem told_iff {ps : List Poll} {s : State} (hps : ∀ p ∈ processed ps, p.Complete)
    (hstable : Stable (processed ps)) (hrun : run step {} ps = some s) :
    Along step ToldAfter {} ps ↔ (processed ps).IsChain KeepsNaming :=
  (polled_of_run hps hstable hrun).told_iff_chain

/-- A poll with the keys and values given; the keys are those of the agents `agent00001` and
    `agent00002`. -/
def agentsPoll (keys : List (Bytes × Bytes)) (starts : List (Option Port)) : Poll where
  doc := .arr (keys.map fun kv => .str (ascii "fibp-forward-port/" ++ kv.1))
  info := fun key => keys.lookup key
  starts := starts

/-- Two agents whose keys change between the lists, and a response between them that is no
    list: `users` is named by another key of the first agent, and by the second agent too. -/
def growingKeys : List Poll :=
  [agentsPoll [(ascii "agent00001-users", ascii "users,http"),
      (ascii "agent00001-web", ascii "users,http"),
      (ascii "agent00002-orders", ascii "orders,http")] [some 40001, some 40002],
    ⟨.str (ascii "busy"), fun _ => none, []⟩,
    agentsPoll [(ascii "agent00001-web", ascii "users,http"),
      (ascii "agent00002-orders", ascii "orders,http"),
      (ascii "agent00002-users", ascii "users,http"),
      (ascii "agent00002-stats", ascii "stats,rpc")] [some 40003]]

/-- No agent stops naming a service: all are told their ports, after each of the lists. -/
theorem growingKeys_told :
    ∃ s, run step {} growingKeys = some s ∧ Along step ToldAfter {} growingKeys ∧
      s.getRelatedForwardPorts (ascii "agent00001") = [40001] ∧
      s.getRelatedForwardPorts (ascii "agent00002") = [40001, 40002, 40003] := by
  have hview : (run step {} growingKeys).map (fun s =>
      (s.getRelatedForwardPorts (ascii "agent00001"),
        s.getRelatedForwardPorts (ascii "agent00002"))) =
      some ([40001], [40001, 40002, 40003]) := by decide +kernel
  obtain ⟨s, hrun, hs⟩ := Option.map_eq_some_iff.mp hview
  obtain ⟨hfirst, hsecond⟩ := Prod.mk.inj hs
  have hprocessed : processed growingKeys = [growingKeys[0], growingKeys[2]] := rfl
  refine ⟨s, hrun, (told_iff ?_ ?_ hrun).mpr ?_, hfirst, hsecond⟩
  · rw [hprocessed]
    intro p hp
    rcases List.mem_pair.mp hp with rfl | rfl
    · exact ⟨by decide, by decide⟩
    · exact ⟨by decide, by decide⟩
  · rw [hprocessed]
    simp only [Stable, List.isChain_pair]
    decide
  · rw [hprocessed, List.isChain_pair]
    rintro agentid si ⟨key, hkey, rfl, -, hsi⟩
    -- a key of the same agent with the same value is in the second list
    have hagain : ∀ key ∈ growingKeys[0].keys, ∃ key' ∈ growingKeys[2].keys,
        key'.take agentIdLen = key.take agentIdLen ∧ agentIdLen < key'.length ∧
          growingKeys[2].info key' = growingKeys[0].info key := by decide +kernel
    obtain ⟨key', hkey', hagent, hlen, hinfo⟩ := hagain key hkey
    exact ⟨key', hkey', hagent, hlen, by rw [hinfo, hsi]⟩

/-- The first agent's key is removed; its port goes to a service of the second one. -/
def reusedPort : List Poll :=
  [agentsPoll [(ascii "agent00001-users", ascii "users,http"),
      (ascii "agent00002-orders", ascii "orders,http")] [some 40001, some 40002],
    agentsPoll [(ascii "agent00002-orders", ascii "orders,http")] [],
    agentsPoll [(ascii "agent00002-orders", ascii "orders,http"),
      (ascii "agent00002-stats", ascii "stats,http")] [some 40001]]

/-- **An agent is told the port of another's service.** The keys of the last list are all of
    the second agent. -/
theorem reusedPort_not_told :
    ∃ s, run step {} reusedPort = some s ∧
      s.getRelatedForwardPorts (ascii "agent00001") = [40001] ∧
      s.Forwards 40001 ⟨ascii "stats", .http⟩ ∧
      (∀ key ∈ reusedPort[2].keys, key.take agentIdLen = ascii "agent00002") ∧
      ¬ Told reusedPort[2] s := by
  have hview : (run step {} reusedPort).map (fun s =>
      (s.getRelatedForwardPorts (ascii "agent00001"), decide (40001 ∈ s.mgr.forwardServerList),
        s.mgr.forwardServiceList.lookup 40001)) =
      some ([40001], true, some ⟨ascii "stats", .http⟩) := by decide +kernel
  obtain ⟨s, hrun, hs⟩ := Option.map_eq_some_iff.mp hview
  simp only [Prod.mk.injEq, decide_eq_true_eq] at hs
  obtain ⟨htold, hserver, hservice⟩ := hs
  have hkeys : ∀ key ∈ reusedPort[2].keys, key.take agentIdLen = ascii "agent00002" := by decide
  refine ⟨s, hrun, htold, ⟨hserver, hservice⟩, hkeys, fun h => ?_⟩
  obtain ⟨si, ⟨key, hkey, hagent, -⟩, -⟩ := (h (ascii "agent00001") 40001).mp (by simp [htold])
  rw [hkeys key hkey] at hagent
  exact absurd hagent (by decide)

/-! ## Values that change -/

/-- The agent of every valid key of the list is with a port that runs for the service its
    value names in this poll. -/
def Attached (p : Poll) (s : State) : Prop :=
  ∀ key ∈ p.keys, agentIdLen < key.length → ∀ si, getForwardPortInfo (p.info key) = some si →
    ∃ port, s.Forwards port si ∧ key.take agentIdLen ∈ agents s.lastPorts port

/-- The service that the value of a key names is one that the agent asks for: by this key, if
    it is new or its value is the one noted, or by another key. -/
def UpToDate (s : State) (p : Poll) : Prop :=
  ∀ key ∈ p.keys, agentIdLen < key.length → ∀ si, getForwardPortInfo (p.info key) = some si →
    ∃ key' ∈ p.keys, key'.take agentIdLen = key.take agentIdLen ∧
      Asks s.previousKeys p.info key' si

/-- **Forwarding follows the values of the keys** after a poll exactly when what is noted of
    the keys is up to date. -/
theorem attached_iff {ps : List Poll} {p : Poll} {s s' : State} (hp : p.Succeeds)
    (hrun : run step {} ps = some s) (hstep : step s p = some s') :
    Attached p s' ↔ UpToDate s p := by
  have hs := books_of_run hrun
  cases pollStep_of_step hstep with
  | unparsed hparse =>
    have hparsed := hp.parsed
    rw [hparse] at hparsed
    cases hparsed
  | empty _ hkeys => simp [Attached, UpToDate, hkeys]
  | round _ hr =>
    refine forall₂_congr fun key hkey => forall₃_congr fun hlen si hsi => ?_
    exact serves_iff hs hp.started hr

/-- Two lists, one after the other: the second one has the keys of the first and two more. -/
def stayingKeys : Poll × Poll :=
  (agentsPoll [(ascii "agent00001-users", ascii "users,http"),
      (ascii "agent00002-orders", ascii "orders,http")] [some 40001, some 40002],
    agentsPoll [(ascii "agent00001-users", ascii "users,http"),
      (ascii "agent00002-orders", ascii "orders,http"),
      (ascii "agent00001-stats", ascii "stats,rpc"),
      (ascii "agent00002-users", ascii "users,http")] [some 40003])

/-- Two keys stay with their values and two are new: all four are attached. -/
theorem stayingKeys_attached :
    ∃ s s', run step {} [stayingKeys.1] = some s ∧ step s stayingKeys.2 = some s' ∧
      Attached stayingKeys.2 s' := by
  have hview : (run step {} [stayingKeys.1]).map (fun s =>
      (decide (∀ key ∈ stayingKeys.2.keys,
        serviceOf s.previousKeys stayingKeys.2.info key =
          getForwardPortInfo (stayingKeys.2.info key)), (step s stayingKeys.2).isSome)) =
      some (true, true) := by decide +kernel
  obtain ⟨s, hrun, hs⟩ := Option.map_eq_some_iff.mp hview
  simp only [Prod.mk.injEq, decide_eq_true_eq] at hs
  obtain ⟨hnoted, hsome⟩ := hs
  obtain ⟨s', hstep⟩ := Option.isSome_iff_exists.mp hsome
  refine ⟨s, s', hrun, hstep, (attached_iff ⟨rfl, by decide⟩ hrun hstep).mpr ?_⟩
  intro key hkey hlen si hsi
  exact ⟨key, hkey, rfl, hlen, (hnoted key hkey).trans hsi⟩

/-- **A changed value is not seen**: the key's value is now `orders,http`, and no port runs
    for that service. -/
theorem changedValue_not_attached :
    ∃ s, run step {} [agentsPoll [(ascii "agent00001-users", ascii "users,http")] [some 40001],
        agentsPoll [(ascii "agent00001-users", ascii "orders,http")] []] = some s ∧
      s.Forwards 40001 users ∧
      ¬ Attached (agentsPoll [(ascii "agent00001-users", ascii "orders,http")] []) s := by
  have hview : (run step {} [agentsPoll [(ascii "agent00001-users", ascii "users,http")]
      [some 40001], agentsPoll [(ascii "agent00001-users", ascii "orders,http")] []]).map (fun s =>
        (decide (40001 ∈ s.mgr.forwardServerList), s.mgr.forwardServiceList.lookup 40001,
          s.mgr.forwardServiceList.keys)) = some (true, some users, [40001]) := by decide +kernel
  obtain ⟨s, hrun, hs⟩ := Option.map_eq_some_iff.mp hview
  simp only [Prod.mk.injEq, decide_eq_true_eq] at hs
  obtain ⟨hserver, hservice, hports⟩ := hs
  refine ⟨s, hrun, ⟨hserver, hservice⟩, fun h => ?_⟩
  obtain ⟨port, hforwards, -⟩ := h (ascii "agent00001-users") (by decide) (by decide)
    ⟨ascii "orders", .http⟩ (by decide)
  -- 40001 is the only port, and it runs for the old service
  have hmem : port ∈ s.mgr.forwardServiceList.keys :=
    AList.mem_keys.mpr (AList.lookup_isSome.mp (by rw [hforwards.2]; rfl))
  obtain rfl : port = 40001 := by simpa [hports] using hmem
  rw [hforwards.2] at hservice
  exact absurd hservice (by decide)

/-! ## The tables after an iteration -/

/-- `service_port_map` and the manager's record are inverse to each other, and the ports they
    speak of are those of `last_ports`. -/
structure State.Bijective (s : State) : Prop where
  injective : ∀ u u' port, s.servicePortMap.lookup u = some port →
    s.servicePortMap.lookup u' = some port → u = u'
  values : ∀ port, (∃ u, s.servicePortMap.lookup u = some port) ↔ port ∈ s.lastPorts
  recorded : ∀ port si, s.mgr.getForwardService port = some si ↔
    s.servicePortMap.lookup si.uniqueStr = some port
  known : ∀ u port, s.servicePortMap.lookup u = some port → ∃ si : ServiceInfo, si.uniqueStr = u

/-- Every port has an agent. -/
def State.AllUsed (s : State) : Prop := ∀ port ∈ s.lastPorts, ∃ a, a ∈ agents s.lastPorts port

theorem State.Books.bijective {s : State} (hs : s.Books) : s.Bijective where
  injective := fun u u' port h h' => by
    obtain ⟨si, hsi, rfl⟩ := (hs.served u port).mp h
    obtain ⟨si', hsi', rfl⟩ := (hs.served u' port).mp h'
    obtain rfl : si = si' := Option.some.inj (hsi.symm.trans hsi')
    rfl
  values := fun port => by
    rw [hs.ports, ← AList.lookup_isSome, Option.isSome_iff_exists]
    constructor
    · rintro ⟨u, h⟩
      obtain ⟨si, hsi, -⟩ := (hs.served u port).mp h
      exact ⟨si, hsi⟩
    · rintro ⟨si, hsi⟩
      exact ⟨si.uniqueStr, (hs.served _ port).mpr ⟨si, hsi, rfl⟩⟩
  recorded := fun port si => by
    rw [hs.served]
    constructor
    · intro hsi
      exact ⟨si, hsi, rfl⟩
    · rintro ⟨si', hsi', huniq⟩
      obtain rfl := uniqueStr_inj huniq
      exact hsi'
  known := fun u port h => by
    obtain ⟨si, -, huniq⟩ := (hs.served u port).mp h
    exact ⟨si, huniq⟩

/-- The ports that are left at the end of an iteration are those with agents. -/
theorem allUsed_finish (s : State) (r : Round) : (s.finish r).AllUsed := by
  intro port hport
  have hleft : port ∉ removedPorts r.lastPorts ∧ port ∈ r.lastPorts := by
    rw [← AList.lookup_isSome] at hport ⊢
    replace hport : (((removedPorts r.lastPorts).foldl Round.stop r).lastPorts.lookup
      port).isSome := hport
    rw [lookup_lastPorts_stopAll] at hport
    split at hport
    · cases hport
    · exact ⟨‹_›, hport⟩
  rw [mem_removedPorts, not_and] at hleft
  obtain ⟨a, ha⟩ : ∃ a, a ∈ agents r.lastPorts port := by simpa using hleft.1 hleft.2
  exact ⟨a, mem_agents_finish.mpr ha⟩

theorem allUsed_step {s s' : State} {p : Poll} (hs : s.AllUsed) (h : step s p = some s') :
    s'.AllUsed := by
  cases pollStep_of_step h with
  | unparsed => exact hs
  | empty => exact hs
  | round => exact allUsed_finish s _

/-- **The books are a bijection** at the end of every iteration, whatever lists were read,
    values fetched and ports bound; and no port is kept without an agent. -/
theorem bijective_of_run {ps : List Poll} {s : State} (h : run step {} ps = some s) :
    s.Bijective ∧ s.AllUsed := by
  refine ⟨(books_of_run h).bijective, ?_⟩
  have hinit : ({} : State).AllUsed := by simp [State.AllUsed]
  exact run_inv (fun _ _ _ hs hstep => allUsed_step hs hstep) hinit h

/-- A value that could not be fetched and a server that could not be started are skipped;
    the other two keys get their ports. -/
theorem mixedPoll_bijective :
    ∃ s, run step {} [agentsPoll [(ascii "agent00001-users", ascii "users,http"),
        (ascii "agent00001-stats", ascii "stats,rpc"), (ascii "agent00002-orders", ascii "orders"),
        (ascii "agent00002-files", ascii "files,raw")] [some 40001, none, some 40002]] = some s ∧
      s.servicePortMap.lookup (ascii "users0") = some 40001 ∧
      s.servicePortMap.lookup (ascii "files2") = some 40002 ∧ s.Bijective ∧ s.AllUsed := by
  have hview : (run step {} [agentsPoll [(ascii "agent00001-users", ascii "users,http"),
      (ascii "agent00001-stats", ascii "stats,rpc"), (ascii "agent00002-orders", ascii "orders"),
      (ascii "agent00002-files", ascii "files,raw")] [some 40001, none, some 40002]]).map (fun s =>
        (s.servicePortMap.lookup (ascii "users0"), s.servicePortMap.lookup (ascii "files2"))) =
      some (some 40001, some 40002) := by decide +kernel
  obtain ⟨s, hrun, hs⟩ := Option.map_eq_some_iff.mp hview
  obtain ⟨husers, hfiles⟩ := Prod.mk.inj hs
  exact ⟨s, hrun, husers, hfiles, bijective_of_run hrun⟩

end FiberProxy.Registry.PortForward
