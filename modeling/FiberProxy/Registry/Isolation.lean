/-
  FiberProxy.Registry.Isolation

  Two services in one registry.  A key is the service name, `-` and a tag, and each
  watcher erases and registers by key.  The addresses found for a service `a` depend
  on the responses about `a` alone, in every interleaving of the passes of the two
  watchers, exactly when no key of the other service can be read as a key of `a`
  (`isolated_iff`).
-/

import FiberProxy.Registry.Watcher

namespace FiberProxy.Registry

open Lib

/-- A well-formed response about one service. -/
def About (name : Bytes) (doc : Json) : Prop :=
  ∃ nodes, WellFormed doc nodes ∧ ∀ n ∈ nodes, n.service = name

/-- The watchers of `a` and `b` act, on responses about their own services. -/
def Proper (a b : Bytes) (e : Event) : Prop :=
  (e.name = a ∨ e.name = b) ∧
    match e with
    | .rsp name doc => About name doc
    | .pass _ => True

/-- What is found for `a` is what the events of its own watcher alone would give. -/
def Isolated (a b : Bytes) : Prop :=
  ∀ es s, (∀ e ∈ es, Proper a b e) → run step {} es = some s →
    ∃ t, run step {} (es.filter (·.name = a)) = some t ∧
      ∀ cluster balanceIndex type,
        getServiceAddress s cluster balanceIndex a type =
          getServiceAddress t cluster balanceIndex a type

/-- Some key of `b` can be read as a key of `a`: `b` goes on after `a` and a `-`, or `a`
    goes on after `b` and a `-` with something that a tag can be. -/
def Clash (a b : Bytes) : Prop :=
  a ++ ascii "-" <+: b ∨
    b ++ ascii "-" <+: a ∧ toLower (a.drop (b.length + 1)) = a.drop (b.length + 1)

instance (a b : Bytes) : Decidable (Clash a b) := inferInstanceAs (Decidable (_ ∨ _ ∧ _))

/-! ## Keys -/

theorem toLower_of_mem_serviceTags {n : Node} {tag : Bytes} (h : tag ∈ n.serviceTags) :
    toLower tag = tag := by
  unfold Node.serviceTags at h
  split at h
  · rw [List.mem_singleton.mp h]
    decide
  · obtain ⟨tag', -, rfl⟩ := List.mem_map.mp (List.mem_filter.mp h).1
    exact toLower_idem tag'

/-- The key of `b` under a tag in lower case is no key of `a`. -/
theorem serviceKey_ne {a b : Bytes} (hne : a ≠ b) (hclash : ¬ Clash a b) {tag : Bytes}
    (htag : toLower tag = tag) (cluster : Bytes) : serviceKey a cluster ≠ serviceKey b tag := by
  intro heq
  unfold serviceKey at heq
  rw [List.append_assoc, List.append_assoc] at heq
  apply hclash
  rcases List.append_eq_append_iff.mp heq with ⟨x, hb, hx⟩ | ⟨y, ha, hy⟩
  · -- `b` is longer
    cases x with
    | nil => exact absurd (by simpa using hb.symm) hne
    | cons d x =>
      obtain ⟨rfl, -⟩ : d = 45 ∧ _ := by simpa [ascii, eq_comm] using hx
      exact .inl ⟨x, by rw [hb]; simp [ascii]⟩
  · -- `a` is longer: the rest of it begins the tag
    cases y with
    | nil => exact absurd (by simpa using ha) hne
    | cons d y =>
      obtain ⟨rfl, htail⟩ : d = 45 ∧ tag = y ++ (ascii "-" ++ cluster) := by
        simpa [ascii, eq_comm] using hy
      have hdrop : a.drop (b.length + 1) = y := by
        rw [ha, List.drop_append]
        simp
      refine .inr ⟨⟨y, by rw [ha]; simp [ascii]⟩, ?_⟩
      rw [hdrop]
      rw [htail, toLower_append] at htag
      exact (List.append_inj htag (by simp [toLower])).1

/-! ## The other watcher leaves no trace -/

/-- `t` is `s` as far as the service `a` can see; the keys that the watcher of `b` handles
    are its own. -/
structure Sees (a b : Bytes) (s t : State) : Prop where
  watcher : s.watchers a = t.watchers a
  hosts : ∀ ty cluster, s.hosts ty (serviceKey a cluster) = t.hosts ty (serviceKey a cluster)
  last : ∀ k ∈ (s.watchers b).lastServiceNames, ∃ tag, toLower tag = tag ∧ k = serviceKey b tag
  nodes : ∀ ty, ∀ k ∈ (s.watchers b).nodeList ty, ∃ tag, toLower tag = tag ∧ k = serviceKey b tag

section Sees

variable {a b : Bytes} {s s' t : State}

theorem sees_init : Sees a b {} {} :=
  ⟨rfl, fun _ _ => rfl, by simp, by simp⟩

/-- A step of the watcher of `name`: it begins a response or makes a pass. -/
theorem step_cases {e : Event} (h : step s e = some s')
    (hdoc : ∀ name doc, e = .rsp name doc → About name doc) :
    (∃ nodes nodeList, Agrees nodes nodeList ∧ (∀ n ∈ nodes, n.service = e.name) ∧
      s' = s.begin e.name nodeList ∧
      ∀ u : State, u.watchers e.name = s.watchers e.name →
        step u e = some (u.begin e.name nodeList)) ∨
    ∃ ty todo, s' = s.pass e.name ty todo ∧
      ∀ u : State, u.watchers e.name = s.watchers e.name →
        step u e = some (u.pass e.name ty todo) := by
  cases e with
  | rsp name doc =>
    obtain ⟨nodes, hwf, hservice⟩ := hdoc name doc rfl
    obtain ⟨nodeList, hparse, hagrees⟩ := parseServiceInfoRsp_agrees hwf
    simp only [step, hparse, Option.map_some] at h
    cases htodo : (s.watchers name).todo with
    | cons ty todo => simp [htodo] at h
    | nil =>
      refine .inl ⟨nodes, nodeList, hagrees, hservice, ?_, fun u hu => ?_⟩
      · simpa [htodo, eq_comm, Event.name] using h
      · have hu' : (u.watchers name).todo = [] := by rw [← htodo]; exact congrArg _ hu
        simp [step, hparse, hu', Event.name]
  | pass name =>
    simp only [step] at h
    cases htodo : (s.watchers name).todo with
    | nil => simp [htodo] at h
    | cons ty todo =>
      refine .inr ⟨ty, todo, ?_, fun u hu => ?_⟩
      · simpa [htodo, eq_comm, Event.name] using h
      · have hu' : (u.watchers name).todo = ty :: todo := by rw [← htodo]; exact congrArg _ hu
        simp [step, hu', Event.name]

/-- The watcher of `a` does the same in both. -/
theorem Sees.own {e : Event} (h : Sees a b s t) (hne : a ≠ b) (hname : e.name = a)
    (hdoc : ∀ name doc, e = .rsp name doc → About name doc) (hstep : step s e = some s') :
    ∃ t', step t e = some t' ∧ Sees a b s' t' := by
  have hw : t.watchers e.name = s.watchers e.name := by rw [hname, h.watcher]
  rcases step_cases hstep hdoc with ⟨nodes, nodeList, -, -, rfl, hu⟩ | ⟨ty, todo, rfl, hu⟩
  · refine ⟨_, hu t hw, ?_⟩
    rw [hname]
    constructor
    case watcher => simp [State.begin, h.watcher]
    case hosts => exact h.hosts
    case last => simpa [State.begin, hne.symm] using h.last
    case nodes => simpa [State.begin, hne.symm] using h.nodes
  · refine ⟨_, hu t hw, ?_⟩
    rw [hname]
    constructor
    case watcher => simp [State.pass, h.watcher]
    case hosts =>
      intro ty' cluster
      by_cases hty : ty' = ty
      · subst hty
        rw [hosts_pass_self, hosts_pass_self, h.hosts, h.watcher]
      · rw [hosts_pass_of_ne hty, hosts_pass_of_ne hty, h.hosts]
    case last => simpa [State.pass, hne.symm] using h.last
    case nodes => simpa [State.pass, hne.symm] using h.nodes

/-- The watcher of `b` changes nothing that `a` can see. -/
theorem Sees.other {e : Event} (h : Sees a b s t) (hne : a ≠ b) (hclash : ¬ Clash a b)
    (hname : e.name = b) (hdoc : ∀ name doc, e = .rsp name doc → About name doc)
    (hstep : step s e = some s') : Sees a b s' t := by
  have hforeign {k : Bytes} (hk : ∃ tag, toLower tag = tag ∧ k = serviceKey b tag)
      (cluster : Bytes) : serviceKey a cluster ≠ k := by
    obtain ⟨tag, htag, rfl⟩ := hk
    exact serviceKey_ne hne hclash htag cluster
  rcases step_cases hstep hdoc with
    ⟨nodes, nodeList, hagrees, hservice, rfl, -⟩ | ⟨ty, todo, rfl, -⟩
  · rw [hname] at hservice ⊢
    constructor
    case watcher => simpa [State.begin, hne] using h.watcher
    case hosts => exact h.hosts
    case last => simpa [State.begin] using h.last
    case nodes =>
      intro ty k hk
      have hk' : k ∈ nodeList ty := by simpa [State.begin] using hk
      obtain ⟨n, hn, -, -, hkey⟩ := (hagrees.isSome ty k).mp (AList.lookup_isSome.mpr hk')
      obtain ⟨tag, htag, rfl⟩ := List.mem_map.mp hkey
      exact ⟨tag, toLower_of_mem_serviceTags htag, by rw [hservice n hn]⟩
  · rw [hname]
    constructor
    case watcher => simpa [State.pass, hne] using h.watcher
    case hosts =>
      intro ty' cluster
      rw [hosts_pass_of_foreign (fun hk => hforeign (h.last _ hk) cluster rfl)
        (fun hk => hforeign (h.nodes ty _ hk) cluster rfl)]
      exact h.hosts ty' cluster
    case last =>
      intro k hk
      rcases mem_pass_lastServiceNames.mp hk with hk | hk
      · exact h.nodes ty k hk
      · exact h.last k hk
    case nodes => simpa [State.pass] using h.nodes

/-- Whole runs. -/
theorem sees_run (hne : a ≠ b) (hclash : ¬ Clash a b) {es : List Event}
    (hproper : ∀ e ∈ es, Proper a b e) (hrun : run step {} es = some s) :
    ∃ t, run step {} (es.filter (·.name = a)) = some t ∧ Sees a b s t := by
  revert hproper
  refine run_induction (P := fun es s => (∀ e ∈ es, Proper a b e) →
    ∃ t, run step {} (es.filter (·.name = a)) = some t ∧ Sees a b s t) ?_ ?_ hrun
  · exact fun _ => ⟨{}, rfl, sees_init⟩
  · intro es s e s' _ ih hstep hproper
    obtain ⟨t, hrun, hsees⟩ := ih fun e' he' => hproper e' (by simp [he'])
    obtain ⟨hname, hdoc⟩ := hproper e (by simp)
    have hdoc' : ∀ name doc, e = .rsp name doc → About name doc := by
      rintro name doc rfl
      exact hdoc
    rw [List.filter_append]
    by_cases ha : e.name = a
    · obtain ⟨t', hstep', hsees'⟩ := hsees.own hne ha hdoc' hstep
      refine ⟨t', ?_, hsees'⟩
      rw [List.filter_cons_of_pos (by simpa using ha), List.filter_nil]
      exact run_snoc_eq_some.mpr ⟨t, hrun, hstep'⟩
    · refine ⟨t, ?_, hsees.other hne hclash (hname.resolve_left ha) hdoc' hstep⟩
      rw [List.filter_cons_of_neg (by simpa using ha), List.filter_nil, List.append_nil]
      exact hrun

theorem Sees.getServiceAddress (h : Sees a b s t) (cluster : Bytes) (balanceIndex type : Nat) :
    getServiceAddress s cluster balanceIndex a type =
      Registry.getServiceAddress t cluster balanceIndex a type := by
  unfold Registry.getServiceAddress
  split
  · rfl
  · rw [h.hosts]

end Sees

/-! ## A clash shows -/

/-- One passing node of a service with one tag. -/
def taggedNode (service tag host : Bytes) : Node where
  host := host
  port := 80
  service := service
  tags := [tag]
  statuses := some [ascii "passing"]

/-- No protocol name ends in `dev`. -/
theorem protocol?_dev (u : Bytes) : protocol? (u ++ ascii "dev") = none := by
  have hlast : (u ++ ascii "dev").getLast? = some 118 := by
    rw [List.getLast?_append]
    rfl
  have hne {tag : Bytes} (h : tag.getLast? ≠ some 118) : u ++ ascii "dev" ≠ tag :=
    fun heq => h (heq ▸ hlast)
  unfold protocol?
  rw [if_neg (hne (by decide)), if_neg (hne (by decide)), if_neg (hne (by decide))]

/-- The keys of a node whose tag is in lower case and ends in `dev`. -/
theorem keys_taggedNode {tag u : Bytes} (service host : Bytes) (hu : tag = u ++ ascii "dev")
    (htag : toLower tag = tag) :
    (taggedNode service tag host).keys = [serviceKey service tag] ∧
      (taggedNode service tag host).type = .custom := by
  have hplain : plainTags [tag] = [tag] := by simp [plainTags, hu, protocol?_dev]
  constructor
  · simp [Node.keys, Node.serviceTags, taggedNode, htag, hplain]
  · have hlast : lastProtocol [tag] .custom = .custom := by simp [lastProtocol, hu, protocol?_dev]
    simp [Node.type, taggedNode, htag, hlast]

/-- A tag for which `b` has a key that is also a key of `a`. -/
theorem exists_tag_of_clash {a b : Bytes} (h : Clash a b) :
    ∃ tag u cluster, tag = u ++ ascii "dev" ∧ toLower tag = tag ∧
      serviceKey a cluster = serviceKey b tag := by
  rcases h with ⟨x, rfl⟩ | ⟨⟨y, rfl⟩, hlower⟩
  · exact ⟨ascii "dev", [], x ++ ascii "-" ++ ascii "dev", rfl, by decide, by simp [serviceKey]⟩
  · have hdrop : (b ++ ascii "-" ++ y).drop (b.length + 1) = y := by
      rw [List.append_assoc, List.drop_append]
      simp [ascii]
    rw [hdrop] at hlower
    refine ⟨y ++ ascii "-" ++ ascii "dev", y ++ ascii "-", ascii "dev", rfl, ?_, ?_⟩
    · rw [toLower_append, toLower_append, hlower]
      rfl
    · simp [serviceKey]

theorem proper_handling {a b : Bytes} {nodes : List Node} (h : ∀ n ∈ nodes, n.service = b) :
    ∀ e ∈ handling b [healthRsp nodes], Proper a b e := by
  intro e he
  rw [handling, List.flatMap_singleton, List.mem_cons] at he
  rcases he with rfl | he
  · exact ⟨.inr rfl, nodes, wellFormed_healthRsp nodes, h⟩
  · rw [(List.mem_replicate.mp he).2]
    exact ⟨.inr rfl, trivial⟩

theorem not_isolated_of_clash {a b : Bytes} (hne : a ≠ b) (h : Clash a b) : ¬ Isolated a b := by
  obtain ⟨tag, u, cluster, hu, htag, hkey⟩ := exists_tag_of_clash h
  obtain ⟨hkeys, htype⟩ := keys_taggedNode b (ascii "10.0.0.1") hu htag
  obtain ⟨s, hrun, -, -, hreg⟩ := @run_response {} b _ _ rfl
    (by simp [Remembers, State.hosts])
    (wellFormed_healthRsp [taggedNode b tag (ascii "10.0.0.1")])
  intro hisolated
  obtain ⟨t, hrun', haddress⟩ := hisolated _ s (proper_handling (by simp [taggedNode])) hrun
  -- the watcher of `a` has done nothing
  have hnone : (handling b [healthRsp [taggedNode b tag (ascii "10.0.0.1")]]).filter (·.name = a) =
      [] := by
    simp [handling, Event.name, hne.symm]
  rw [hnone] at hrun'
  obtain rfl : {} = t := by simpa using hrun'
  -- and yet there is an address for `a`
  have hfound := hreg .custom (serviceKey a cluster)
  have hnode : ∃ n ∈ [taggedNode b tag (ascii "10.0.0.1")], n.passing = true ∧
      n.type = .custom ∧ serviceKey a cluster ∈ n.keys :=
    ⟨_, List.mem_singleton_self _, by simp [Node.passing, taggedNode], htype,
      by rw [hkeys, hkey]; exact List.mem_singleton_self _⟩
  have hempty : ({} : State).hosts .custom (serviceKey a cluster) = none := by simp [State.hosts]
  cases hhosts : s.hosts .custom (serviceKey a cluster) with
  | none =>
    rw [hhosts] at hfound
    exact hfound hnode
  | some hosts =>
    rw [hhosts] at hfound
    obtain ⟨p, ps, rfl⟩ := List.exists_cons_of_ne_nil hfound.2.1
    simpa [getServiceAddress, serviceTypes, hhosts, hempty] using haddress cluster 0 3

/-- **Services are isolated exactly when no key can be read in two ways.** -/
theorem isolated_iff {a b : Bytes} (hne : a ≠ b) : Isolated a b ↔ ¬ Clash a b := by
  constructor
  · exact fun h hclash => not_isolated_of_clash hne hclash h
  · intro hclash es s hproper hrun
    obtain ⟨t, hrun', hsees⟩ := sees_run hne hclash hproper hrun
    exact ⟨t, hrun', hsees.getServiceAddress⟩

theorem isolated_usersOrders : Isolated (ascii "users") (ascii "user-orders") :=
  (isolated_iff (by decide)).mpr (by decide)

/-- **One service replaces another's address.** The watcher of `a` registers the tag `b-c`;
    then the watcher of `a-b` registers the tag `c`, which is the same key. -/
theorem dashedNames_not_isolated :
    (run step {} (handling (ascii "a") [healthRsp [taggedNode (ascii "a") (ascii "b-c")
        (ascii "10.0.0.1")]])).map (getServiceAddress · (ascii "b-c") 0 (ascii "a") 3) =
      some (some (ascii "10.0.0.1", ascii "80")) ∧
    (run step {} (handling (ascii "a") [healthRsp [taggedNode (ascii "a") (ascii "b-c")
        (ascii "10.0.0.1")]] ++ handling (ascii "a-b") [healthRsp [taggedNode (ascii "a-b")
        (ascii "c") (ascii "10.0.0.2")]])).map
          (getServiceAddress · (ascii "b-c") 0 (ascii "a") 3) =
      some (some (ascii "10.0.0.2", ascii "80")) ∧
    ¬ Isolated (ascii "a") (ascii "a-b") :=
  ⟨by decide +kernel, by decide +kernel, not_isolated_of_clash (by decide) (by decide)⟩

end FiberProxy.Registry
