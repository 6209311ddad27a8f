/-
  FiberProxy.Registry.Failover

  `FibpPortForwardMgr::create_forward_connection`: two attempts to connect a forwarded
  client to a node of its service.  The balance index is counted up at every lookup,
  so an attempt that falls back from custom to HTTP nodes counts twice.  With two HTTP
  nodes the second attempt then meets the node of the first (`failover_iff`).

  Registry and cluster can change between the lookups, and what a connect gives is not
  decided here: both are given for each lookup and each attempt.
-/

import FiberProxy.Lib.Lists
import FiberProxy.Registry.ClusterNames
import FiberProxy.Registry.PortForward

namespace FiberProxy.Registry.PortForward

open Lib

/-- What one call meets. -/
structure Surroundings where
  /-- `reg_service_host_info_` and `curClusterName_` at the lookup with this index. -/
  registry : Nat → Registry.State
  cluster : Nat → Bytes
  /-- `async_connect` returns without an error, when so many attempts are left. -/
  connects : Nat → HostPair → Bool

inductive ForwardError where
  | notSupported
  /-- The error of `async_connect`. -/
  | connect
deriving DecidableEq, Repr

/-- What `create_forward_connection` returns, with the node of `forward_client` if it was
    set. -/
structure ForwardResult where
  ec : Option ForwardError
  forwardClient : Option HostPair
deriving DecidableEq, Repr

section Loop

variable (w : Surroundings) (finfo : ServiceInfo)

def lookup (balanceIndex : Nat) (t : ServiceType) : Option HostPair :=
  getServiceAddress (w.registry balanceIndex) (w.cluster balanceIndex) balanceIndex
    finfo.serviceName t.toInt.toNat

/-- The lookups of one attempt, and `balance_index` after them. -/
def nextHost (balanceIndex : Nat) : Option HostPair × Nat :=
  match lookup w finfo (balanceIndex + 1) finfo.type with
  | some hp => (some hp, balanceIndex + 1)
  | none =>
    if finfo.type = .custom then (lookup w finfo (balanceIndex + 2) .http, balanceIndex + 2)
    else (none, balanceIndex + 1)

/-- The loop, from its test `--retry > 0` on. -/
def connectLoop : Nat → Nat → Option ForwardError → ForwardResult
  | 0, _, ec => ⟨ec, none⟩
  | retry + 1, balanceIndex, ec =>
    if retry = 0 then ⟨ec, none⟩
    else
      match nextHost w finfo balanceIndex with
      | (none, _) => ⟨some .notSupported, none⟩
      | (some hp, balanceIndex') =>
        if w.connects retry hp then ⟨none, some hp⟩
        else connectLoop retry balanceIndex' (some .connect)

end Loop

/-- `FibpPortForwardMgr::create_forward_connection`; `rand` is what `rand()` gives. -/
def createForwardConnection (mgr : PortForwardMgr) (w : Surroundings) (forwardPort : Port)
    (rand : Nat) : ForwardResult :=
  match mgr.forwardServiceList.lookup forwardPort with
  | none => ⟨some .notSupported, none⟩
  | some finfo => connectLoop w finfo 3 (rand % 1000) none

/-! ## The addresses of the attempts -/

/-- The hosts registered for the service under a type, at the lookup with this index. -/
def Surroundings.hosts (w : Surroundings) (finfo : ServiceInfo) (balanceIndex : Nat)
    (t : ServiceType) : Option (List HostPair) :=
  (w.registry balanceIndex).hosts t (serviceKey finfo.serviceName (w.cluster balanceIndex))

/-- The nodes that the service is forwarded to: those of its type, or for a custom
    service without nodes the HTTP nodes of the name. -/
inductive Applicable (w : Surroundings) (finfo : ServiceInfo) (hosts : List HostPair) :
    (fallback : Bool) → Prop where
  | own (h : ∀ i, w.hosts finfo i finfo.type = some hosts) : Applicable w finfo hosts false
  | fallback (hcustom : finfo.type = .custom)
      (hnone : ∀ i, (w.hosts finfo i .custom).getD [] = [])
      (h : ∀ i, w.hosts finfo i .http = some hosts) : Applicable w finfo hosts true

/-- By how much an attempt advances the balance index. -/
def stride (fallback : Bool) : Nat := if fallback then 2 else 1

section Attempts

variable {w : Surroundings} {finfo : ServiceInfo} {hosts : List HostPair} {fallback : Bool}

theorem lookup_of_hosts {t : ServiceType} {i : Nat} (h : w.hosts finfo i t = some hosts) :
    lookup w finfo i t = hosts[i % hosts.length]? := by
  have ht : serviceTypes[t.toInt.toNat]? = some t := by cases t <;> rfl
  exact getServiceAddress_of_hosts ht h i

theorem lookup_of_none {t : ServiceType} {i : Nat} (h : (w.hosts finfo i t).getD [] = []) :
    lookup w finfo i t = none := by
  cases hhosts : w.hosts finfo i t with
  | some hosts =>
    obtain rfl : hosts = [] := by simpa [hhosts] using h
    rw [lookup_of_hosts hhosts]
    rfl
  | none =>
    have ht : serviceTypes[t.toInt.toNat]? = some t := by cases t <;> rfl
    simp only [Surroundings.hosts] at hhosts
    simp only [lookup, getServiceAddress, ht, hhosts]

/-- The attempt takes the node that the advanced index selects. -/
theorem nextHost_eq (h : Applicable w finfo hosts fallback) (hne : hosts ≠ []) (i : Nat) :
    nextHost w finfo i =
      (hosts[(i + stride fallback) % hosts.length]?, i + stride fallback) := by
  cases h with
  | own h =>
    obtain ⟨hp, hhp⟩ := Option.isSome_iff_exists.mp (isSome_getElem?_mod hne (i + 1))
    simp only [nextHost, lookup_of_hosts (h (i + 1)), stride, hhp, Bool.false_eq_true, if_false]
  | fallback hcustom hnone h =>
    have hfirst : lookup w finfo (i + 1) finfo.type = none := by
      rw [hcustom]
      exact lookup_of_none (hnone (i + 1))
    rw [nextHost, hfirst, stride, if_pos rfl]
    simp only [hcustom, if_true, lookup_of_hosts (h (i + 2))]

/-- The two attempts of the loop. -/
theorem connectLoop_eq (h : Applicable w finfo hosts fallback) {i : Nat} {p q : HostPair}
    (hp : hosts[(i + stride fallback) % hosts.length]? = some p)
    (hq : hosts[(i + stride fallback + stride fallback) % hosts.length]? = some q) :
    connectLoop w finfo 3 i none =
      if w.connects 2 p then ⟨none, some p⟩
      else if w.connects 1 q then ⟨none, some q⟩
      else ⟨some .connect, none⟩ := by
  have hne : hosts ≠ [] := by
    rintro rfl
    simp at hp
  simp only [connectLoop, nextHost_eq h hne, hp, hq, if_true, if_false, Nat.reduceEqDiff]

/-- The second attempt meets the node of the first when it is two steps on, among two
    nodes. -/
theorem second_eq_first_iff (hnodup : hosts.Nodup) (hlen : 2 ≤ hosts.length) {i : Nat}
    {p q : HostPair} (hp : hosts[(i + stride fallback) % hosts.length]? = some p)
    (hq : hosts[(i + stride fallback + stride fallback) % hosts.length]? = some q) :
    q = p ↔ fallback = true ∧ hosts.length = 2 := by
  constructor
  · rintro rfl
    have hstride : ¬ stride fallback < hosts.length := by
      intro hlt
      have heq := getElem?_mod_inj hnodup (Nat.le_add_right _ _) (by omega) (hp.trans hq.symm)
      unfold stride at heq
      split at heq <;> omega
    cases fallback with
    | false => exact absurd hlen hstride
    | true =>
      have hle : ¬ 2 < hosts.length := hstride
      exact ⟨rfl, by omega⟩
  · rintro ⟨rfl, htwo⟩
    rw [show stride true = hosts.length from htwo.symm, Nat.add_mod_right] at hq
    rw [show stride true = hosts.length from htwo.symm, hq] at hp
    exact Option.some.inj hp

end Attempts

/-- **Failover.** A service with at least two nodes, one of which cannot be connected:
    the call connects to another one, except when it falls back to exactly two HTTP nodes
    and begins with the unreachable one. -/
theorem failover_iff {mgr : PortForwardMgr} {w : Surroundings} {forwardPort : Port}
    {finfo : ServiceInfo} {hosts : List HostPair} {fallback : Bool} {bad : HostPair} (rand : Nat)
    (hport : mgr.getForwardService forwardPort = some finfo)
    (happ : Applicable w finfo hosts fallback) (hnodup : hosts.Nodup) (hlen : 2 ≤ hosts.length)
    (hbad : bad ∈ hosts) (hreach : ∀ k, ∀ p ∈ hosts, w.connects k p = true ↔ p ≠ bad) :
    (∃ p ∈ hosts, p ≠ bad ∧ createForwardConnection mgr w forwardPort rand = ⟨none, some p⟩) ↔
      ¬ (fallback = true ∧ hosts.length = 2 ∧ hosts[rand % 1000 % 2]? = some bad) := by
  have hne : hosts ≠ [] := List.ne_nil_of_mem hbad
  have hcall : createForwardConnection mgr w forwardPort rand =
      connectLoop w finfo 3 (rand % 1000) none := by
    rw [PortForwardMgr.getForwardService] at hport
    rw [createForwardConnection, hport]
  rw [hcall]
  generalize rand % 1000 = i
  obtain ⟨p, hp⟩ := Option.isSome_iff_exists.mp (isSome_getElem?_mod hne (i + stride fallback))
  obtain ⟨q, hq⟩ := Option.isSome_iff_exists.mp
    (isSome_getElem?_mod hne (i + stride fallback + stride fallback))
  have hpmem := List.mem_of_getElem? hp
  have hqmem := List.mem_of_getElem? hq
  rw [connectLoop_eq happ hp hq]
  have hsecond := second_eq_first_iff hnodup hlen hp hq
  -- with two nodes the first attempt takes the node of the index itself
  have hfirst (htwo : fallback = true ∧ hosts.length = 2) : hosts[i % 2]? = some p := by
    obtain ⟨rfl, htwo⟩ := htwo
    rwa [htwo, stride, if_pos rfl, Nat.add_mod_right] at hp
  by_cases hpbad : p = bad
  · subst hpbad
    rw [if_neg (by rw [hreach 2 p hpmem]; exact fun h => h rfl)]
    by_cases hqbad : q = p
    · subst hqbad
      rw [if_neg (by rw [hreach 1 q hqmem]; exact fun h => h rfl)]
      refine iff_of_false (by simp) fun hnot => hnot ?_
      have htwo := hsecond.mp rfl
      exact ⟨htwo.1, htwo.2, hfirst htwo⟩
    · rw [if_pos ((hreach 1 q hqmem).mpr hqbad)]
      refine iff_of_true ⟨q, hqmem, hqbad, rfl⟩ ?_
      rintro ⟨hfallback, htwo, -⟩
      exact hqbad (hsecond.mpr ⟨hfallback, htwo⟩)
  · rw [if_pos ((hreach 2 p hpmem).mpr hpbad)]
    refine iff_of_true ⟨p, hpmem, hpbad, rfl⟩ ?_
    rintro ⟨hfallback, htwo, hbadFirst⟩
    rw [hfirst ⟨hfallback, htwo⟩] at hbadFirst
    exact hpbad (Option.some.inj hbadFirst)

/-- A passing HTTP node of `svc`, in the cluster `dev`. -/
def httpNode (host : Bytes) : Node := taggedNode (ascii "svc") (ascii "http") host

/-- The registry gets two HTTP nodes of `svc`. -/
def httpEvents : List Registry.Event :=
  handling (ascii "svc") [healthRsp [httpNode (ascii "10.0.0.1"), httpNode (ascii "10.0.0.2")]]

def httpHosts : List HostPair :=
  [(ascii "10.0.0.1", ascii "80"), (ascii "10.0.0.2", ascii "80")]

/-- That registry, with the first node unreachable. -/
def firstDown (s : Registry.State) : Surroundings where
  registry := fun _ => s
  cluster := fun _ => ascii "dev"
  connects := fun _ p => p ≠ (ascii "10.0.0.1", ascii "80")

/-- Port 10006 forwards to `svc`. -/
def svcPort (t : ServiceType) : PortForwardMgr :=
  (({} : PortForwardMgr).startPortForward 10006).updateForwardService 10006 ⟨ascii "svc", t⟩

theorem run_httpEvents : ∃ s, run Registry.step {} httpEvents = some s ∧
    s.hosts .http (serviceKey (ascii "svc") (ascii "dev")) = some httpHosts ∧
    s.hosts .custom (serviceKey (ascii "svc") (ascii "dev")) = none := by
  have hview : (run Registry.step {} httpEvents).map (fun s =>
      [ServiceType.http, .custom].map (s.hosts · (serviceKey (ascii "svc") (ascii "dev")))) =
        some [some httpHosts, none] := by decide +kernel
  obtain ⟨s, hrun, hs⟩ := Option.map_eq_some_iff.mp hview
  simp only [List.map_cons, List.map_nil, List.cons.injEq, and_true] at hs
  exact ⟨s, hrun, hs⟩

/-- Forwarded as HTTP, the second attempt reaches the second node. -/
theorem failover_http : ∃ s, run Registry.step {} httpEvents = some s ∧
    ∃ p ∈ httpHosts, p ≠ (ascii "10.0.0.1", ascii "80") ∧
      createForwardConnection (svcPort .http) (firstDown s) 10006 1 = ⟨none, some p⟩ := by
  obtain ⟨s, hrun, hhttp, -⟩ := run_httpEvents
  have happ : Applicable (firstDown s) ⟨ascii "svc", .http⟩ httpHosts false :=
    .own fun _ => hhttp
  exact ⟨s, hrun, (failover_iff 1 rfl happ (by decide) (by decide) (by decide)
    (by simp [firstDown])).mpr (by decide)⟩

/-- Forwarded as custom, both attempts meet the first node. -/
theorem failover_lost : ∃ s, run Registry.step {} httpEvents = some s ∧
    Applicable (firstDown s) ⟨ascii "svc", .custom⟩ httpHosts true ∧
    createForwardConnection (svcPort .custom) (firstDown s) 10006 0 = ⟨some .connect, none⟩ := by
  obtain ⟨s, hrun, hhttp, hcustom⟩ := run_httpEvents
  have happ : Applicable (firstDown s) ⟨ascii "svc", .custom⟩ httpHosts true :=
    .fallback rfl (fun _ => by simp [Surroundings.hosts, firstDown, hcustom]) fun _ => hhttp
  refine ⟨s, hrun, happ, ?_⟩
  have hloop := connectLoop_eq happ (i := 0) (p := (ascii "10.0.0.1", ascii "80"))
    (q := (ascii "10.0.0.1", ascii "80")) (by decide) (by decide)
  simpa [createForwardConnection, svcPort, PortForwardMgr.updateForwardService, firstDown] using
    hloop

end FiberProxy.Registry.PortForward
