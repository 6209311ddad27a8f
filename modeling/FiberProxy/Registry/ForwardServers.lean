/-
  FiberProxy.Registry.ForwardServers

  The two maps of `FibpPortForwardMgr` (`forward-manager/FibpPortForwardMgr.cpp`) under
  all its threads.  Each function takes the lock for one section:
  `FibpForwardManager::startPortForward` starts a server in one section and notes its
  service in another, and the thread of a server whose `run` throws erases the server
  alone.  The port of a section that is still to come is kept with its caller, the
  threads that are in `run_server` in a list of their ports.
-/

import FiberProxy.Lib.Lists
import FiberProxy.Registry.PortForward

namespace FiberProxy.Registry.PortForward

open Lib

namespace PortForwardMgr

/-- The section of `stopAll`. -/
def stopAll (_ : PortForwardMgr) : PortForwardMgr := {}

/-- The `catch` block of `run_server`. -/
def serverFailed (m : PortForwardMgr) (port : Port) : PortForwardMgr :=
  { m with forwardServerList := m.forwardServerList.erase port }

end PortForwardMgr

namespace Servers

structure State where
  mgr : PortForwardMgr := {}
  /-- The callers of `startPortForward` that have their port and no entry yet. -/
  starting : List (Port × ServiceInfo) := []
  /-- The ports of the threads in `run_server`. -/
  threads : List Port := []

inductive Event where
  /-- A server is started at a port that no listed server has. -/
  | start (port : Port) (si : ServiceInfo)
  /-- The `i`-th of the callers calls `updateForwardService`. -/
  | update (i : Nat)
  | stop (port : Port)
  | stopAll
  /-- `server->run` throws. -/
  | fail (port : Port)
  /-- `server->run` returns. -/
  | exit (port : Port)
deriving DecidableEq, Repr

def step (s : State) : Event → Option State
  | .start port si =>
    if port ∈ s.mgr.forwardServerList then none
    else
      some {
        mgr := s.mgr.startPortForward port
        starting := s.starting ++ [(port, si)]
        threads := s.threads ++ [port] }
  | .update i =>
    (s.starting[i]?).map fun c =>
      { s with mgr := s.mgr.updateForwardService c.1 c.2, starting := s.starting.eraseIdx i }
  | .stop port => some { s with mgr := s.mgr.stopPortForward port }
  | .stopAll => some { s with mgr := s.mgr.stopAll }
  | .fail port =>
    if port ∈ s.threads then
      some { s with mgr := s.mgr.serverFailed port, threads := s.threads.erase port }
    else none
  | .exit port =>
    if port ∈ s.threads then some { s with threads := s.threads.erase port } else none

/-- Every port with a service has a server. -/
def Advertised (m : PortForwardMgr) : Prop :=
  ∀ port, port ∈ m.forwardServiceList → port ∈ m.forwardServerList

/-- A service is noted only for a port that still has its server, and a server fails only
    while its port has no service. -/
def KeepsServer (s : State) : Event → Prop
  | .update i => ∀ c, s.starting[i]? = some c → c.1 ∈ s.mgr.forwardServerList
  | .fail port => port ∉ s.mgr.forwardServiceList
  | _ => True

/-! ## One section -/

variable {m : PortForwardMgr} {port : Port}

theorem Advertised.startPortForward (h : Advertised m) : Advertised (m.startPortForward port) :=
  fun p hp => Finset.mem_insert_of_mem (h p hp)

theorem advertised_updateForwardService (h : Advertised m) (si : ServiceInfo) :
    Advertised (m.updateForwardService port si) ↔ port ∈ m.forwardServerList := by
  constructor
  · intro h'
    exact h' port ((AList.mem_insert _).mpr (.inl rfl))
  · intro hport p hp
    rcases (AList.mem_insert _).mp hp with rfl | hp
    · exact hport
    · exact h p hp

theorem Advertised.stopPortForward (h : Advertised m) : Advertised (m.stopPortForward port) := by
  unfold PortForwardMgr.stopPortForward
  split
  · intro p hp
    obtain ⟨hne, hp⟩ := AList.mem_erase.mp hp
    exact Finset.mem_erase.mpr ⟨hne, h p hp⟩
  · exact h

theorem advertised_stopAll (m : PortForwardMgr) : Advertised m.stopAll :=
  fun _ hp => absurd hp (AList.notMem_empty _)

theorem advertised_serverFailed (h : Advertised m) :
    Advertised (m.serverFailed port) ↔ port ∉ m.forwardServiceList := by
  constructor
  · intro h' hport
    exact Finset.notMem_erase port _ (h' port hport)
  · intro hport p hp
    refine Finset.mem_erase.mpr ⟨?_, h p hp⟩
    rintro rfl
    exact hport hp

/-! ## Every run -/

/-- What a step makes of the two maps. -/
theorem advertised_step {s s' : State} {e : Event} (h : Advertised s.mgr)
    (hs : step s e = some s') : Advertised s'.mgr ↔ KeepsServer s e := by
  cases e with
  | start port si =>
    simp only [step] at hs
    split at hs
    · simp at hs
    · obtain rfl := Option.some.inj hs
      exact iff_of_true h.startPortForward trivial
  | update i =>
    obtain ⟨c, hc, rfl⟩ := Option.map_eq_some_iff.mp hs
    rw [advertised_updateForwardService h]
    constructor
    · intro hport c' hc'
      obtain rfl := Option.some.inj (hc.symm.trans hc')
      exact hport
    · intro hall
      exact hall c hc
  | stop port =>
    obtain rfl := Option.some.inj hs
    exact iff_of_true h.stopPortForward trivial
  | stopAll =>
    obtain rfl := Option.some.inj hs
    exact iff_of_true (advertised_stopAll s.mgr) trivial
  | fail port =>
    simp only [step] at hs
    split at hs
    · obtain rfl := Option.some.inj hs
      exact advertised_serverFailed h
    · simp at hs
  | exit port =>
    simp only [step] at hs
    split at hs
    · obtain rfl := Option.some.inj hs
      exact iff_of_true h trivial
    · simp at hs

/-- **Every advertised port has a server, exactly** in the runs in which no service is
    noted for a port whose server is gone and no server fails while its port has a
    service. -/
theorem advertised_iff {es : List Event} {s : State} (hrun : run step {} es = some s) :
    Throughout step (fun s => Advertised s.mgr) {} es ↔ Along step KeepsServer {} es := by
  have hinv (s : State) (e : Event) (s' : State) (_ : True) (_ : step s e = some s') : True :=
    trivial
  exact throughout_iff_along hinv (fun _ _ _ _ h hs => advertised_step h hs) trivial
    (advertised_stopAll {}) hrun

/-- A server is started, gets its service and is stopped. -/
def stoppedRun : List Event :=
  [.start 40001 ⟨ascii "users", .http⟩, .update 0, .stop 40001, .exit 40001]

theorem stoppedRun_advertised :
    (run step {} stoppedRun).isSome = true ∧
      Throughout step (fun s => Advertised s.mgr) {} stoppedRun := by
  have hsome : (run step {} stoppedRun).isSome = true := by decide +kernel
  obtain ⟨s, hrun⟩ := Option.isSome_iff_exists.mp hsome
  refine ⟨hsome, (advertised_iff hrun).mpr ?_⟩
  refine ⟨trivial, fun s hs => ⟨fun c hc => ?_, fun _ _ => ?_⟩⟩
  · obtain rfl := Option.some.inj hs
    obtain rfl := Option.some.inj hc
    decide
  · exact ⟨trivial, fun _ _ => ⟨trivial, fun _ _ => trivial⟩⟩

/-- **A server that fails leaves its service behind**: the port is advertised and nobody
    listens. -/
theorem failedServer_not_advertised :
    ∃ s, run step {} [.start 40001 ⟨ascii "users", .http⟩, .update 0, .fail 40001] = some s ∧
      s.mgr.getForwardService 40001 = some ⟨ascii "users", .http⟩ ∧
      40001 ∉ s.mgr.forwardServerList ∧ ¬ Advertised s.mgr := by
  refine ⟨_, rfl, rfl, by decide, fun h => ?_⟩
  exact absurd (h 40001 (AList.lookup_isSome.mp rfl)) (by decide)

end Servers

end FiberProxy.Registry.PortForward
