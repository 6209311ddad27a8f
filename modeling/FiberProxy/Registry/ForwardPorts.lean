/-
  FiberProxy.Registry.ForwardPorts

  What the watcher of the forward ports achieves over a sequence of polls: after
  a poll the services with a forward port are those its keys name.  The tables
  agree with each other after every poll (`books_known_of_run`), so the ports can
  be wrong only in which services they stand for.
-/

import FiberProxy.Registry.PortForward
import Mathlib.Data.List.Chain

namespace FiberProxy.Registry.PortForward

open Lib

/-- The keys of the poll. -/
def Poll.keys (p : Poll) : List Bytes := ((parseForwardPortListRsp p.doc).bind id).getD []

/-- The list was parsed, and every server that was to be started was. -/
structure Poll.Succeeds (p : Poll) : Prop where
  parsed : parseForwardPortListRsp p.doc = some (some p.keys)
  started : none ∉ p.starts

/-- A key of the list that is longer than an agent's id has this value. -/
def Poll.Names (p : Poll) (si : ServiceInfo) : Prop :=
  ∃ key ∈ p.keys, agentIdLen < key.length ∧ getForwardPortInfo (p.info key) = some si

/-- The value of a key stays the same from one poll to the next while the key is there. -/
def Stable (ps : List Poll) : Prop :=
  ps.IsChain fun p q => ∀ key ∈ p.keys, key ∈ q.keys → p.info key = q.info key

/-- A server runs at the port, for this service. -/
def State.Forwards (s : State) (port : Port) (si : ServiceInfo) : Prop :=
  port ∈ s.mgr.forwardServerList ∧ s.mgr.forwardServiceList.lookup port = some si

/-- The services with a forward port are those the keys name, each with one port. -/
def Follows (p : Poll) (s : State) : Prop :=
  (∀ si, (∃ port, s.Forwards port si) ↔ p.Names si) ∧
    ∀ si port port', s.Forwards port si → s.Forwards port' si → port = port'

theorem State.Books.forwards_iff {s : State} (hs : s.Books) {port : Port} {si : ServiceInfo} :
    s.Forwards port si ↔ s.mgr.forwardServiceList.lookup port = some si := by
  unfold State.Forwards
  rw [and_iff_right_iff_imp, hs.servers]
  intro h
  exact AList.lookup_isSome.mp (by rw [h]; rfl)

/-- A service has one port. -/
theorem State.Books.port_unique {s : State} (hs : s.Books) {si : ServiceInfo} {port port' : Port}
    (h : s.Forwards port si) (h' : s.Forwards port' si) : port = port' := by
  have hport := (hs.served si.uniqueStr port).mpr ⟨si, h.2, rfl⟩
  have hport' := (hs.served si.uniqueStr port').mpr ⟨si, h'.2, rfl⟩
  exact Option.some.inj (hport.symm.trans hport')

/-- What an iteration does with a list that was parsed. -/
theorem step_eq_some {s s' : State} {p : Poll} (hp : p.Succeeds) (h : step s p = some s') :
    (p.keys = [] ∧ s' = { s with previousKeys := ∅ }) ∨
      (p.keys ≠ [] ∧ ∃ r, run (handleKey s.previousKeys p.info) (s.round p) p.keys = some r ∧
        s' = s.finish r) := by
  unfold step at h
  rw [hp.parsed] at h
  cases hkeys : p.keys with
  | nil =>
    rw [hkeys] at h
    exact .inl ⟨rfl, (Option.some.inj h).symm⟩
  | cons key keys =>
    rw [hkeys] at h
    obtain ⟨r, hr, rfl⟩ := Option.map_eq_some_iff.mp h
    exact .inr ⟨by simp, r, hr, rfl⟩

/-- The end of an iteration: the ports without agents are gone. -/
theorem Read.finish {s : State} {p : Poll} {keys : List Bytes} {r : Round}
    (hr : Read s.previousKeys p.info p.starts keys r) :
    (s.finish r).Books ∧ ∀ port si, (s.finish r).Forwards port si ↔
      r.mgr.forwardServiceList.lookup port = some si ∧ ∃ a, a ∈ agents r.lastPorts port := by
  obtain ⟨hbooks, hlookup⟩ := hr.books.stopAll (removedPorts r.lastPorts)
  have hfinish : (s.finish r).Books := hbooks
  refine ⟨hfinish, fun port si => ?_⟩
  rw [hfinish.forwards_iff]
  show (List.foldl Round.stop r _).mgr.forwardServiceList.lookup port = some si ↔ _
  rw [hlookup]
  split
  · rename_i hrem
    obtain ⟨-, hnone⟩ := mem_removedPorts.mp hrem
    simp [hnone]
  · rename_i hrem
    rw [mem_removedPorts, not_and] at hrem
    refine ⟨fun h => ⟨h, ?_⟩, And.left⟩
    have hmem : port ∈ r.lastPorts :=
      (hr.books.ports port).mpr (AList.lookup_isSome.mp (by rw [h]; rfl))
    simpa using hrem hmem

/-- What the watcher knows from its last poll. -/
def State.Known (s : State) (ps : List Poll) : Prop :=
  ∀ key si, s.previousKeys.lookup key = some si →
    ∃ q, ps.getLast? = some q ∧ key ∈ q.keys ∧ getForwardPortInfo (q.info key) = some si

/-- The service of a key of the list is the one its value names now. -/
theorem State.Known.serviceOf {s : State} {ps : List Poll} {p : Poll} (hs : s.Known ps)
    (hstable : Stable (ps ++ [p])) {key : Bytes} (hkey : key ∈ p.keys) :
    serviceOf s.previousKeys p.info key = getForwardPortInfo (p.info key) := by
  unfold PortForward.serviceOf
  cases hprev : s.previousKeys.lookup key with
  | none => rfl
  | some si =>
    obtain ⟨q, hq, hkq, hinfo⟩ := hs key si hprev
    have hchain := (List.isChain_append.mp hstable).2.2 q (by simp [hq]) p (by simp)
    rw [← hchain key hkq hkey, hinfo]
    rfl

theorem books_known_step {ps : List Poll} {s s' : State} {p : Poll} (hbooks : s.Books)
    (hknown : s.Known ps) (hstable : Stable (ps ++ [p])) (hp : p.Succeeds)
    (h : step s p = some s') : s'.Books ∧ s'.Known (ps ++ [p]) := by
  rcases step_eq_some hp h with ⟨-, rfl⟩ | ⟨-, r, hr, rfl⟩
  · exact ⟨hbooks, fun key si hk => by simp at hk⟩
  · have hread := read_of_run hbooks hr
    refine ⟨hread.finish.1, fun key si hk => ?_⟩
    obtain ⟨hkey, -, hsi⟩ := (hread.noted key si).mp hk
    refine ⟨p, by simp, hkey, ?_⟩
    rw [← hknown.serviceOf hstable hkey]
    exact hsi

theorem books_known_of_run {ps : List Poll} {s : State} (hstable : Stable ps)
    (hps : ∀ p ∈ ps, p.Succeeds) (h : run step {} ps = some s) : s.Books ∧ s.Known ps := by
  have hboth : Stable ps → (∀ p ∈ ps, p.Succeeds) → s.Books ∧ s.Known ps := by
    refine run_induction (P := fun ps s => Stable ps → (∀ p ∈ ps, p.Succeeds) →
      s.Books ∧ s.Known ps) ?_ ?_ h
    · intro _ _
      refine ⟨⟨?_, ?_, ?_⟩, ?_⟩ <;> simp [State.Known]
    · intro ps s p s' _ ih hstep hstable hps
      obtain ⟨hbooks, hknown⟩ :=
        ih (List.isChain_append.mp hstable).1 fun q hq => hps q (by simp [hq])
      exact books_known_step hbooks hknown hstable (hps p (by simp)) hstep
  exact hboth hstable hps

/-- **Forward ports follow the keys** after a poll, exactly when its list has a key or no
    port was forwarded. -/
theorem follows_iff {ps : List Poll} {p : Poll} {s s' : State}
    (hps : ∀ q ∈ ps ++ [p], q.Succeeds) (hstable : Stable (ps ++ [p]))
    (hrun : run step {} ps = some s) (hstep : step s p = some s') :
    Follows p s' ↔ p.keys ≠ [] ∨ ∀ port si, ¬ s.Forwards port si := by
  obtain ⟨hbooks, hknown⟩ := books_known_of_run (List.isChain_append.mp hstable).1
    (fun q hq => hps q (by simp [hq])) hrun
  have hp := hps p (by simp)
  rcases step_eq_some hp hstep with ⟨hnil, rfl⟩ | ⟨hne, r, hr, rfl⟩
  · -- an empty list: nothing is named, and nothing is stopped
    have hnames (si : ServiceInfo) : ¬ p.Names si := by simp [Poll.Names, hnil]
    simp only [Follows, hnames, iff_false, hnil, ne_eq, not_true_eq_false, false_or, not_exists]
    constructor
    · rintro ⟨h, -⟩ port si
      exact h si port
    · intro h
      exact ⟨fun si port => h port si, fun si port _ hf => absurd hf (h port si)⟩
  · have hread := read_of_run hbooks hr
    obtain ⟨hbooks', hforwards⟩ := hread.finish
    refine iff_of_true ⟨fun si => ?_, fun si port port' => hbooks'.port_unique⟩ (.inl hne)
    constructor
    · rintro ⟨port, hport⟩
      obtain ⟨hlookup, a, ha⟩ := (hforwards port si).mp hport
      obtain ⟨key, hkey, si', ⟨hlen, hsi'⟩, hmap⟩ := hread.used port a ha
      -- the port's service is the one of the key that uses it
      obtain ⟨si'', hsi'', huniq⟩ := (hread.books.served _ _).mp hmap
      obtain rfl : si = si'' := Option.some.inj (hlookup.symm.trans hsi'')
      obtain rfl := uniqueStr_inj huniq
      exact ⟨key, hkey, hlen, by rw [← hknown.serviceOf hstable hkey]; exact hsi'⟩
    · rintro ⟨key, hkey, hlen, hinfo⟩
      rw [← hknown.serviceOf hstable hkey] at hinfo
      obtain ⟨port, hmap, hagent⟩ := hread.attached hp.started key hkey si ⟨hlen, hinfo⟩
      obtain ⟨si', hsi', huniq⟩ := (hread.books.served _ _).mp hmap
      obtain rfl := uniqueStr_inj huniq
      exact ⟨port, (hforwards port si').mpr ⟨hsi', _, hagent⟩⟩


/-! ## Two polls -/

/-- A poll with one key, of the agent `agent00001`, whose value is `users,http`. -/
def usersPoll (starts : List (Option Port)) : Poll where
  doc := .arr [.str (ascii "fibp-forward-port/agent00001-users")]
  info := fun _ => some (ascii "users,http")
  starts := starts

def users : ServiceInfo := ⟨ascii "users", .http⟩

/-- A poll with no keys. -/
def emptyPoll : Poll := ⟨.arr [], fun _ => none, []⟩

theorem keys_usersPoll (starts : List (Option Port)) :
    (usersPoll starts).keys = [ascii "agent00001-users"] := by
  rfl

/-- The service has its port after the first poll and keeps it after the second. -/
theorem users_follows :
    ∃ s s', run step {} [usersPoll [some 40001]] = some s ∧ step s (usersPoll []) = some s' ∧
      Follows (usersPoll []) s' := by
  have hrun : run step {} [usersPoll [some 40001]] = some _ := rfl
  refine ⟨_, _, hrun, rfl, ?_⟩
  refine (follows_iff ?_ ?_ hrun rfl).mpr (.inl (by rw [keys_usersPoll]; simp))
  · intro q hq
    rcases List.mem_pair.mp hq with rfl | rfl
    · exact ⟨rfl, by decide⟩
    · exact ⟨rfl, by decide⟩
  · simp [Stable, usersPoll]

/-- **An empty list stops nothing**: the only key is deleted, and its service keeps a
    server on its port. -/
theorem emptyPoll_not_follows :
    ∃ s, run step {} [usersPoll [some 40001], emptyPoll] = some s ∧
      s.Forwards 40001 users ∧ ¬ Follows emptyPoll s := by
  have hrun : run step {} [usersPoll [some 40001], emptyPoll] = some _ := rfl
  refine ⟨_, hrun, ⟨by decide, rfl⟩, fun h => ?_⟩
  obtain ⟨key, hkey, -⟩ := (h.1 users).mp ⟨40001, by decide, rfl⟩
  exact absurd hkey List.not_mem_nil

end FiberProxy.Registry.PortForward
