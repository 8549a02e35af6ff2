import Mathlib.Logic.Relation
import Mathlib.Data.List.Nodup
import KynoMesh.Agentset.Validator

/-!
# The mesh of an AgentSet

`ComputeTopology` gives every agent its peers. Together they are a graph on the names of the AgentSet.

* `Edge` : the graph;
* `route` : the managed agents in declaration order, then the external ones; every peer is on it (`peers_sublist`), and in a
  Sequential set the peer of an agent is the next on it (`nextAgent_getElem`);
* `Mesh` : what a well-formed mesh is; `mesh_of_validateAgentSet`.
-/

namespace KynoMesh.Agentset

open KynoMesh.Lib KynoMesh.Api

def managedPeer (a : AbstractAgentDeploy) : Peer := { name := a.name, kind := .managed }

def externalPeer (e : ExternalAgentRef) : Peer := { name := e.name, kind := .external, url := e.url }

/-- Everything an agent of the set can call, in declaration order. -/
def route (agents : List AbstractAgentDeploy) (externalAgents : List ExternalAgentRef) : List Peer :=
  agents.map managedPeer ++ externalAgents.map externalPeer

def peerNames (as : AgentSet) (agentName : String) : List String :=
  (computeTopology as agentName).peers.map Peer.name

/-- A managed agent calls its peers. -/
def Edge (as : AgentSet) (caller callee : String) : Prop :=
  caller ∈ agentNames as ∧ callee ∈ peerNames as caller

/-- A mesh that is connected from its entry and well formed. -/
structure Mesh (as : AgentSet) : Prop where
  reaches : ∀ name ∈ agentNames as ++ externalNames as, Relation.ReflTransGen (Edge as) as.spec.entry name
  one_entry : as.spec.agents.countP (fun a => (computeTopology as a.name).isEntry) = 1
  no_self : ∀ name ∈ agentNames as, name ∉ peerNames as name
  nodup_peers : ∀ name ∈ agentNames as, (peerNames as name).Nodup
  managed : ∀ name ∈ agentNames as, ∀ p ∈ (computeTopology as name).peers, p.kind = .managed → p.name ∈ agentNames as
  /-- One simple path in declaration order, from the entry; its last hop is the external agent, if there is one. -/
  sequential : as.spec.pattern = .sequential →
    ((route as.spec.agents as.spec.externalAgents).map Peer.name).Nodup ∧
    (agentNames as).head? = some as.spec.entry ∧ as.spec.externalAgents.length ≤ 1 ∧
    ∀ (i : Nat) (hi : i < as.spec.agents.length), (computeTopology as as.spec.agents[i].name).peers =
      ((route as.spec.agents as.spec.externalAgents)[i + 1]?).toList
  supervisor : as.spec.pattern = .supervisor → ∀ name ∈ agentNames as, name ≠ as.spec.entry →
    (computeTopology as name).peers = []

/-! ## The route -/

section
variable {agents : List AbstractAgentDeploy} {externalAgents : List ExternalAgentRef} {self : String} {p : Peer}

theorem map_name_route : (route agents externalAgents).map Peer.name =
    agents.map AbstractAgentDeploy.name ++ externalAgents.map ExternalAgentRef.name := by
  simp [route, managedPeer, externalPeer, Function.comp_def]

theorem name_getElem_route {i : Nat} (hi : i < agents.length) (hr : i < (route agents externalAgents).length) :
    (route agents externalAgents)[i].name = agents[i].name := by
  simp [route, hi, managedPeer]

theorem name_mem_of_managed (hp : p ∈ route agents externalAgents) (hkind : p.kind = .managed) :
    p.name ∈ agents.map AbstractAgentDeploy.name := by
  rcases List.mem_append.mp hp with hp | hp
  · obtain ⟨a, ha, rfl⟩ := List.mem_map.mp hp
    exact List.mem_map_of_mem ha
  · obtain ⟨e, -, rfl⟩ := List.mem_map.mp hp
    cases hkind

theorem peersExcluding_sublist : (peersExcluding agents externalAgents self).Sublist (route agents externalAgents) :=
  (List.filter_sublist.map managedPeer).append (List.Sublist.refl _)

theorem mem_map_peersExcluding {name : String} :
    name ∈ (peersExcluding agents externalAgents self).map Peer.name ↔
      (name ∈ agents.map AbstractAgentDeploy.name ∧ name ≠ self) ∨
        name ∈ externalAgents.map ExternalAgentRef.name := by
  unfold peersExcluding
  rw [List.map_append, List.mem_append, List.map_map, List.map_map]
  refine or_congr ?_ Iff.rfl
  simp only [List.mem_map, List.mem_filter, bne_iff_ne, Function.comp_apply]
  constructor
  · rintro ⟨a, ⟨ha, hne⟩, rfl⟩
    exact ⟨⟨a, ha, rfl⟩, hne⟩
  · rintro ⟨⟨a, ha, rfl⟩, hne⟩
    exact ⟨a, ⟨ha, hne⟩, rfl⟩

theorem nextAgent_cons_ne {a : AbstractAgentDeploy} {rest : List AbstractAgentDeploy} (h : a.name ≠ self) :
    nextAgent (a :: rest) externalAgents self = nextAgent rest externalAgents self := by
  simp [nextAgent, h]

theorem nextAgent_map_name : nextAgent (agents.map fun a => { name := a.name }) externalAgents self =
    nextAgent agents externalAgents self := by
  induction agents with
  | nil => rfl
  | cons a rest ih =>
    by_cases hne : a.name = self
    · cases rest <;> cases externalAgents <;> simp [nextAgent, hne]
    · rw [List.map_cons, nextAgent_cons_ne hne, nextAgent_cons_ne (a := { name := a.name }) hne, ih]

/-- The agent at position `i` of the declaration calls position `i + 1` of the route. -/
theorem nextAgent_getElem (hnodup : (agents.map AbstractAgentDeploy.name).Nodup) (i : Nat) (hi : i < agents.length) :
    nextAgent agents externalAgents agents[i].name = (route agents externalAgents)[i + 1]? := by
  induction agents generalizing i with
  | nil => cases hi
  | cons a rest ih =>
    obtain ⟨ha, hrest⟩ := List.nodup_cons.mp hnodup
    cases i with
    | zero => cases rest <;> cases externalAgents <;> simp [nextAgent, route, managedPeer, externalPeer]
    | succ i =>
      have hi' : i < rest.length := by simpa using hi
      have hne : a.name ≠ rest[i].name := fun heq => ha (heq ▸ List.mem_map_of_mem (List.getElem_mem hi'))
      rw [List.getElem_cons_succ, nextAgent_cons_ne hne, ih hrest i hi']
      rfl

theorem toList_getElem?_sublist {α : Type} (l : List α) (i : Nat) : l[i]?.toList.Sublist l := by
  cases h : l[i]? with
  | none => exact List.nil_sublist l
  | some x => exact List.singleton_sublist.mpr (List.mem_of_getElem? h)

end

/-! ## The peers of an agent -/

section
variable {as : AgentSet} {name : String}

theorem nodup_map_name_route (hv : Valid as) :
    ((route as.spec.agents as.spec.externalAgents).map Peer.name).Nodup := by
  rw [map_name_route]
  exact hv.nodup

theorem peers_handoff (h : as.spec.pattern = .handoff) :
    (computeTopology as name).peers = peersExcluding as.spec.agents as.spec.externalAgents name := by
  simp [computeTopology, h]

theorem peers_supervisor (h : as.spec.pattern = .supervisor) : (computeTopology as name).peers =
    if name = as.spec.entry then peersExcluding as.spec.agents as.spec.externalAgents name else [] := by
  simp [computeTopology, h]

theorem peers_sequential (hv : Valid as) (h : as.spec.pattern = .sequential) (i : Nat)
    (hi : i < as.spec.agents.length) : (computeTopology as as.spec.agents[i].name).peers =
      ((route as.spec.agents as.spec.externalAgents)[i + 1]?).toList := by
  rw [← nextAgent_getElem (List.nodup_append.mp hv.nodup).1 i hi]
  simp [computeTopology, h]

theorem peers_cases (hv : Valid as) (hname : name ∈ agentNames as) :
    (computeTopology as name).peers = [] ∨
    (computeTopology as name).peers = peersExcluding as.spec.agents as.spec.externalAgents name ∨
    ∃ (i : Nat) (hi : i < as.spec.agents.length), as.spec.agents[i].name = name ∧
      (computeTopology as name).peers = ((route as.spec.agents as.spec.externalAgents)[i + 1]?).toList := by
  cases hp : as.spec.pattern with
  | handoff => exact .inr (.inl (peers_handoff hp))
  | supervisor =>
    rw [peers_supervisor hp]
    by_cases he : name = as.spec.entry
    · exact .inr (.inl (if_pos he))
    · exact .inl (if_neg he)
  | sequential =>
    obtain ⟨i, hi, rfl⟩ := List.getElem_of_mem hname
    have hi' : i < as.spec.agents.length := by simpa [agentNames] using hi
    have hn : (agentNames as)[i] = as.spec.agents[i].name := by simp [agentNames]
    rw [hn]
    exact .inr (.inr ⟨i, hi', rfl, peers_sequential hv hp i hi'⟩)
  | other pattern => exact absurd hp (hv.supported pattern)

theorem peers_sublist (hv : Valid as) (hname : name ∈ agentNames as) :
    (computeTopology as name).peers.Sublist (route as.spec.agents as.spec.externalAgents) := by
  rcases peers_cases hv hname with h | h | ⟨i, -, -, h⟩ <;> rw [h]
  · exact List.nil_sublist _
  · exact peersExcluding_sublist
  · exact toList_getElem?_sublist _ _

theorem self_notMem_peerNames (hv : Valid as) (hname : name ∈ agentNames as) : name ∉ peerNames as name := by
  unfold peerNames
  rcases peers_cases hv hname with h | h | ⟨i, hi, rfl, h⟩ <;> rw [h]
  · simp
  · rw [mem_map_peersExcluding]
    rintro (⟨-, hne⟩ | hext)
    · exact hne rfl
    · exact (List.nodup_append.mp hv.nodup).2.2 name hname name hext rfl
  · -- positions `i` and `i + 1` of the route have different names
    intro hmem
    obtain ⟨p, hp, hpn⟩ := List.mem_map.mp hmem
    rw [Option.mem_toList, List.getElem?_eq_some_iff] at hp
    obtain ⟨hlt, rfl⟩ := hp
    have hi' : i < (route as.spec.agents as.spec.externalAgents).length := by omega
    have hinj := List.inj_on_of_nodup_map (nodup_map_name_route hv) (List.getElem_mem hlt) (List.getElem_mem hi')
      (hpn.trans (name_getElem_route hi hi').symm)
    have := (nodup_map_name_route hv).of_map.getElem_inj_iff.mp hinj
    omega

theorem countP_isEntry (hv : Valid as) :
    as.spec.agents.countP (fun a => (computeTopology as a.name).isEntry) = 1 := by
  have hcount := List.count_eq_one_of_mem (List.nodup_append.mp hv.nodup).1 hv.entry_mem
  rwa [agentNames, List.count, List.countP_map] at hcount

/-! ## Reachability -/

theorem reaches_of_peersExcluding (hv : Valid as) (h : (computeTopology as as.spec.entry).peers =
    peersExcluding as.spec.agents as.spec.externalAgents as.spec.entry)
    (hname : name ∈ agentNames as ++ externalNames as) : Relation.ReflTransGen (Edge as) as.spec.entry name := by
  by_cases he : name = as.spec.entry
  · rw [he]
  · refine .single ⟨hv.entry_mem, ?_⟩
    rw [peerNames, h, mem_map_peersExcluding]
    rcases List.mem_append.mp hname with hm | hx
    · exact .inl ⟨hm, he⟩
    · exact .inr hx

/-- Along the route: by induction on the position, each hop is an edge as all but the last stop are managed. -/
theorem reaches_route (hv : Valid as) (h : as.spec.pattern = .sequential) (i : Nat)
    (hi : i < (route as.spec.agents as.spec.externalAgents).length) :
    Relation.ReflTransGen (Edge as) as.spec.entry (route as.spec.agents as.spec.externalAgents)[i].name := by
  obtain ⟨hhead, hone⟩ := hv.sequential h
  have hlen : (route as.spec.agents as.spec.externalAgents).length =
      as.spec.agents.length + as.spec.externalAgents.length := by simp [route]
  induction i with
  | zero =>
    obtain ⟨hpos, hentry⟩ := List.getElem?_eq_some_iff.mp (List.head?_eq_getElem?.symm.trans hhead)
    have hpos' : 0 < as.spec.agents.length := by simpa [agentNames] using hpos
    rw [name_getElem_route hpos', ← hentry]
    simp only [agentNames, List.getElem_map]
    exact .refl
  | succ i ih =>
    have hi' : i < as.spec.agents.length := by omega
    refine (ih (by omega)).tail ⟨?_, ?_⟩ <;> rw [name_getElem_route hi']
    · exact List.mem_map_of_mem (List.getElem_mem hi')
    · rw [peerNames, peers_sequential hv h i hi', List.getElem?_eq_getElem hi]
      exact List.mem_singleton_self _

theorem reaches (hv : Valid as) (hname : name ∈ agentNames as ++ externalNames as) :
    Relation.ReflTransGen (Edge as) as.spec.entry name := by
  cases hp : as.spec.pattern with
  | handoff => exact reaches_of_peersExcluding hv (peers_handoff hp) hname
  | supervisor => exact reaches_of_peersExcluding hv ((peers_supervisor hp).trans (if_pos rfl)) hname
  | sequential =>
    rw [agentNames, externalNames, ← map_name_route] at hname
    obtain ⟨p, hp', rfl⟩ := List.mem_map.mp hname
    obtain ⟨i, hi, rfl⟩ := List.getElem_of_mem hp'
    exact reaches_route hv hp i hi
  | other pattern => exact absurd hp (hv.supported pattern)

end

/-! ## The mesh -/

theorem mesh_of_valid {as : AgentSet} (hv : Valid as) : Mesh as where
  reaches _ := reaches hv
  one_entry := countP_isEntry hv
  no_self _ := self_notMem_peerNames hv
  nodup_peers _ hname := (nodup_map_name_route hv).sublist ((peers_sublist hv hname).map Peer.name)
  managed _ hname _ hp := name_mem_of_managed ((peers_sublist hv hname).subset hp)
  sequential h := ⟨nodup_map_name_route hv, (hv.sequential h).1, (hv.sequential h).2, peers_sequential hv h⟩
  supervisor h _ _ hne := (peers_supervisor h).trans (if_neg hne)

/-- The daemon's copy keeps what the topology reads: the names, the external agents, the entry and the pattern. -/
theorem computeTopology_simpleCopy (as : AgentSet) (agentName : String) :
    computeTopology as.simpleCopy agentName = computeTopology as agentName := by
  have hexcl : ∀ self, peersExcluding as.simpleCopy.spec.agents as.spec.externalAgents self =
      peersExcluding as.spec.agents as.spec.externalAgents self := by
    intro self
    simp [peersExcluding, AgentSet.simpleCopy, List.filter_map, Function.comp_def]
  unfold computeTopology
  rw [show as.simpleCopy.spec.pattern = as.spec.pattern from rfl,
    show as.simpleCopy.spec.entry = as.spec.entry from rfl,
    show as.simpleCopy.spec.externalAgents = as.spec.externalAgents from rfl, hexcl,
    show nextAgent as.simpleCopy.spec.agents as.spec.externalAgents agentName =
      nextAgent as.spec.agents as.spec.externalAgents agentName from nextAgent_map_name]

/-- **Validated meshes.** The mesh of a valid AgentSet is connected and well formed, and the daemon sees the same. -/
theorem mesh_of_validateAgentSet (c : Checks) (as : AgentSet) (hvalid : validateAgentSet c as = .ok ()) :
    Mesh as ∧ ∀ agentName, computeTopology as.simpleCopy agentName = computeTopology as agentName :=
  ⟨mesh_of_valid (valid_of_validateAgentSet hvalid), computeTopology_simpleCopy as⟩

/-- Two agents in a chain that ends in an external one. -/
def chainSet : AgentSet where
  metadata := { nspace := "default", name := "mesh" }
  spec :=
    { pattern := .sequential, entry := "a", agents := [{ name := "a" }, { name := "b" }]
      externalAgents := [{ name := "tools", url := "https://tools.local" }] }

theorem mesh_chainSet : validateAgentSet labelChecks chainSet = .ok () ∧ Mesh chainSet ∧
    ∀ agentName, computeTopology chainSet.simpleCopy agentName = computeTopology chainSet agentName :=
  ⟨by decide +kernel, mesh_of_validateAgentSet labelChecks chainSet (by decide +kernel)⟩

end KynoMesh.Agentset
