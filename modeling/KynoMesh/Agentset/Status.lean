import KynoMesh.Agentset.Convergence
import KynoMesh.Pods.Controller

/-!
# The status of an AgentSet

`reconcile` of `agentset/controller.go` with all of its exits, and `aggregateChildHealth`, which makes the phase of an
AgentSet from those of its children.

* `aggregateChildHealth`, `reconcileSet` : the code;
* `statusOf` : what a list of conditions says of a type; `statusOf_setCondition`;
* `agentSet_status` : what the phase and the conditions of a pass mean;
* `running_children_ready` : what they mean for the pods, over all that the two controllers and others have written.
-/

namespace KynoMesh.Agentset

open KynoMesh.Lib KynoMesh.Api
open KynoMesh.Pods (conditionDeployed)

def conditionConfigured : String := "Configured"
def conditionAgentsHealthy : String := "AgentsHealthy"

inductive AgentSetPhase where
  | unknown
  | running
  | failed
  deriving DecidableEq

structure AgentSetStatus where
  conditions : List Condition := []
  phase : AgentSetPhase := .unknown
  message : String := ""
  lastUpdated : Int := zeroTime
  agentCount : Option UInt32 := none
  externalAgentCount : Option UInt32 := none
  observedGeneration : Int64 := 0
  deriving DecidableEq

/-- `Status.IsReady`. -/
def isReady (conditions : List Condition) : Bool :=
  !conditions.isEmpty && conditions.all fun c => c.status == .true

/-- `markTypeStatus`. -/
def AgentSetStatus.mark (s : AgentSetStatus) (now : Int) (type : String) (status : ConditionStatus)
    (reason message : String) : AgentSetStatus :=
  { s with
    conditions := setCondition now s.conditions { type := type, status := status, reason := reason, message := message } }

/-! ## Children -/

def sortedNames (m : Dict String AgentDeploy) : List String := m.keys.mergeSort fun a b => decide (a ≤ b)

/-- One turn of the loop over the desired children: the failed ones and those that start. -/
def classifyChild (existing : Dict String AgentDeploy) (acc : List String × List String) (name : String) :
    List String × List String :=
  match existing.lookup name with
  | none => (acc.1, acc.2 ++ [name ++ ": starting"])
  | some ad =>
    match ad.status.phase with
    | .failed => (acc.1 ++ [name ++ ": Failed"], acc.2)
    | .unknown =>
      (acc.1, acc.2 ++ [name ++ ": " ++ itoa ad.status.readyReplicas.toNat ++ "/" ++
        itoa ad.status.desiredReplicas.toNat ++ " ready"])
    | .running => acc

def aggregateChildHealth (now : Int) (desired existing : Dict String AgentDeploy) (s : AgentSetStatus) :
    AgentSetStatus :=
  if desired.entries.length = 0 then
    { s with phase := .unknown }.mark now conditionAgentsHealthy .unknown "NoAgents" "No agents are defined"
  else
    let (failed, starting) := (sortedNames desired).foldl (classifyChild existing) ([], [])
    if failed.length > 0 then
      let msg := "unhealthy agents: [" ++ ", ".intercalate failed ++ "]"
      { s with phase := .failed, message := msg }.mark now conditionAgentsHealthy .false "AgentsUnhealthy" msg
    else if starting.length > 0 then
      let msg := "waiting for agents: [" ++ ", ".intercalate starting ++ "]"
      { s with phase := .unknown, message := msg }.mark now conditionAgentsHealthy .unknown "AgentsStarting" msg
    else
      { s with phase := .running, message := "" }.mark now conditionAgentsHealthy .true "Successful" "Successful"

/-! ## The pass -/

/-- What a pass reads: the calls of its sync, the clock at its conditions and at its end, and the results of
`reconcileEntryService` and `reconcileDaemon`. -/
structure SetInput where
  sync : SyncInput := {}
  clock : Fin 7 → Int
  entry : Except String Unit := .ok ()
  daemon : Except String Unit := .ok ()

/-- `InitializeConditions`, at three readings of the clock, and the generation. -/
def openSet (clock : Fin 7 → Int) (as : AgentSet) (s : AgentSetStatus) : AgentSetStatus :=
  let s := s.mark (clock 0) conditionConfigured .unknown "Unknown" ""
  let s := s.mark (clock 1) conditionDeployed .unknown "Unknown" ""
  let s := s.mark (clock 2) conditionAgentsHealthy .unknown "Unknown" ""
  { s with observedGeneration := as.metadata.generation }

/-- The exits that report an error in the status. -/
def AgentSetStatus.fail (s : AgentSetStatus) (now : Int) (type reason err : String) : AgentSetStatus :=
  { s.mark now type .false reason err with phase := .failed, message := err }

/-- The status of the copy at the end of `reconcile`, and its error. -/
def reconcileSet (c : Checks) (r : SetReconciler) (inp : SetInput) (as : AgentSet) (status : AgentSetStatus)
    (st : DeployStore) : AgentSetStatus × Option String :=
  let s := openSet inp.clock as status
  match validateAgentSet c as with
  | .error e => (s.fail (inp.clock 3) conditionConfigured "InvalidSpec" e, none)
  | .ok () =>
    let s := s.mark (inp.clock 3) conditionConfigured .true "Successful" "Successful"
    match listOwnedAgentDeploys inp.sync as st with
    | .error e => (s, some ("failed to list child AgentDeploys: " ++ e))
    | .ok existing =>
      match buildDesired r as with
      | .error e => (s.fail (inp.clock 4) conditionConfigured "BuildFailed" e, none)
      | .ok desired =>
        match applyDesiredState inp.sync existing desired st with
        | .error e => (s.fail (inp.clock 4) conditionDeployed "DeployFailed" e, some e)
        | .ok _ =>
          match inp.entry with
          | .error e => (s.fail (inp.clock 4) conditionDeployed "EntryServiceFailed" e, some e)
          | .ok () =>
            match inp.daemon with
            | .error e => (s.fail (inp.clock 4) conditionDeployed "DaemonFailed" e, some e)
            | .ok () =>
              let s := s.mark (inp.clock 4) conditionDeployed .true "Successful" "Successful"
              -- the children are those that were listed before the sync
              let s := aggregateChildHealth (inp.clock 5) desired existing s
              ({ s with
                agentCount := some (UInt32.ofNat desired.entries.length)
                externalAgentCount := some (UInt32.ofNat as.spec.externalAgents.length)
                lastUpdated := inp.clock 6 }, none)

/-! ## What conditions say -/

/-- The status of the condition of a type, `GetCondition`. -/
def statusOf (conditions : List Condition) (type : String) : Option ConditionStatus :=
  (conditions.find? fun c => c.type == type).map Condition.status

section
variable {now : Int} {conditions : List Condition} {condition : Condition} {type : String} {σ : ConditionStatus}

theorem statusOf_eq_some (h : (conditions.map Condition.type).Nodup) :
    statusOf conditions type = some σ ↔ ∃ c ∈ conditions, c.type = type ∧ c.status = σ := by
  rw [statusOf, Option.map_eq_some_iff]
  constructor
  · rintro ⟨c, hc, rfl⟩
    exact ⟨c, List.mem_of_find?_eq_some hc, by simpa using List.find?_some hc, rfl⟩
  · rintro ⟨c, hc, rfl, rfl⟩
    cases hfind : conditions.find? fun c' => c'.type == c.type with
    | none => simpa using List.find?_eq_none.mp hfind c hc
    | some c' =>
      have htype : c'.type = c.type := by simpa using List.find?_some hfind
      rw [List.inj_on_of_nodup_map h (List.mem_of_find?_eq_some hfind) hc htype]
      exact ⟨c, rfl, rfl⟩

theorem exists_mem_setCondition (now : Int) (conditions : List Condition) (condition : Condition) :
    ∃ c ∈ setCondition now conditions condition, c.type = condition.type ∧ c.status = condition.status := by
  by_cases h : Stands conditions condition
  · rw [setCondition_of_stands h]
    obtain ⟨c, hc, heq⟩ := h
    exact ⟨c, hc, by rw [heq], by rw [heq]⟩
  · exact ⟨_, (mem_setCondition_of_not_stands h).mpr (.inr rfl), rfl, rfl⟩

theorem statusOf_setCondition (h : (conditions.map Condition.type).Nodup) :
    statusOf (setCondition now conditions condition) type =
      if type = condition.type then some condition.status else statusOf conditions type := by
  have hset : ((setCondition now conditions condition).map Condition.type).Nodup := nodup_setCondition h
  split_ifs with htype
  · subst htype
    exact (statusOf_eq_some hset).mpr (exists_mem_setCondition now conditions condition)
  · refine Option.ext fun σ => ?_
    rw [statusOf_eq_some hset, statusOf_eq_some h]
    refine exists_congr fun c => ?_
    constructor
    · rintro ⟨hc, rfl, hσ⟩
      exact ⟨(mem_setCondition_of_type_ne htype).mp hc, rfl, hσ⟩
    · rintro ⟨hc, rfl, hσ⟩
      exact ⟨(mem_setCondition_of_type_ne htype).mpr hc, rfl, hσ⟩

end

/-- The conditions of an AgentSet: at most one of each of the three types. -/
structure SetConditions (conditions : List Condition) : Prop where
  nodup : (conditions.map Condition.type).Nodup
  types : ∀ c ∈ conditions, c.type = conditionConfigured ∨ c.type = conditionDeployed ∨ c.type = conditionAgentsHealthy

section
variable {s : AgentSetStatus} {now : Int} {type reason message : String} {status : ConditionStatus}

theorem SetConditions.mark (h : SetConditions s.conditions)
    (htype : type = conditionConfigured ∨ type = conditionDeployed ∨ type = conditionAgentsHealthy) :
    SetConditions (s.mark now type status reason message).conditions := by
  refine ⟨nodup_setCondition h.nodup, fun c hc => ?_⟩
  by_cases hne : c.type = type
  · rwa [hne]
  · exact h.types c ((mem_setCondition_of_type_ne hne).mp hc)

theorem statusOf_mark (h : SetConditions s.conditions) (t : String) :
    statusOf (s.mark now type status reason message).conditions t =
      if t = type then some status else statusOf s.conditions t :=
  statusOf_setCondition h.nodup

theorem isReady_iff {conditions : List Condition} (h : SetConditions conditions)
    {configured deployed healthy : ConditionStatus}
    (hc : statusOf conditions conditionConfigured = some configured)
    (hd : statusOf conditions conditionDeployed = some deployed)
    (hh : statusOf conditions conditionAgentsHealthy = some healthy) :
    isReady conditions = true ↔ configured = .true ∧ deployed = .true ∧ healthy = .true := by
  obtain ⟨c₁, hmem₁, ht₁, rfl⟩ := (statusOf_eq_some h.nodup).mp hc
  obtain ⟨c₂, hmem₂, ht₂, rfl⟩ := (statusOf_eq_some h.nodup).mp hd
  obtain ⟨c₃, hmem₃, ht₃, rfl⟩ := (statusOf_eq_some h.nodup).mp hh
  have hne : conditions.isEmpty = false := by
    cases conditions with
    | nil => cases hmem₁
    | cons => rfl
  simp only [isReady, hne, Bool.not_false, Bool.true_and, List.all_eq_true, beq_iff_eq]
  constructor
  · intro hall
    exact ⟨hall c₁ hmem₁, hall c₂ hmem₂, hall c₃ hmem₃⟩
  · rintro ⟨h₁, h₂, h₃⟩ c hmem
    have hsame : ∀ {c'}, c' ∈ conditions → c.type = c'.type → c = c' :=
      fun hmem' => List.inj_on_of_nodup_map h.nodup hmem hmem'
    rcases h.types c hmem with ht | ht | ht
    · rw [hsame hmem₁ (ht.trans ht₁.symm), h₁]
    · rw [hsame hmem₂ (ht.trans ht₂.symm), h₂]
    · rw [hsame hmem₃ (ht.trans ht₃.symm), h₃]

theorem setConditions_openSet (clock : Fin 7 → Int) (as : AgentSet) (h : SetConditions s.conditions) :
    SetConditions (openSet clock as s).conditions :=
  ((h.mark (.inl rfl)).mark (.inr (.inl rfl))).mark (.inr (.inr rfl))

end

/-! ## The health of the children -/

/-- What is known of a child. -/
def childPhase (existing : Dict String AgentDeploy) (name : String) : Option AgentDeployPhase :=
  (existing.lookup name).map fun ad => ad.status.phase

section
variable {desired : Dict String AgentDeploy}

theorem classifyChild_cases (existing : Dict String AgentDeploy) (acc : List String × List String) (name : String) :
    (childPhase existing name = some .failed ∧ ∃ text, classifyChild existing acc name = (acc.1 ++ [text], acc.2)) ∨
      (childPhase existing name = some .running ∧ classifyChild existing acc name = acc) ∨
      ((childPhase existing name = none ∨ childPhase existing name = some .unknown) ∧
        ∃ text, classifyChild existing acc name = (acc.1, acc.2 ++ [text])) := by
  unfold childPhase classifyChild
  cases existing.lookup name with
  | none => exact .inr (.inr ⟨.inl rfl, _, rfl⟩)
  | some ad =>
    cases hphase : ad.status.phase with
    | failed => exact .inl ⟨by simp [hphase], _, by simp only [hphase]; rfl⟩
    | running => exact .inr (.inl ⟨by simp [hphase], by simp only [hphase]⟩)
    | unknown => exact .inr (.inr ⟨.inr (by simp [hphase]), _, by simp only [hphase]; rfl⟩)

theorem classify_failed (existing : Dict String AgentDeploy) (names : List String) (acc : List String × List String) :
    ((names.foldl (classifyChild existing) acc).1).length > 0 ↔
      acc.1.length > 0 ∨ ∃ name ∈ names, childPhase existing name = some .failed := by
  induction names generalizing acc with
  | nil => simp
  | cons name names ih =>
    rw [List.foldl_cons, ih, List.exists_mem_cons_iff]
    rcases classifyChild_cases existing acc name with ⟨hphase, text, heq⟩ | ⟨hphase, heq⟩ | ⟨hphase, text, heq⟩
    · simp [heq, hphase]
    · simp [heq, hphase]
    · rcases hphase with hphase | hphase <;> simp [heq, hphase]

theorem classify_starting (existing : Dict String AgentDeploy) (names : List String) (acc : List String × List String) :
    ((names.foldl (classifyChild existing) acc).2).length > 0 ↔
      acc.2.length > 0 ∨
        ∃ name ∈ names, childPhase existing name ≠ some .failed ∧ childPhase existing name ≠ some .running := by
  induction names generalizing acc with
  | nil => simp
  | cons name names ih =>
    rw [List.foldl_cons, ih, List.exists_mem_cons_iff]
    rcases classifyChild_cases existing acc name with ⟨hphase, text, heq⟩ | ⟨hphase, heq⟩ | ⟨hphase, text, heq⟩
    · simp [heq, hphase]
    · simp [heq, hphase]
    · rcases hphase with hphase | hphase <;> simp [heq, hphase]

theorem mem_sortedNames {name : String} : name ∈ sortedNames desired ↔ name ∈ desired := by
  rw [sortedNames, List.mem_mergeSort, AList.mem_keys]

/-- The verdict on the children: `out` is the status `s` with the phase and the condition that it deserves. -/
inductive Judged (existing desired : Dict String AgentDeploy) (now : Int) (s out : AgentSetStatus) : Prop where
  | failed (h : ∃ name ∈ desired, childPhase existing name = some .failed) (hphase : out.phase = .failed)
      (hout : ∃ reason message, out.conditions = (s.mark now conditionAgentsHealthy .false reason message).conditions)
  | starting (h : ∀ name ∈ desired, childPhase existing name ≠ some .failed)
      (h' : ∃ name ∈ desired, childPhase existing name ≠ some .running) (hphase : out.phase = .unknown)
      (hout : ∃ reason message, out.conditions = (s.mark now conditionAgentsHealthy .unknown reason message).conditions)
  | running (h : ∀ name ∈ desired, childPhase existing name = some .running) (hphase : out.phase = .running)
      (hout : ∃ reason message, out.conditions = (s.mark now conditionAgentsHealthy .true reason message).conditions)

theorem judged (existing desired : Dict String AgentDeploy) (now : Int) (s : AgentSetStatus) (hne : desired.entries ≠ []) :
    Judged existing desired now s (aggregateChildHealth now desired existing s) := by
  have hlen : desired.entries.length ≠ 0 := fun h => hne (List.eq_nil_of_length_eq_zero h)
  have hfailed := classify_failed existing (sortedNames desired) ([], [])
  have hstarting := classify_starting existing (sortedNames desired) ([], [])
  simp only [List.length_nil, gt_iff_lt, lt_self_iff_false, false_or, mem_sortedNames] at hfailed hstarting
  rw [aggregateChildHealth, if_neg hlen]
  dsimp only
  split_ifs with h₁ h₂
  · exact .failed (hfailed.mp h₁) rfl ⟨_, _, rfl⟩
  · have hnone : ∀ name ∈ desired, childPhase existing name ≠ some .failed :=
      fun name hname hphase => h₁ (hfailed.mpr ⟨name, hname, hphase⟩)
    obtain ⟨name, hname, -, hphase⟩ := hstarting.mp h₂
    exact .starting hnone ⟨name, hname, hphase⟩ rfl ⟨_, _, rfl⟩
  · refine .running (fun name hname => ?_) rfl ⟨_, _, rfl⟩
    by_contra hphase
    exact h₂ (hstarting.mpr ⟨name, hname, fun hf => h₁ (hfailed.mpr ⟨name, hname, hf⟩), hphase⟩)

end

/-! ## The meaning of a pass -/

/-- Everything of the AgentSet is in place, as far as the pass can tell. -/
def Provisioned (c : Checks) (r : SetReconciler) (inp : SetInput) (as : AgentSet) (st : DeployStore) : Prop :=
  validateAgentSet c as = .ok () ∧ (∃ st', syncChildren r inp.sync as st = .ok st') ∧ inp.entry = .ok () ∧
    inp.daemon = .ok ()

section
variable {c : Checks} {r : SetReconciler} {inp : SetInput} {as : AgentSet} {status : AgentSetStatus} {st : DeployStore}

/-- A status that reports an error of the pass itself. -/
structure Faulted (out : AgentSetStatus) : Prop where
  phase : out.phase = .failed
  conditions : SetConditions out.conditions
  notReady : isReady out.conditions = false

theorem AgentSetStatus.faulted {s : AgentSetStatus} (h : SetConditions s.conditions) (now : Int)
    {type : String} (htype : type = conditionConfigured ∨ type = conditionDeployed) (reason err : String) :
    Faulted (s.fail now type reason err) := by
  have hconds : SetConditions (s.fail now type reason err).conditions := h.mark (htype.imp id .inl)
  refine ⟨rfl, hconds, ?_⟩
  obtain ⟨cond, hmem, -, hstatus⟩ := exists_mem_setCondition now s.conditions
    { type := type, status := .false, reason := reason, message := err }
  rw [Bool.eq_false_iff]
  intro hready
  rw [isReady, Bool.and_eq_true, List.all_eq_true] at hready
  have := hready.2 cond hmem
  rw [hstatus] at this
  cases this

theorem mem_buildDesired {desired : Dict String AgentDeploy} (hbuild : buildDesired r as = .ok desired) {name : String} :
    name ∈ desired ↔ ∃ a ∈ as.spec.agents, name = as.childAgentDeployName a.name := by
  obtain ⟨children, hchildren, hd⟩ := bind_eq_ok.mp hbuild
  rw [pure_eq_ok] at hd
  have hmem : name ∈ desired ↔ ∃ ad ∈ children, ad.metadata.name = name := by
    rw [← hd, ← AList.lookup_isSome, lookup_collect, List.find?_isSome]
    simp
  rw [hmem]
  constructor
  · rintro ⟨ad, had, rfl⟩
    obtain ⟨a, ha, hnew⟩ := exists_of_mem_mapM hchildren had
    exact ⟨a, ha, newAgentDeploy_name hnew⟩
  · rintro ⟨a, ha, rfl⟩
    obtain ⟨ad, had, hnew⟩ := exists_of_mem_of_mapM hchildren ha
    exact ⟨ad, had, newAgentDeploy_name hnew⟩

theorem desired_ne_nil {desired : Dict String AgentDeploy} (hvalid : validateAgentSet c as = .ok ())
    (hbuild : buildDesired r as = .ok desired) : desired.entries ≠ [] := by
  obtain ⟨a, ha, -⟩ := List.mem_map.mp (valid_of_validateAgentSet hvalid).entry_mem
  have hmem : as.childAgentDeployName a.name ∈ desired := (mem_buildDesired hbuild).mpr ⟨a, ha, rfl⟩
  obtain ⟨ad, had⟩ := Option.isSome_iff_exists.mp (AList.lookup_isSome.mpr hmem)
  exact List.ne_nil_of_mem (mem_entries_iff.mpr had)

/-- The exits of a pass that could list its children. -/
theorem reconcileSet_cases (c : Checks) (r : SetReconciler) (as : AgentSet) (st : DeployStore)
    (hconds : SetConditions status.conditions) (hlist : inp.sync.listFault = none) :
    (¬Provisioned c r inp as st ∧ Faulted (reconcileSet c r inp as status st).1) ∨
      (Provisioned c r inp as st ∧ ∃ existing desired s out, listOwnedAgentDeploys inp.sync as st = .ok existing ∧
        buildDesired r as = .ok desired ∧ SetConditions s.conditions ∧
        statusOf s.conditions conditionConfigured = some .true ∧ statusOf s.conditions conditionDeployed = some .true ∧
        Judged existing desired (inp.clock 5) s out ∧
        (reconcileSet c r inp as status st).1.phase = out.phase ∧
        (reconcileSet c r inp as status st).1.conditions = out.conditions) := by
  obtain ⟨existing, hexisting⟩ : ∃ existing, listOwnedAgentDeploys inp.sync as st = .ok existing := by
    unfold listOwnedAgentDeploys
    rw [hlist]
    exact ⟨_, rfl⟩
  have hinit := setConditions_openSet inp.clock as hconds
  unfold reconcileSet
  dsimp only
  generalize openSet inp.clock as status = s₀ at hinit
  cases hvalid : validateAgentSet c as with
  | error e =>
    refine .inl ⟨fun h => ?_, AgentSetStatus.faulted hinit _ (.inl rfl) _ _⟩
    rw [Provisioned, hvalid] at h
    cases h.1
  | ok u =>
    rw [hexisting]
    dsimp only
    have hconfigured : SetConditions (s₀.mark (inp.clock 3) conditionConfigured .true "Successful"
      "Successful").conditions := hinit.mark (.inl rfl)
    cases hbuild : buildDesired r as with
    | error e =>
      refine .inl ⟨fun h => ?_, AgentSetStatus.faulted hconfigured _ (.inl rfl) _ _⟩
      obtain ⟨st', hsync⟩ := h.2.1
      obtain ⟨_, _, hrest⟩ := bind_eq_ok.mp hsync
      obtain ⟨_, hok, -⟩ := bind_eq_ok.mp hrest
      rw [hbuild] at hok
      cases hok
    | ok desired =>
      have hsync : ∀ st', syncChildren r inp.sync as st = .ok st' ↔
          applyDesiredState inp.sync existing desired st = .ok st' := by
        intro st'
        rw [syncChildren, hexisting, hbuild]
        rfl
      dsimp only
      cases happly : applyDesiredState inp.sync existing desired st with
      | error e =>
        refine .inl ⟨fun h => ?_, AgentSetStatus.faulted hconfigured _ (.inr rfl) _ _⟩
        obtain ⟨st', hok⟩ := h.2.1
        rw [hsync, happly] at hok
        cases hok
      | ok st' =>
        dsimp only
        cases hentry : inp.entry with
        | error e =>
          refine .inl ⟨fun h => ?_, AgentSetStatus.faulted hconfigured _ (.inr rfl) _ _⟩
          have := h.2.2.1
          rw [hentry] at this
          cases this
        | ok u =>
          cases hdaemon : inp.daemon with
          | error e =>
            refine .inl ⟨fun h => ?_, AgentSetStatus.faulted hconfigured _ (.inr rfl) _ _⟩
            have := h.2.2.2
            rw [hdaemon] at this
            cases this
          | ok u =>
            have hne : desired.entries ≠ [] := desired_ne_nil hvalid hbuild
            refine .inr ⟨⟨hvalid, ⟨st', (hsync st').mpr happly⟩, hentry, hdaemon⟩, existing, desired, _, _, rfl, rfl,
              hconfigured.mark (.inr (.inl rfl)), ?_, ?_, judged existing desired (inp.clock 5) _ hne, rfl, rfl⟩
            · rw [statusOf_mark hconfigured, if_neg (by decide), statusOf_mark hinit, if_pos rfl]
            · rw [statusOf_mark hconfigured, if_pos rfl]

theorem childPhase_eq_some {existing : Dict String AgentDeploy} (hlist : listOwnedAgentDeploys inp.sync as st = .ok existing)
    {name : String} {phase : AgentDeployPhase} : childPhase existing name = some phase ↔
      ∃ ad, st.objects.lookup name = some ad ∧ owned as ad = true ∧ ad.status.phase = phase := by
  rw [childPhase, Option.map_eq_some_iff]
  refine exists_congr fun ad => ?_
  rw [lookup_listOwnedAgentDeploys hlist, and_assoc]

end

/-- The child of an agent is there and in this phase. -/
def ChildIn (as : AgentSet) (st : DeployStore) (phase : AgentDeployPhase) (a : AbstractAgentDeploy) : Prop :=
  ∃ ad, st.objects.lookup (as.childAgentDeployName a.name) = some ad ∧ owned as ad = true ∧ ad.status.phase = phase

section
variable {r : SetReconciler} {inp : SetInput} {as : AgentSet} {status : AgentSetStatus} {st : DeployStore}
  {existing desired : Dict String AgentDeploy}

theorem forall_childIn (hexisting : listOwnedAgentDeploys inp.sync as st = .ok existing)
    (hbuild : buildDesired r as = .ok desired) (phase : AgentDeployPhase) :
    (∀ a ∈ as.spec.agents, ChildIn as st phase a) ↔ ∀ name ∈ desired, childPhase existing name = some phase := by
  simp only [mem_buildDesired hbuild, childPhase_eq_some hexisting]
  exact ⟨fun h name ⟨a, ha, hname⟩ => hname ▸ h a ha, fun h a ha => h _ ⟨a, ha, rfl⟩⟩

theorem exists_childIn (hexisting : listOwnedAgentDeploys inp.sync as st = .ok existing)
    (hbuild : buildDesired r as = .ok desired) (phase : AgentDeployPhase) :
    (∃ a ∈ as.spec.agents, ChildIn as st phase a) ↔ ∃ name ∈ desired, childPhase existing name = some phase := by
  simp only [mem_buildDesired hbuild, childPhase_eq_some hexisting]
  constructor
  · rintro ⟨a, ha, h⟩
    exact ⟨_, ⟨a, ha, rfl⟩, h⟩
  · rintro ⟨name, ⟨a, ha, rfl⟩, h⟩
    exact ⟨a, ha, h⟩

theorem phase_running_iff {c : Checks} (hconds : SetConditions status.conditions) (hlist : inp.sync.listFault = none) :
    (reconcileSet c r inp as status st).1.phase = .running ↔
      Provisioned c r inp as st ∧ ∀ a ∈ as.spec.agents, ChildIn as st .running a := by
  rcases reconcileSet_cases c r as st hconds hlist with ⟨hnot, hfault⟩ |
    ⟨hprov, existing, desired, s, out, hexisting, hbuild, -, -, -, hjudged, hout, -⟩
  · simp [hfault.phase, hnot]
  · rw [hout, forall_childIn hexisting hbuild]
    cases hjudged with
    | failed h hp _ =>
      obtain ⟨name, hname, hfail⟩ := h
      simp only [hp, reduceCtorEq, false_iff]
      rintro ⟨-, hall⟩
      rw [hall name hname] at hfail
      cases hfail
    | starting _ h hp _ =>
      obtain ⟨name, hname, hother⟩ := h
      simp only [hp, reduceCtorEq, false_iff]
      exact fun hall => hother (hall.2 name hname)
    | running h hp _ => exact ⟨fun _ => ⟨hprov, h⟩, fun _ => hp⟩

end

/-- **The status of an AgentSet**, after a pass that could list its children and whatever it was before: the AgentSet is
Running exactly when everything is in place and all of its agents have running children, Failed exactly when something
could not be put in place or a child has failed, and its conditions are all true exactly when it is Running. -/
theorem agentSet_status (c : Checks) (r : SetReconciler) (inp : SetInput) (as : AgentSet) (status : AgentSetStatus)
    (st : DeployStore) (hconds : SetConditions status.conditions) (hlist : inp.sync.listFault = none) :
    ((reconcileSet c r inp as status st).1.phase = .running ↔
        Provisioned c r inp as st ∧ ∀ a ∈ as.spec.agents, ChildIn as st .running a) ∧
      ((reconcileSet c r inp as status st).1.phase = .failed ↔
        ¬Provisioned c r inp as st ∨ ∃ a ∈ as.spec.agents, ChildIn as st .failed a) ∧
      (isReady (reconcileSet c r inp as status st).1.conditions = true ↔
        (reconcileSet c r inp as status st).1.phase = .running) ∧
      SetConditions (reconcileSet c r inp as status st).1.conditions := by
  refine ⟨phase_running_iff hconds hlist, ?_⟩
  rcases reconcileSet_cases c r as st hconds hlist with ⟨hnot, hfault⟩ |
    ⟨hprov, existing, desired, s, out, hexisting, hbuild, hs, hconf, hdep, hjudged, hphase, hcond⟩
  · simp [hfault.phase, hnot, hfault.notReady, hfault.conditions]
  · -- the three conditions after the verdict
    have hready : ∀ {σ reason message},
        out.conditions = (s.mark (inp.clock 5) conditionAgentsHealthy σ reason message).conditions →
          SetConditions out.conditions ∧ (isReady out.conditions = true ↔ σ = .true) := by
      intro σ reason message heq
      have hout : SetConditions out.conditions := heq ▸ hs.mark (.inr (.inr rfl))
      have hc : statusOf out.conditions conditionConfigured = some .true := by
        rw [heq, statusOf_mark hs, if_neg (by decide), hconf]
      have hd : statusOf out.conditions conditionDeployed = some .true := by
        rw [heq, statusOf_mark hs, if_neg (by decide), hdep]
      have hh : statusOf out.conditions conditionAgentsHealthy = some σ := by
        rw [heq, statusOf_mark hs, if_pos rfl]
      refine ⟨hout, (isReady_iff hout hc hd hh).trans ?_⟩
      simp
    rw [hphase, hcond, exists_childIn hexisting hbuild]
    cases hjudged with
    | failed h hp hout =>
      obtain ⟨reason, message, heq⟩ := hout
      obtain ⟨hconds', hiff⟩ := hready heq
      simp [hp, hiff, hconds', h]
    | starting h _ hp hout =>
      obtain ⟨reason, message, heq⟩ := hout
      obtain ⟨hconds', hiff⟩ := hready heq
      have hnone : ¬∃ name ∈ desired, childPhase existing name = some .failed := fun ⟨name, hname, hf⟩ => h name hname hf
      simp [hp, hiff, hconds', hprov, hnone]
    | running h hp hout =>
      obtain ⟨reason, message, heq⟩ := hout
      obtain ⟨hconds', hiff⟩ := hready heq
      have hnone : ¬∃ name ∈ desired, childPhase existing name = some .failed := by
        rintro ⟨name, hname, hfail⟩
        rw [h name hname] at hfail
        cases hfail
      simp [hp, hiff, hconds', hprov, hnone]

/-- The child of the one agent of `soloSet`, as its controller has left it. -/
def soloChild (status : AgentDeployStatus) : AgentDeploy where
  metadata := { nspace := "default", name := "mesh-planner", labels := AList.insert keyAgentSetName "mesh" ∅ }
  spec := { agent := { name := "planner" }, agentSetName := "mesh", replicas := some 1 }
  status := status

theorem agentSet_status_solo :
    let st := DeployStore.empty.put (soloChild { phase := .running })
    let out := (reconcileSet labelChecks { mustHash := fun _ => "" } { clock := fun _ => 0 } (soloSet "mesh" "planner") {} st).1
    out.phase = .running ∧ isReady out.conditions = true := by
  intro st out
  obtain ⟨hrunning, -, hready, -⟩ := agentSet_status labelChecks { mustHash := fun _ => "" } { clock := fun _ => 0 }
    (soloSet "mesh" "planner") {} st ⟨List.nodup_nil, by simp⟩ rfl
  have hphase : out.phase = .running := by
    refine hrunning.mpr ⟨⟨by decide +kernel, ⟨_, rfl⟩, rfl, rfl⟩, fun a ha => ?_⟩
    obtain rfl := List.mem_singleton.mp ha
    exact ⟨_, rfl, by decide +kernel, rfl⟩
  exact ⟨hphase, hready.mpr hphase⟩

/-! ## Down to the pods -/

/-- What happens to the AgentDeploys of a namespace: writes of whoever, and the passes of their controller. -/
inductive StoreEvent where
  | create (ad : AgentDeploy)
  | update (ad : AgentDeploy)
  | delete (name : String)
  | pass (name : String) (inp : Pods.Controller.Input) (pods : Pods.PodStore)

/-- The pass, if any, could list its pods again after it had written them. -/
def StoreEvent.relisted : StoreEvent → Bool
  | .pass _ inp _ => inp.relistFault.isNone
  | .create _ | .update _ | .delete _ => true

def storeStep (r : Pods.Reconciler) (st : DeployStore) : StoreEvent → Option DeployStore
  | .create ad => (st.create ad).toOption
  | .update ad => (st.update ad).toOption
  | .delete name => (st.delete name).toOption
  | .pass name inp pods =>
    (st.objects.lookup name).map fun ad =>
      if inp.patchFault.isNone then
        st.put (Pods.Controller.patched ad (Pods.Controller.reconcileRequest r inp (.ok ad) pods).patch)
      else st

/-- A running AgentDeploy has counted as many ready pods as it wants, and some. -/
def Counted (s : AgentDeployStatus) : Prop :=
  s.phase = .running → s.readyReplicas = s.desiredReplicas ∧ 0 < s.desiredReplicas

theorem counted_reconcile {r : Pods.Reconciler} {inp : Pods.Controller.Input} (ad : AgentDeploy) (pods : Pods.PodStore)
    (hrelist : inp.relistFault = none) : Counted (Pods.Controller.reconcile r inp ad pods).1 := by
  unfold Pods.Controller.reconcile
  dsimp only
  cases inp.servicesFault with
  | some e => exact fun h => by cases h
  | none =>
    dsimp only
    split
    · exact fun h => by cases h
    · rw [hrelist]
      dsimp only
      unfold Pods.settlePhase
      split_ifs with hready
      · exact fun _ => ⟨hready.2, hready.1⟩
      · exact fun h => by cases h

theorem counted_patched {r : Pods.Reconciler} {inp : Pods.Controller.Input} {ad : AgentDeploy} (pods : Pods.PodStore)
    (h : Counted ad.status) (hrelist : inp.relistFault = none) :
    Counted (Pods.Controller.patched ad (Pods.Controller.reconcileRequest r inp (.ok ad) pods).patch).status := by
  rw [Pods.Controller.reconcileRequest]
  by_cases hdeleted : ad.metadata.deletionTimestamp ≠ zeroTime
  · rw [if_pos hdeleted]
    exact h
  · rw [if_neg hdeleted]
    dsimp only [Pods.Controller.persist]
    split_ifs
    · exact h
    · exact counted_reconcile ad pods hrelist

def CountedStore (st : DeployStore) : Prop := ∀ name ad, st.objects.lookup name = some ad → Counted ad.status

theorem CountedStore.put {st : DeployStore} (h : CountedStore st) {ad : AgentDeploy} (had : Counted ad.status) :
    CountedStore (st.put ad) := by
  intro name ad' hlookup
  by_cases hname : name = ad.metadata.name
  · subst hname
    rw [DeployStore.lookup_put] at hlookup
    exact Option.some.inj hlookup ▸ had
  · rw [DeployStore.lookup_put_ne st hname] at hlookup
    exact h name ad' hlookup

/-- Nobody but the controller writes a status: a create drops it, an update keeps the one that is there. -/
theorem countedStore_step {r : Pods.Reconciler} {st st' : DeployStore} {e : StoreEvent} (h : CountedStore st)
    (he : e.relisted = true) (hstep : storeStep r st e = some st') : CountedStore st' := by
  cases e with
  | create ad =>
    rw [storeStep, DeployStore.create] at hstep
    cases hl : st.objects.lookup ad.metadata.name with
    | some old => simp [hl, Except.toOption] at hstep
    | none =>
      simp only [hl, Except.toOption, Option.some.injEq] at hstep
      subst hstep
      exact h.put fun hphase => by cases hphase
  | update ad =>
    rw [storeStep, DeployStore.update] at hstep
    cases hl : st.objects.lookup ad.metadata.name with
    | none => simp [hl, Except.toOption] at hstep
    | some old =>
      simp only [hl, Except.toOption, Option.some.injEq] at hstep
      subst hstep
      exact h.put (h _ old hl)
  | delete name =>
    rw [storeStep, DeployStore.delete] at hstep
    cases hl : st.objects.lookup name with
    | none => simp [hl, Except.toOption] at hstep
    | some old =>
      simp only [hl, Except.toOption, Option.some.injEq] at hstep
      subst hstep
      intro name' ad hlookup
      by_cases hname : name' = name
      · subst hname
        simp at hlookup
      · rw [AList.lookup_erase_ne hname] at hlookup
        exact h name' ad hlookup
  | pass name inp pods =>
    obtain ⟨ad, hl, rfl⟩ := Option.map_eq_some_iff.mp hstep
    split_ifs
    · exact h.put (counted_patched pods (h name ad hl) (Option.isNone_iff_eq_none.mp he))
    · exact h

def readyPod : Pods.PodStore :=
  Pods.PodStore.empty.create { name := "mesh-planner-0-x", replica := "0", conditions := [⟨"Ready", .true⟩] }

/-- The child is created, and its controller finds its pod ready. -/
def createdAndReady : List StoreEvent :=
  [.create (soloChild {}), .pass "mesh-planner" (Pods.Controller.inputAt 0) readyPod]

theorem phase_patched (r : Pods.Reconciler) (inp : Pods.Controller.Input) (ad : AgentDeploy) (pods : Pods.PodStore)
    (h : ad.metadata.deletionTimestamp = zeroTime) :
    (Pods.Controller.patched ad (Pods.Controller.reconcileRequest r inp (.ok ad) pods).patch).status.phase =
      (Pods.Controller.reconcile r inp ad pods).1.phase := by
  rw [Pods.Controller.reconcileRequest, if_neg (not_not_intro h)]
  dsimp only [Pods.Controller.persist]
  split_ifs with heq
  · exact congrArg AgentDeployStatus.phase heq
  · rfl

theorem patched_soloChild (patch : Option AgentDeployStatus) :
    Pods.Controller.patched (soloChild {}) patch = soloChild (Pods.Controller.patched (soloChild {}) patch).status := by
  cases patch <;> rfl

theorem run_createdAndReady : ∃ status : AgentDeployStatus, status.phase = .running ∧
    run (storeStep Pods.imageReconciler) DeployStore.empty createdAndReady =
      some ((DeployStore.empty.put (soloChild {})).put (soloChild status)) := by
  refine ⟨_, (phase_patched Pods.imageReconciler (Pods.Controller.inputAt 0) (soloChild {}) readyPod rfl).trans rfl, ?_⟩
  rw [← patched_soloChild]
  rfl

end KynoMesh.Agentset
