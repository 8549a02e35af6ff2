import KynoMesh.Agentset.Children
import KynoMesh.Lib.Keyed
import KynoMesh.Pods.PodSpec

/-!
# The containers of a pod, from the templates on

The broker and the runtime init container have a template at the agent and one at the AgentSet. `newAgentDeploy` merges
the two, and `buildPodSpec` applies the result, the defaults of the controller and the common environment.

* `Builtin` : the two containers, with their templates and their own environment; `template_newAgentDeploy` : the
  templates after the merge;
* `containers_buildPodSpec`, `initContainers_buildPodSpec` : the containers of a pod, one by one;
* `Survives`, `resources_survive_iff` : when the configured resources are in the built container;
* `effective`, `KeepsEnv`, `env_precedence` : what an environment variable is in each container.
-/

namespace KynoMesh.Pods
open KynoMesh.Lib KynoMesh.Api KynoMesh.Agentset

/-! ## The containers of the controller's image -/

/-- A container that the controller makes from its own image. -/
inductive Builtin where
  | broker
  | initRuntime
  deriving DecidableEq

namespace Builtin

/-- The agent's template for the container. -/
def template (which : Builtin) (agent : AbstractAgentDeploy) : ContainerTemplate :=
  match which with
  | .broker => agent.brokerContainer.getD {}
  | .initRuntime => agent.initContainer.getD {}

/-- The AgentSet's template for the container. -/
def setTemplate (which : Builtin) (as : AgentSet) : ContainerTemplate :=
  match as.spec.agentDeployTemplate with
  | none => {}
  | some tmpl =>
    match which with
    | .broker => tmpl.brokerContainer.getD {}
    | .initRuntime => tmpl.initContainer.getD {}

/-- The variables that the container has without any template. -/
def env (which : Builtin) (cfg : Settings) (ad : AgentDeploy) : List EnvVar :=
  match which with
  | .broker =>
    [{ name := envAgentDeployObject, value := cfg.encodeAgentDeploy ad },
      { name := envTerminationGraceSeconds
        value := itoa (ad.spec.agent.podTemplate.terminationGracePeriodSeconds.getD
          defaultTerminationGracePeriodSeconds).toInt }]
  | .initRuntime => [{ name := envAgentDeployObject, value := cfg.encodeAgentDeploy ad }]

/-- The container in a pod spec. -/
def container (which : Builtin) (ps : PodSpec) : Option CoreContainer :=
  match which with
  | .broker => ps.containers.head?
  | .initRuntime => ps.initContainers.head?

end Builtin

section
variable {r : SetReconciler} {cfg : Settings} {as : AgentSet} {agent : AbstractAgentDeploy} {ad : AgentDeploy}

theorem applyDefaultsFrom_empty (ct : ContainerTemplate) : ct.applyDefaultsFrom {} = ct := by
  have hpolicy : stringOr ct.imagePullPolicy "" = ct.imagePullPolicy := by
    unfold stringOr
    split_ifs with h
    · exact h.symm
    · rfl
  have henvFrom : listOr ct.envFrom [] = ct.envFrom := by
    unfold listOr
    split_ifs with h
    · exact (List.isEmpty_iff.mp h).symm
    · rfl
  have hcontext : (ct.securityContext <|> none) = ct.securityContext := by cases ct.securityContext <;> rfl
  unfold ContainerTemplate.applyDefaultsFrom
  rw [hpolicy, henvFrom, hcontext]
  rfl

/-- The spec of a child is the agent's with the AgentSet's template, up to the drift policy. -/
theorem agent_newAgentDeploy (h : newAgentDeploy r as agent = .ok ad) :
    ∃ driftReload, ad.spec.agent =
      { as.spec.agentDeployTemplate.elim agent (applyTemplate agent) with driftReload := driftReload } := by
  have hdrift : ∀ (agent : AbstractAgentDeploy) (setDefault : Option DriftReload),
      ∃ driftReload, applyDriftReloadDefault agent setDefault = { agent with driftReload := driftReload } := by
    intro agent setDefault
    unfold applyDriftReloadDefault
    split
    · exact ⟨_, rfl⟩
    · split_ifs
      · exact ⟨_, rfl⟩
      · exact ⟨agent.driftReload, rfl⟩
    · exact ⟨agent.driftReload, rfl⟩
  obtain ⟨ref, -, hok⟩ := bind_eq_ok.mp h
  rw [pure_eq_ok] at hok
  subst hok
  dsimp only
  cases as.spec.agentDeployTemplate with
  | none => exact hdrift agent _
  | some tmpl => exact hdrift (applyTemplate agent tmpl) _

/-- The template of a child is the agent's, with what only the AgentSet's has. -/
theorem template_newAgentDeploy (h : newAgentDeploy r as agent = .ok ad) (which : Builtin) :
    which.template ad.spec.agent = (which.template agent).applyDefaultsFrom (which.setTemplate as) := by
  obtain ⟨driftReload, hagent⟩ := agent_newAgentDeploy h
  rw [hagent]
  unfold Builtin.setTemplate
  cases as.spec.agentDeployTemplate with
  | none =>
    rw [applyDefaultsFrom_empty]
    cases which <;> rfl
  | some tmpl =>
    cases which with
    | broker =>
      unfold Builtin.template applyTemplate
      dsimp only [Option.elim]
      cases tmpl.brokerContainer with
      | none => exact (applyDefaultsFrom_empty _).symm
      | some t => rfl
    | initRuntime =>
      unfold Builtin.template applyTemplate
      dsimp only [Option.elim]
      cases tmpl.initContainer with
      | none => exact (applyDefaultsFrom_empty _).symm
      | some t => rfl

theorem users_newAgentDeploy (h : newAgentDeploy r as agent = .ok ad) :
    ad.spec.agent.sidecars = agent.sidecars ∧ ad.spec.agent.initContainers = agent.initContainers ∧
      ad.spec.agent.container = agent.container := by
  obtain ⟨driftReload, hagent⟩ := agent_newAgentDeploy h
  rw [hagent]
  cases as.spec.agentDeployTemplate with
  | none => exact ⟨rfl, rfl, rfl⟩
  | some tmpl => exact ⟨rfl, rfl, rfl⟩

/-! ## The containers of a pod -/

def withCommonEnv (ad : AgentDeploy) (c : CoreContainer) : CoreContainer :=
  { c with env := mergeEnv c.env (commonEnv ad) }

def withRunVolMount (c : CoreContainer) : CoreContainer :=
  { c with volumeMounts := appendMountIfAbsent c.volumeMounts kynomeshRunMount }

theorem containers_buildPodSpec (cfg : Settings) (ad : AgentDeploy) :
    (cfg.buildPodSpec ad).containers =
      withRunVolMount (withCommonEnv ad (cfg.newBrokerContainer (cfg.encodeAgentDeploy ad) ad.spec.agent.brokerContainer
        (ad.spec.agent.podTemplate.terminationGracePeriodSeconds.getD defaultTerminationGracePeriodSeconds))) ::
      ad.spec.agent.sidecars.map (withCommonEnv ad) := rfl

theorem modify_length_concat {α : Type} (f : α → α) (l : List α) (a : α) :
    (l ++ [a]).modify l.length f = l ++ [f a] := by
  induction l with
  | nil => rfl
  | cons b l ih =>
    rw [List.cons_append, List.length_cons, List.modify_succ_cons, ih]
    rfl

theorem initContainers_buildPodSpec (cfg : Settings) (ad : AgentDeploy) :
    (cfg.buildPodSpec ad).initContainers =
      withRunVolMount (withCommonEnv ad
        (cfg.newInitRuntimeContainer (cfg.encodeAgentDeploy ad) ad.spec.agent.initContainer)) ::
      (ad.spec.agent.initContainers.map (withCommonEnv ad) ++
        [withRunVolMount (withCommonEnv ad (newAgentContainer ad))]) := by
  -- the mounts go to the first container and to the last one
  have hends : ∀ (first last : CoreContainer) (users : List CoreContainer),
      ((first :: (users ++ [last])).modify 0 withRunVolMount).modify ((first :: (users ++ [last])).length - 1)
          withRunVolMount =
        withRunVolMount first :: (users ++ [withRunVolMount last]) := by
    intro first last users
    have hlen : (first :: (users ++ [last])).length - 1 = users.length + 1 := by simp
    rw [hlen, List.modify_zero_cons, List.modify_succ_cons, modify_length_concat]
  have happly : applyCommonEnv ad (cfg.newInitRuntimeContainer (cfg.encodeAgentDeploy ad) ad.spec.agent.initContainer ::
      ad.spec.agent.initContainers ++ [newAgentContainer ad]) =
      withCommonEnv ad (cfg.newInitRuntimeContainer (cfg.encodeAgentDeploy ad) ad.spec.agent.initContainer) ::
        (ad.spec.agent.initContainers.map (withCommonEnv ad) ++ [withCommonEnv ad (newAgentContainer ad)]) := by
    unfold applyCommonEnv
    rw [List.cons_append, List.map_cons, List.map_append]
    rfl
  rw [← hends, ← happly]
  rfl

/-! ## The template of a container -/

/-- Some request or limit is set. -/
def Sized (q : ResourceRequirements) : Prop := q.requests.entries ≠ [] ∨ q.limits.entries ≠ []

instance (q : ResourceRequirements) : Decidable (Sized q) := inferInstanceAs (Decidable (_ ∨ _))

theorem mergeResourceList_empty (override : Dict String Raw) : mergeResourceList ∅ override = override := by
  unfold mergeResourceList
  split_ifs with h
  · exact (AList.ext (List.isEmpty_iff.mp h)).symm
  · exact AList.union_empty

theorem mergeResourceClaims_eq (own other : List ResourceClaim) :
    mergeResourceClaims own other = fill ResourceClaim.name own other := by
  unfold mergeResourceClaims
  split_ifs with h
  · rw [List.isEmpty_iff.mp h, fill, List.filter_nil, List.append_nil]
  · rfl

theorem applyToContainer_resources (t : ContainerTemplate) {c : CoreContainer} (hc : c.resources = {}) :
    (t.applyToContainer c).resources = t.resources := by
  have hclaims : mergeResourceClaims [] t.resources.claims = t.resources.claims := by
    rw [mergeResourceClaims_eq, fill, List.nil_append]
    exact List.filter_eq_self.mpr fun _ _ => rfl
  unfold ContainerTemplate.applyToContainer
  dsimp only
  rw [hc, mergeResourceList_empty, mergeResourceList_empty, hclaims]

theorem finish_resources (cfg : Settings) (tmpl : Option ContainerTemplate) {c : CoreContainer} (hc : c.resources = {}) :
    (cfg.finish tmpl c).resources =
      if Sized (tmpl.getD {}).resources then (tmpl.getD {}).resources else cfg.defaultResources := by
  have htaken : (tmpl.elim c fun t => t.applyToContainer c).resources = (tmpl.getD {}).resources := by
    cases tmpl with
    | none => exact hc
    | some t => exact applyToContainer_resources t hc
  unfold Settings.finish applyDefaultResourcesIfMissing
  rw [htaken, apply_ite CoreContainer.resources, htaken]
  refine if_congr ?_ rfl rfl
  simp [Sized, List.isEmpty_eq_false_iff]

theorem finish_env (cfg : Settings) (tmpl : Option ContainerTemplate) (c : CoreContainer) :
    (cfg.finish tmpl c).env = c.env ++ (tmpl.getD {}).env := by
  have htaken : (tmpl.elim c fun t => t.applyToContainer c).env = c.env ++ (tmpl.getD {}).env := by
    cases tmpl with
    | none => exact (List.append_nil c.env).symm
    | some t => rfl
  unfold Settings.finish applyDefaultResourcesIfMissing
  rw [apply_ite CoreContainer.env, htaken, ite_self]

theorem container_buildPodSpec (cfg : Settings) (ad : AgentDeploy) (which : Builtin) :
    ∃ c, which.container (cfg.buildPodSpec ad) = some c ∧
      c.resources = (if Sized (which.template ad.spec.agent).resources then (which.template ad.spec.agent).resources
        else cfg.defaultResources) ∧
      c.env = mergeEnv (which.env cfg ad ++ (which.template ad.spec.agent).env) (commonEnv ad) := by
  cases which with
  | broker =>
    refine ⟨_, (congrArg List.head? (containers_buildPodSpec cfg ad)).trans List.head?_cons, ?_, ?_⟩
    · exact finish_resources cfg _ rfl
    · exact congrArg (mergeEnv · (commonEnv ad)) (finish_env cfg _ _)
  | initRuntime =>
    refine ⟨_, (congrArg List.head? (initContainers_buildPodSpec cfg ad)).trans List.head?_cons, ?_, ?_⟩
    · exact finish_resources cfg _ rfl
    · exact congrArg (mergeEnv · (commonEnv ad)) (finish_env cfg _ _)

/-! ## Resources -/

/-- The entry that counts of the claims of two levels: the agent's, where it has one of the name. -/
def Wins (own shared : ResourceRequirements) (c : ResourceClaim) : Prop :=
  c ∈ own.claims ∨ c ∈ shared.claims ∧ ∀ o ∈ own.claims, o.name ≠ c.name

/-- The claim is named at one of the levels. -/
def Named (own shared : ResourceRequirements) (name : String) : Prop :=
  ∃ o, (o ∈ own.claims ∨ o ∈ shared.claims) ∧ o.name = name

/-- The resources of a built container are those of the agent's template `own` and the AgentSet's template `shared`: each
request and limit with the agent's value first, or the controller's `defaults` if there is none at all, and each claim. -/
structure Survives (own shared defaults built : ResourceRequirements) : Prop where
  requests : Sized own ∨ Sized shared → ∀ key,
    built.requests.lookup key = (own.requests.lookup key).or (shared.requests.lookup key)
  limits : Sized own ∨ Sized shared → ∀ key,
    built.limits.lookup key = (own.limits.lookup key).or (shared.limits.lookup key)
  defaults : ¬(Sized own ∨ Sized shared) → built.requests = defaults.requests ∧ built.limits = defaults.limits
  claims : ∀ c : ResourceClaim, Named own shared c.name → (c ∈ built.claims ↔ Wins own shared c)

theorem lookup_mergeResourceDefaults (own defaults : Dict String Raw) (key : String) :
    (mergeResourceDefaults own defaults).lookup key = (own.lookup key).or (defaults.lookup key) := by
  unfold mergeResourceDefaults
  split_ifs with h
  · rw [entries_eq_nil_iff.mp (List.isEmpty_iff.mp h), Option.or_none]
  · exact lookup_union own defaults key

theorem entries_mergeResourceDefaults_eq_nil {own defaults : Dict String Raw} :
    (mergeResourceDefaults own defaults).entries = [] ↔ own.entries = [] ∧ defaults.entries = [] := by
  simp only [entries_eq_nil_iff, lookup_mergeResourceDefaults, Option.or_eq_none_iff, forall_and]

theorem sized_applyDefaultsFrom (ct other : ContainerTemplate) :
    Sized (ct.applyDefaultsFrom other).resources ↔ Sized ct.resources ∨ Sized other.resources := by
  simp only [Sized, ContainerTemplate.applyDefaultsFrom, ne_eq, entries_mergeResourceDefaults_eq_nil]
  tauto

/-- **When configured resources survive**: some request or limit is set at one of the two levels, or the defaults of the
controller happen to have the claims. -/
theorem resources_survive_iff (r : SetReconciler) (cfg : Settings) (as : AgentSet) (agent : AbstractAgentDeploy)
    (ad : AgentDeploy) (h : newAgentDeploy r as agent = .ok ad) (which : Builtin) :
    ∃ c, which.container (cfg.buildPodSpec ad) = some c ∧
      (Survives (which.template agent).resources (which.setTemplate as).resources cfg.defaultResources c.resources ↔
        (Sized (which.template agent).resources ∨ Sized (which.setTemplate as).resources) ∨
          ∀ claim : ResourceClaim, Named (which.template agent).resources (which.setTemplate as).resources claim.name →
            (claim ∈ cfg.defaultResources.claims ↔
              Wins (which.template agent).resources (which.setTemplate as).resources claim)) := by
  obtain ⟨c, hc, hres, -⟩ := container_buildPodSpec cfg ad which
  rw [template_newAgentDeploy h] at hres
  refine ⟨c, hc, ?_⟩
  by_cases hsized : Sized (which.template agent).resources ∨ Sized (which.setTemplate as).resources
  · rw [if_pos ((sized_applyDefaultsFrom _ _).mpr hsized)] at hres
    rw [hres]
    refine iff_of_true ⟨fun _ => lookup_mergeResourceDefaults _ _, fun _ => lookup_mergeResourceDefaults _ _,
      fun hnot => absurd hsized hnot, fun claim _ => ?_⟩ (.inl hsized)
    unfold ContainerTemplate.applyDefaultsFrom
    rw [mergeResourceClaims_eq]
    exact mem_fill
  · rw [if_neg ((sized_applyDefaultsFrom _ _).not.mpr hsized)] at hres
    rw [hres]
    constructor
    · exact fun hsurvives => .inr hsurvives.claims
    · intro hcond
      exact ⟨fun hs => absurd hs hsized, fun hs => absurd hs hsized, fun _ => ⟨rfl, rfl⟩, hcond.resolve_left hsized⟩

end

/-- The resources that the controller has without a configuration of its own. -/
def standardSettings : Settings :=
  { plainSettings with
    defaultResources := { requests := ((∅ : Dict String Raw).insert "memory" "128Mi").insert "cpu" "100m" } }

/-- The broker of `planner` has a claim. -/
def gpuAgent : AbstractAgentDeploy :=
  { name := "planner", brokerContainer := some { resources := { claims := [{ name := "gpu" }] } } }

/-- The AgentSet of `planner`, with these limits for the brokers. -/
def gpuSet (limits : Dict String Raw) : AgentSet where
  metadata := { nspace := "default", name := "mesh" }
  spec :=
    { pattern := .supervisor
      entry := "planner"
      agents := [gpuAgent]
      agentDeployTemplate := some { brokerContainer := some { resources := { limits := limits } } } }

theorem resources_survive_limit :
    ∃ ad c, newAgentDeploy { mustHash := fun _ => "" } (gpuSet ((∅ : Dict String Raw).insert "memory" "1Gi")) gpuAgent =
        .ok ad ∧
      Builtin.broker.container (standardSettings.buildPodSpec ad) = some c ∧
      Survives { claims := [{ name := "gpu" }] } { limits := (∅ : Dict String Raw).insert "memory" "1Gi" }
        standardSettings.defaultResources c.resources := by
  obtain ⟨c, hc, hiff⟩ := resources_survive_iff { mustHash := fun _ => "" } standardSettings
    (gpuSet ((∅ : Dict String Raw).insert "memory" "1Gi")) gpuAgent _ rfl .broker
  exact ⟨_, c, rfl, hc, hiff.mpr (.inl (.inr (by decide)))⟩

/-- A broker with a claim, and no request or limit, loses the claim to the defaults. -/
theorem claim_dropped :
    ∃ ad c, newAgentDeploy { mustHash := fun _ => "" } (gpuSet ∅) gpuAgent = .ok ad ∧
      Builtin.broker.container (standardSettings.buildPodSpec ad) = some c ∧
      c.resources = standardSettings.defaultResources ∧ c.resources.claims = [] ∧
      ¬Survives { claims := [{ name := "gpu" }] } {} standardSettings.defaultResources c.resources := by
  refine ⟨_, _, rfl, rfl, rfl, rfl, fun h => ?_⟩
  have hgpu := (h.claims { name := "gpu" } ⟨_, .inl (List.mem_singleton.mpr rfl), rfl⟩).mpr
    (.inl (List.mem_singleton.mpr rfl))
  cases hgpu

/-! ## Environment -/

/-- The value of a variable, where the last entry wins. -/
def effective (env : List EnvVar) (name : String) : Option EnvVar := latest EnvVar.name env name

/-- The entry is not one of the common variables. -/
def notCommon (ad : AgentDeploy) (e : EnvVar) : Bool := !(commonEnv ad).any fun o => o.name == e.name

/-- A user's environment `user` in the pod: the common variables are the controller's, and the others are as they were,
in their order. -/
structure KeepsEnv (ad : AgentDeploy) (user built : List EnvVar) : Prop where
  common : ∀ o ∈ commonEnv ad, effective built o.name = some o
  others : ∀ name, name ∉ (commonEnv ad).map EnvVar.name → effective built name = effective user name
  order : built.filter (notCommon ad) = user.filter (notCommon ad)

theorem mergeEnvDefaults_eq (own defaults : List EnvVar) :
    mergeEnvDefaults own defaults = fill EnvVar.name own defaults := by
  unfold mergeEnvDefaults
  split_ifs with h
  · rw [List.isEmpty_iff.mp h, fill, List.filter_nil, List.append_nil]
  · rfl

theorem effective_mergeEnv (existing overrides : List EnvVar) (name : String) :
    effective (mergeEnv existing overrides) name = (effective overrides name).or (effective existing name) :=
  latest_overlay EnvVar.name existing overrides name

/-- The common variables have four names. -/
theorem effective_commonEnv (ad : AgentDeploy) {o : EnvVar} (ho : o ∈ commonEnv ad) :
    effective (commonEnv ad) o.name = some o := by
  unfold commonEnv at ho
  simp only [List.mem_cons, List.not_mem_nil, or_false] at ho
  rcases ho with rfl | rfl | rfl | rfl <;> rfl

theorem keepsEnv_mergeEnv (ad : AgentDeploy) (user : List EnvVar) : KeepsEnv ad user (mergeEnv user (commonEnv ad)) where
  common o ho := by rw [effective_mergeEnv, effective_commonEnv ad ho, Option.some_or]
  others name hname := by
    have hnone : effective (commonEnv ad) name = none :=
      latest_eq_none.mpr fun o ho heq => hname (List.mem_map.mpr ⟨o, ho, heq⟩)
    rw [effective_mergeEnv, hnone, Option.none_or]
  order := overlay_filter EnvVar.name user (commonEnv ad)

theorem env_newAgentContainer (ad : AgentDeploy) :
    (newAgentContainer ad).env = (ad.spec.agent.container.map Container.env).getD [] := by
  unfold newAgentContainer
  cases ad.spec.agent.container with
  | none => rfl
  | some src => rfl

/-- The environments in the pod of a child: those of the two built-in containers, and those of the user's. -/
structure EnvPrecedence (cfg : Settings) (as : AgentSet) (agent : AbstractAgentDeploy) (ad : AgentDeploy) : Prop where
  builtin : ∀ which : Builtin, ∃ c, which.container (cfg.buildPodSpec ad) = some c ∧ ∀ name,
    effective c.env name = (effective (commonEnv ad) name).or ((effective (which.template agent).env name).or
      ((effective (which.setTemplate as).env name).or (effective (which.env cfg ad) name)))
  sidecars : ∃ broker sidecars, (cfg.buildPodSpec ad).containers = broker :: sidecars ∧
    List.Forall₂ (fun user built => KeepsEnv ad user.env built.env) agent.sidecars sidecars
  initContainers : ∃ initRuntime users agentContainer,
    (cfg.buildPodSpec ad).initContainers = initRuntime :: (users ++ [agentContainer]) ∧
    List.Forall₂ (fun user built => KeepsEnv ad user.env built.env) agent.initContainers users ∧
    KeepsEnv ad ((agent.container.map Container.env).getD []) agentContainer.env

/-- The common environment keeps every user's container. -/
theorem forall₂_withCommonEnv (ad : AgentDeploy) (cs : List CoreContainer) :
    List.Forall₂ (fun user built => KeepsEnv ad user.env built.env) cs (cs.map (withCommonEnv ad)) := by
  rw [List.forall₂_map_right_iff]
  exact List.forall₂_same.mpr fun c _ => keepsEnv_mergeEnv ad c.env

/-- **The precedence of environment variables**, from the templates to the pod. -/
theorem env_precedence (r : SetReconciler) (cfg : Settings) (as : AgentSet) (agent : AbstractAgentDeploy)
    (ad : AgentDeploy) (h : newAgentDeploy r as agent = .ok ad) : EnvPrecedence cfg as agent ad := by
  obtain ⟨hsidecars, hinits, hagent⟩ := users_newAgentDeploy h
  refine ⟨fun which => ?_, ?_, ?_⟩
  · obtain ⟨c, hc, -, henv⟩ := container_buildPodSpec cfg ad which
    refine ⟨c, hc, fun name => ?_⟩
    have hmerged : effective (which.template ad.spec.agent).env name =
        (effective (which.template agent).env name).or (effective (which.setTemplate as).env name) := by
      rw [template_newAgentDeploy h, ContainerTemplate.applyDefaultsFrom, mergeEnvDefaults_eq]
      exact latest_fill EnvVar.name _ _ name
    have hown : effective (which.env cfg ad ++ (which.template ad.spec.agent).env) name =
        (effective (which.template ad.spec.agent).env name).or (effective (which.env cfg ad) name) :=
      latest_append EnvVar.name _ _ name
    rw [henv, effective_mergeEnv, hown, hmerged, Option.or_assoc]
  · refine ⟨_, _, containers_buildPodSpec cfg ad, ?_⟩
    rw [hsidecars]
    exact forall₂_withCommonEnv ad agent.sidecars
  · refine ⟨_, _, _, initContainers_buildPodSpec cfg ad, ?_, ?_⟩
    · rw [hinits]
      exact forall₂_withCommonEnv ad agent.initContainers
    · rw [← hagent, ← env_newAgentContainer]
      exact keepsEnv_mergeEnv ad (newAgentContainer ad).env

/-- The broker of `planner` has a variable twice, and tries to set its namespace; the AgentSet has other values. -/
def debugAgent : AbstractAgentDeploy :=
  { name := "planner"
    brokerContainer := some
      { env := [⟨"LOG_LEVEL", "info", none⟩, ⟨envNamespace, "other", none⟩, ⟨"LOG_LEVEL", "debug", none⟩] } }

def debugSet : AgentSet where
  metadata := { nspace := "default", name := "mesh" }
  spec :=
    { pattern := .supervisor
      entry := "planner"
      agents := [debugAgent]
      agentDeployTemplate := some
        { brokerContainer := some { env := [⟨"LOG_LEVEL", "warn", none⟩, ⟨"TRACE", "on", none⟩] } } }

theorem env_precedence_debug :
    ∃ ad c, newAgentDeploy { mustHash := fun _ => "" } debugSet debugAgent = .ok ad ∧
      Builtin.broker.container (plainSettings.buildPodSpec ad) = some c ∧
      effective c.env "LOG_LEVEL" = some ⟨"LOG_LEVEL", "debug", none⟩ ∧
      effective c.env "TRACE" = some ⟨"TRACE", "on", none⟩ ∧
      effective c.env envNamespace = some ⟨envNamespace, "", some (.fieldRef "metadata.namespace")⟩ := by
  obtain ⟨c, hc, henv⟩ :=
    (env_precedence { mustHash := fun _ => "" } plainSettings debugSet debugAgent _ rfl).builtin .broker
  exact ⟨_, c, rfl, hc, (henv _).trans (by decide), (henv _).trans (by decide), (henv _).trans (by decide)⟩

end KynoMesh.Pods
