import KynoMesh.Pods.Fleet

/-!
# The pod spec of an AgentDeploy

`buildPodSpec` (`pod_spec.go`) renders the broker, the runtime init container and the agent around the user's sidecars
and init containers. The broker and the init container get the whole AgentDeploy in an environment variable
(`agentdeploy_encoding.go`).

* `Settings` : what the controller renders with: its image, its pull policy, the default resources and the encoders;
* `Settings.reconciler` : the controller whose hash is that of the rendered pod spec;
* `buildPodSpec_stripped` : a pod spec depends on the namespace, the name and the spec without its policies;
* `podSpec_ignores_policy` : so an edit of the policies replaces no pod.
-/

namespace KynoMesh.Pods
open KynoMesh.Lib KynoMesh.Api

/-! ## Constants -/

def envNamespace : String := "NAMESPACE"
def envPodName : String := "POD_NAME"
def envAgentSetName : String := "KYNOMESH_AGENTSET_NAME"
def envAgentDeployName : String := "KYNOMESH_AGENTDEPLOY_NAME"
def envAgentDeployObject : String := "KYNOMESH_AGENTDEPLOY_OBJECT"
def envTerminationGraceSeconds : String := "KYNOMESH_TERMINATION_GRACE_SECONDS"

def containerNameAgent : String := "agent"
def containerNameAgentBroker : String := "broker"
def containerNameInitRuntime : String := "init-runtime"

def agentBrokerPort : Int32 := 8490
def agentBrokerIntrospectionPort : Int32 := 8491
def defaultTerminationGracePeriodSeconds : Int64 := 120

def volumeNameKynomeshRun : String := "kynomesh-run"
def kynomeshRunPath : String := "/var/run/kynomesh"
def brokerGRPCSocketPath : String := kynomeshRunPath ++ "/broker-grpc.sock"
def probeBinaryPath : String := kynomeshRunPath ++ "/bin/kynoprobe"
def kynomeshBinaryPath : String := "/bin/kynomesh"

/-- The timing defaults of one probe. -/
structure ProbeTiming where
  initialDelaySec : Int32
  periodSec : Int32
  timeoutSec : Int32
  failureThreshold : Int32
  successThreshold : Int32

def defaultAgentReadiness : ProbeTiming := ⟨1, 10, 2, 3, 1⟩
def defaultAgentLiveness : ProbeTiming := ⟨30, 15, 3, 6, 1⟩
def defaultAgentStartup : ProbeTiming := ⟨1, 5, 2, 30, 1⟩
def defaultBrokerReadiness : ProbeTiming := ⟨1, 10, 2, 3, 1⟩
def defaultBrokerLiveness : ProbeTiming := ⟨30, 15, 3, 6, 1⟩

/-! ## What every container gets -/

def kynomeshRunVolume : Volume := { name := volumeNameKynomeshRun, source := .emptyDir "Memory" }

def kynomeshRunMount : VolumeMount := { name := volumeNameKynomeshRun, mountPath := kynomeshRunPath }

def appendMountIfAbsent (mounts : List VolumeMount) (m : VolumeMount) : List VolumeMount :=
  if mounts.any fun existing => existing.name == m.name then mounts else mounts ++ [m]

def commonEnv (ad : AgentDeploy) : List EnvVar :=
  [{ name := envNamespace, valueFrom := some (.fieldRef "metadata.namespace") },
    { name := envPodName, valueFrom := some (.fieldRef "metadata.name") },
    { name := envAgentSetName, value := ad.spec.agentSetName },
    { name := envAgentDeployName, value := ad.spec.agent.name }]

/-- `existing` with the entries of `overrides`, in the place of those of the same name. -/
def mergeEnv (existing overrides : List EnvVar) : List EnvVar :=
  let overrideByName := collect EnvVar.name overrides
  existing.map (fun e => (overrideByName.lookup e.name).getD e) ++
    overrides.filter fun o => !existing.any fun e => e.name == o.name

def applyCommonEnv (ad : AgentDeploy) (cs : List CoreContainer) : List CoreContainer :=
  cs.map fun c => { c with env := mergeEnv c.env (commonEnv ad) }

/-- `applyRunVolMount` on the container at `i`. -/
def applyRunVolMount (cs : List CoreContainer) (i : Nat) : List CoreContainer :=
  cs.modify i fun c => { c with volumeMounts := appendMountIfAbsent c.volumeMounts kynomeshRunMount }

/-! ## The containers of the mesh -/

def brokerDrainExec : List String := [kynomeshBinaryPath, "drain"]

def agentProbeExec : List String := [probeBinaryPath, "--mode=grpc", "--socket=" ++ brokerGRPCSocketPath]

/-- A probe of the agent container: its timing is the user's, where set. -/
def agentProbe (timing : ProbeTiming) (spec : Option Probe) : CoreProbe where
  handler := .exec agentProbeExec
  initialDelaySeconds := getProbeInitialDelaySecondsOr spec timing.initialDelaySec
  periodSeconds := getProbePeriodSecondsOr spec timing.periodSec
  timeoutSeconds := getProbeTimeoutSecondsOr spec timing.timeoutSec
  failureThreshold := getProbeFailureThresholdOr spec timing.failureThreshold
  successThreshold := getProbeSuccessThresholdOr spec timing.successThreshold

def agentReadinessProbe : Option Probe → CoreProbe := agentProbe defaultAgentReadiness
def agentLivenessProbe : Option Probe → CoreProbe := agentProbe defaultAgentLiveness
def agentStartupProbe : Option Probe → CoreProbe := agentProbe defaultAgentStartup

def newAgentContainer (ad : AgentDeploy) : CoreContainer :=
  let c : CoreContainer :=
    match ad.spec.agent.container with
    | none => { name := containerNameAgent }
    | some src =>
      { name := containerNameAgent
        image := src.image
        command := src.command
        args := src.args
        env := src.env
        envFrom := src.envFrom
        volumeMounts := src.volumeMounts
        resources := src.resources
        securityContext := src.securityContext
        imagePullPolicy := src.imagePullPolicy.getD ""
        ports := src.ports }
  { c with
    readinessProbe := some (agentReadinessProbe (ad.spec.agent.container.bind Container.readinessProbe))
    livenessProbe := some (agentLivenessProbe (ad.spec.agent.container.bind Container.livenessProbe))
    startupProbe := some (agentStartupProbe (ad.spec.agent.container.bind Container.startupProbe))
    restartPolicy := some "Always" }

/-- A probe of the broker, on its introspection port. -/
def brokerProbe (path : String) (timing : ProbeTiming) : CoreProbe where
  handler := .httpGet path "introspect" "HTTPS"
  initialDelaySeconds := timing.initialDelaySec
  periodSeconds := timing.periodSec
  timeoutSeconds := timing.timeoutSec
  failureThreshold := timing.failureThreshold
  successThreshold := timing.successThreshold

def brokerReadinessProbe : CoreProbe := brokerProbe "/readyz" defaultBrokerReadiness
def brokerLivenessProbe : CoreProbe := brokerProbe "/healthz" defaultBrokerLiveness

/-- What the controller renders pods with. -/
structure Settings where
  image : String
  imagePullPolicy : String
  defaultResources : ResourceRequirements
  /-- `MustJSON` of an AgentDeploy. -/
  mustJSON : AgentDeploy → String
  /-- `base64.StdEncoding.EncodeToString`. -/
  encodeToString : String → String
  /-- `MustHash` of a pod spec. -/
  mustHash : PodSpec → String

namespace Settings
variable (cfg : Settings)

def encodeAgentDeploy (ad : AgentDeploy) : String := cfg.encodeToString (cfg.mustJSON ad.simpleCopy)

/-- A container of the controller's image, with its template and the default resources. -/
def finish (tmpl : Option ContainerTemplate) (c : CoreContainer) : CoreContainer :=
  applyDefaultResourcesIfMissing (tmpl.elim c fun t => t.applyToContainer c) cfg.defaultResources

def newBrokerContainer (encodedAgentDeploy : String) (tmpl : Option ContainerTemplate) (graceSeconds : Int64) :
    CoreContainer :=
  cfg.finish tmpl
    { name := containerNameAgentBroker
      image := cfg.image
      imagePullPolicy := cfg.imagePullPolicy
      args := ["broker"]
      env :=
        [{ name := envAgentDeployObject, value := encodedAgentDeploy },
          { name := envTerminationGraceSeconds, value := itoa graceSeconds.toInt }]
      ports :=
        [{ name := "broker", containerPort := agentBrokerPort, protocol := "TCP" },
          { name := "introspect", containerPort := agentBrokerIntrospectionPort, protocol := "TCP" }]
      readinessProbe := some brokerReadinessProbe
      livenessProbe := some brokerLivenessProbe
      lifecycle := some { preStop := some (.exec brokerDrainExec) } }

def newInitRuntimeContainer (encodedAgentDeploy : String) (tmpl : Option ContainerTemplate) : CoreContainer :=
  cfg.finish tmpl
    { name := containerNameInitRuntime
      image := cfg.image
      imagePullPolicy := cfg.imagePullPolicy
      args := ["init-runtime"]
      env := [{ name := envAgentDeployObject, value := encodedAgentDeploy }] }

def buildPodSpec (ad : AgentDeploy) : PodSpec :=
  let encodedAgentDeploy := cfg.encodeAgentDeploy ad
  let grace :=
    ad.spec.agent.podTemplate.terminationGracePeriodSeconds.getD defaultTerminationGracePeriodSeconds
  let containers :=
    cfg.newBrokerContainer encodedAgentDeploy ad.spec.agent.brokerContainer grace :: ad.spec.agent.sidecars
  let initContainers :=
    cfg.newInitRuntimeContainer encodedAgentDeploy ad.spec.agent.initContainer ::
      ad.spec.agent.initContainers ++ [newAgentContainer ad]
  let ps := ad.spec.agent.podTemplate.applyToPodSpec
    { containers := containers
      initContainers := initContainers
      volumes := kynomeshRunVolume :: ad.spec.agent.volumes
      subdomain := ad.headlessServiceName }
  let containers := applyCommonEnv ad ps.containers
  let initContainers := applyCommonEnv ad ps.initContainers
  { ps with
    terminationGracePeriodSeconds := some (ps.terminationGracePeriodSeconds.getD grace)
    -- the user's own containers, in between, get no mount
    containers := applyRunVolMount containers 0
    initContainers := applyRunVolMount (applyRunVolMount initContainers 0) (initContainers.length - 1) }

/-- The controller whose desired hash is that of the rendered pod spec. -/
def reconciler (scaledValue : ScaledValue) : Reconciler where
  hashPodSpec := fun nspace name spec =>
    cfg.mustHash (cfg.buildPodSpec { metadata := { nspace := nspace, name := name }, spec := spec })
  scaledValue := scaledValue

end Settings

/-! ## What a pod spec depends on -/

/-- A spec without the count and the policies: `replicas`, `scale`, `driftReload` and `updateStrategy`. -/
def withoutPolicy (spec : AgentDeploySpec) : AgentDeploySpec :=
  { spec with
    agent := { spec.agent with scale := {}, driftReload := none, updateStrategy := {} }
    replicas := none }

/-- The AgentDeploy of the same namespace and name, with the spec without its policies. -/
def stripped (ad : AgentDeploy) : AgentDeploy where
  metadata := { nspace := ad.metadata.nspace, name := ad.metadata.name }
  spec := withoutPolicy ad.spec

variable (cfg : Settings)

theorem simpleCopy_stripped (ad : AgentDeploy) : (stripped ad).simpleCopy = ad.simpleCopy := rfl

theorem encodeAgentDeploy_stripped (ad : AgentDeploy) :
    cfg.encodeAgentDeploy (stripped ad) = cfg.encodeAgentDeploy ad := by
  rw [Settings.encodeAgentDeploy, simpleCopy_stripped, Settings.encodeAgentDeploy]

theorem commonEnv_stripped (ad : AgentDeploy) : commonEnv (stripped ad) = commonEnv ad := rfl

theorem newAgentContainer_stripped (ad : AgentDeploy) : newAgentContainer (stripped ad) = newAgentContainer ad := rfl

/-- A pod spec depends on the namespace, the name and the spec without its policies. -/
theorem buildPodSpec_stripped (ad : AgentDeploy) : cfg.buildPodSpec (stripped ad) = cfg.buildPodSpec ad := by
  unfold Settings.buildPodSpec applyCommonEnv
  rw [encodeAgentDeploy_stripped, commonEnv_stripped, newAgentContainer_stripped]
  rfl

theorem podSpecHash_eq (scaledValue : ScaledValue) (ad : AgentDeploy) :
    (cfg.reconciler scaledValue).podSpecHash ad = cfg.mustHash (cfg.buildPodSpec ad) := by
  rw [← buildPodSpec_stripped cfg ad]
  change cfg.mustHash (cfg.buildPodSpec _) = _
  rw [← buildPodSpec_stripped]
  rfl

/-- **Policies.** Two AgentDeploys of one namespace and name whose specs differ in the count and the policies alone have
one pod spec and one hash, so a pass classifies every slot alike for both. -/
theorem podSpec_ignores_policy (ad₁ ad₂ : AgentDeploy) (hnspace : ad₁.metadata.nspace = ad₂.metadata.nspace)
    (hname : ad₁.metadata.name = ad₂.metadata.name) (hspec : withoutPolicy ad₁.spec = withoutPolicy ad₂.spec) :
    cfg.buildPodSpec ad₁ = cfg.buildPodSpec ad₂ ∧
      ∀ scaledValue : ScaledValue,
        (cfg.reconciler scaledValue).podSpecHash ad₁ = (cfg.reconciler scaledValue).podSpecHash ad₂ ∧
        (∀ (api : PodApi) (byReplica : Dict Int (List Pod)) (c : Classified) (i : Nat),
          classifySlot api ((cfg.reconciler scaledValue).podSpecHash ad₁) byReplica c i =
            classifySlot api ((cfg.reconciler scaledValue).podSpecHash ad₂) byReplica c i) ∧
        ∀ (st : PodStore) (n : Nat), (fleet st).needsReplace ((cfg.reconciler scaledValue).podSpecHash ad₁) n =
          (fleet st).needsReplace ((cfg.reconciler scaledValue).podSpecHash ad₂) n := by
  have hstripped : stripped ad₁ = stripped ad₂ := by rw [stripped, stripped, hnspace, hname, hspec]
  have hps : cfg.buildPodSpec ad₁ = cfg.buildPodSpec ad₂ := by
    rw [← buildPodSpec_stripped, hstripped, buildPodSpec_stripped]
  refine ⟨hps, fun scaledValue => ?_⟩
  have hhash : (cfg.reconciler scaledValue).podSpecHash ad₁ = (cfg.reconciler scaledValue).podSpecHash ad₂ := by
    rw [podSpecHash_eq, podSpecHash_eq, hps]
  rw [hhash]
  exact ⟨rfl, fun _ _ _ _ => rfl, fun _ _ => rfl⟩

/-- A controller that hashes the images of a pod. -/
def plainSettings : Settings where
  image := "kynomesh"
  imagePullPolicy := "IfNotPresent"
  defaultResources := {}
  mustJSON := fun ad => ad.spec.agent.name
  encodeToString := fun s => s
  mustHash := fun ps => ",".intercalate ((ps.initContainers ++ ps.containers).map fun c => c.image)

/-- `planner` at some replicas, with a bound for autoscaling. -/
def scaledDeploy (replicas : Int32) (max : Option Int32) : AgentDeploy where
  metadata := { nspace := "default", name := "mesh-planner" }
  spec :=
    { agent := { name := "planner", container := some { image := "a" }, scale := { max := max } }
      agentSetName := "mesh"
      replicas := some replicas }

theorem podSpec_ignores_policy_scaledDeploy :
    (scaledDeploy 1 none).spec.replicas ≠ (scaledDeploy 5 (some 9)).spec.replicas ∧
      plainSettings.buildPodSpec (scaledDeploy 1 none) = plainSettings.buildPodSpec (scaledDeploy 5 (some 9)) :=
  ⟨by decide,
    (podSpec_ignores_policy plainSettings (scaledDeploy 1 none) (scaledDeploy 5 (some 9)) rfl rfl rfl).1⟩

end KynoMesh.Pods
