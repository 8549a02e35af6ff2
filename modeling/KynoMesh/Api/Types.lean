import KynoMesh.Api.Template
import KynoMesh.Lib.GoStd

/-!
# The API types

`AgentDeploy` and `AgentSet` with their specs and statuses (`agentdeploy_types.go`, `agentset_types.go`, `scale.go`,
`update_strategy.go`, `driftreload.go`, `ratelimit.go`, `status_types.go`), the autoscaling defaults and annotation
keys of `const.go`, the names of the Services, and the topology an agent is given (`topology.go`).
-/

namespace KynoMesh.Api

open KynoMesh.Lib

/-! ## Constants -/

def keyHash : String := "kynomesh.kyno.sh/hash"
def keyAgentSetName : String := "kynomesh.kyno.sh/agentset-name"
def keyAgentDeployName : String := "kynomesh.kyno.sh/agentdeploy-name"
def keyAppName : String := "app.kubernetes.io/name"
def keyComponent : String := "app.kubernetes.io/component"
def keyPartOf : String := "app.kubernetes.io/part-of"
def keyManagedBy : String := "app.kubernetes.io/managed-by"
def componentAgent : String := "agent"
def project : String := "kynomesh"
def controllerAgentSet : String := "agentset-controller"
def controllerAgentDeploy : String := "agentdeploy-controller"

def defaultMinReplicas : Int32 := 1
def defaultMaxReplicas : Int32 := 50
def defaultScaleUpCooldownSeconds : UInt32 := 90
def defaultScaleDownCooldownSeconds : UInt32 := 90
def defaultReplicasPerScaleUp : UInt32 := 2
def defaultReplicasPerScaleDown : UInt32 := 2
def defaultTargetSaturationPercentage : UInt32 := 80

/-! ## Policies -/

structure Scale where
  disabled : Bool := false
  min : Option Int32 := none
  max : Option Int32 := none
  targetSaturationPercentage : Option UInt32 := none
  scaleUpCooldownSeconds : Option UInt32 := none
  scaleDownCooldownSeconds : Option UInt32 := none
  replicasPerScaleUp : Option UInt32 := none
  replicasPerScaleDown : Option UInt32 := none
  deriving DecidableEq

/-- `intstr.IntOrString`. -/
inductive IntOrString where
  | int (v : Int32)
  | str (s : String)
  deriving DecidableEq

structure RollingUpdateStrategy where
  maxUnavailable : Option IntOrString := none
  deriving DecidableEq

def RollingUpdateStrategy.getMaxUnavailable (rus : RollingUpdateStrategy) : IntOrString :=
  rus.maxUnavailable.getD (.str "25%")

structure UpdateStrategy where
  type : String := ""
  rollingUpdate : Option RollingUpdateStrategy := none
  deriving DecidableEq

def UpdateStrategy.getRollingUpdateStrategy (us : UpdateStrategy) : RollingUpdateStrategy :=
  us.rollingUpdate.getD {}

structure DriftReload where
  enabled : Option Bool := none
  deriving DecidableEq

/-- `(*DriftReload).IsEnabled`: a missing block or flag means off. -/
def driftReloadIsEnabled (d : Option DriftReload) : Bool := (d.bind DriftReload.enabled).getD false

structure RateLimit where
  maxInFlight : Option Int32 := none
  deriving DecidableEq

/-! ## Metadata and status -/

structure OwnerReference where
  apiVersion : String
  kind : String
  name : String
  uid : String := ""
  controller : Option Bool := none
  blockOwnerDeletion : Option Bool := none
  deriving DecidableEq

structure ObjectMeta where
  nspace : String
  name : String
  uid : String := ""
  generation : Int64 := 0
  labels : Dict String String := ∅
  annotations : Dict String String := ∅
  ownerReferences : List OwnerReference := []
  deletionTimestamp : Int := zeroTime
  deriving DecidableEq

/-- `metav1.NewControllerRef` for an owner of this API group. -/
def newControllerRef (owner : ObjectMeta) (kind : String) : OwnerReference where
  apiVersion := "kynomesh.kyno.sh/v1alpha1"
  kind := kind
  name := owner.name
  uid := owner.uid
  controller := some true
  blockOwnerDeletion := some true

/-- The value of a map at a key, the empty string when absent. -/
def strAt (m : Dict String String) (k : String) : String := (m.lookup k).getD ""

inductive ConditionStatus where
  | true
  | false
  | unknown
  deriving DecidableEq

structure Condition where
  type : String
  status : ConditionStatus
  reason : String := ""
  message : String := ""
  lastTransitionTime : Int := zeroTime
  observedGeneration : Int64 := 0
  deriving DecidableEq

/-- `Status.setCondition` at time `now`: an entry equal up to its transition time is left alone, any other change
restamps it and sorts the list by type. -/
def setCondition (now : Int) (conditions : List Condition) (condition : Condition) : List Condition :=
  let same (c : Condition) : Bool :=
    c.type == condition.type && c == { condition with lastTransitionTime := c.lastTransitionTime }
  let others := conditions.filter fun (c : Condition) => c.type != condition.type
  if conditions.any same then conditions
  else (others ++ [{ condition with lastTransitionTime := now }]).mergeSort fun a b => decide (a.type ≤ b.type)

inductive AgentDeployPhase where
  | unknown
  | running
  | failed
  deriving DecidableEq

structure AgentDeployStatus where
  conditions : List Condition := []
  phase : AgentDeployPhase := .unknown
  replicas : UInt32 := 0
  desiredReplicas : UInt32 := 0
  selector : String := ""
  reason : String := ""
  message : String := ""
  lastScaledAt : Int := zeroTime
  observedGeneration : Int64 := 0
  readyReplicas : UInt32 := 0
  updatedReplicas : UInt32 := 0
  updatedReadyReplicas : UInt32 := 0
  currentHash : String := ""
  updateHash : String := ""
  deriving DecidableEq

/-! ## Topology -/

inductive AgentPattern where
  | supervisor
  | handoff
  | sequential
  | other (name : String)
  deriving DecidableEq

def AgentPattern.text : AgentPattern → String
  | .supervisor => "Supervisor"
  | .handoff => "Handoff"
  | .sequential => "Sequential"
  | .other name => name

inductive PeerKind where
  | managed
  | external
  deriving DecidableEq

structure Peer where
  name : String
  kind : PeerKind
  url : String := ""
  deriving DecidableEq

structure Topology where
  pattern : AgentPattern := .other ""
  isEntry : Bool := false
  peers : List Peer := []
  deriving DecidableEq

/-! ## AgentDeploy and AgentSet -/

structure AbstractAgentDeploy where
  name : String
  podTemplate : AbstractPodTemplate := {}
  container : Option Container := none
  initContainer : Option ContainerTemplate := none
  brokerContainer : Option ContainerTemplate := none
  volumes : List Volume := []
  scale : Scale := {}
  rateLimit : Option RateLimit := none
  initContainers : List CoreContainer := []
  sidecars : List CoreContainer := []
  updateStrategy : UpdateStrategy := {}
  publicBaseURL : String := ""
  driftReload : Option DriftReload := none
  deriving DecidableEq

structure AgentDeploySpec where
  agent : AbstractAgentDeploy
  agentSetName : String
  replicas : Option Int32 := none
  topology : Topology := {}
  deriving DecidableEq

structure AgentDeploy where
  metadata : ObjectMeta
  spec : AgentDeploySpec
  status : AgentDeployStatus := {}
  deriving DecidableEq

structure AgentDeployTemplate where
  podTemplate : AbstractPodTemplate := {}
  initContainer : Option ContainerTemplate := none
  brokerContainer : Option ContainerTemplate := none
  deriving DecidableEq

structure ExternalAgentRef where
  name : String
  url : String
  deriving DecidableEq

structure AgentSetSpec where
  pattern : AgentPattern
  entry : String
  agents : List AbstractAgentDeploy
  agentDeployTemplate : Option AgentDeployTemplate := none
  externalAgents : List ExternalAgentRef := []
  driftReload : Option DriftReload := none
  deriving DecidableEq

structure AgentSet where
  metadata : ObjectMeta
  spec : AgentSetSpec
  deriving DecidableEq

/-- `AgentSet.ChildAgentDeployName`. -/
def AgentSet.childAgentDeployName (as : AgentSet) (agentName : String) : String :=
  as.metadata.name ++ "-" ++ agentName

/-! ## Services -/

def entryServiceSuffix : String := "ingress"
def daemonSuffix : String := "daemon"

def AgentSet.entryServiceName (as : AgentSet) : String := as.metadata.name ++ "-" ++ entryServiceSuffix

/-- The name of the daemon's Deployment and Service. -/
def AgentSet.daemonName (as : AgentSet) : String := as.metadata.name ++ "-" ++ daemonSuffix

def AgentDeploy.headlessServiceName (ad : AgentDeploy) : String := ad.metadata.name ++ "-headless"

/-- The name of the ClusterIP Service. -/
def AgentDeploy.serviceName (ad : AgentDeploy) : String := ad.metadata.name

/-! ## Copies for the processes of the mesh -/

/-- `AgentDeploy.SimpleCopy`, which the broker is given: without what only the controller reads. -/
def AgentDeploy.simpleCopy (ad : AgentDeploy) : AgentDeploy where
  metadata := { nspace := ad.metadata.nspace, name := ad.metadata.name }
  spec :=
    { ad.spec with
      agent :=
        { ad.spec.agent with
          scale := {}, driftReload := none, sidecars := [], initContainers := [], volumes := [], updateStrategy := {} }
      replicas := none }

/-- `AgentSet.SimpleCopy`, which the daemon is given: of the agents, the names alone. -/
def AgentSet.simpleCopy (as : AgentSet) : AgentSet where
  metadata := { nspace := as.metadata.nspace, name := as.metadata.name }
  spec :=
    { pattern := as.spec.pattern
      entry := as.spec.entry
      agents := as.spec.agents.map fun a => { name := a.name }
      externalAgents := as.spec.externalAgents }

/-! ## Topology of an agent -/

/-- Every managed agent except `self`, then every external agent. -/
def peersExcluding (agents : List AbstractAgentDeploy) (externalAgents : List ExternalAgentRef) (self : String) :
    List Peer :=
  (agents.filter fun a => a.name != self).map (fun a => { name := a.name, kind := .managed }) ++
    externalAgents.map fun e => { name := e.name, kind := .external, url := e.url }

/-- The peer right after `self` in declaration order; after the last managed agent, the first external one. -/
def nextAgent : List AbstractAgentDeploy → List ExternalAgentRef → String → Option Peer
  | [], _, _ => none
  | a :: rest, externalAgents, self =>
    if a.name ≠ self then nextAgent rest externalAgents self
    else
      match rest, externalAgents with
      | b :: _, _ => some { name := b.name, kind := .managed }
      | [], e :: _ => some { name := e.name, kind := .external, url := e.url }
      | [], [] => none

/-- `ComputeTopology`. -/
def computeTopology (as : AgentSet) (agentName : String) : Topology :=
  let isEntry := agentName == as.spec.entry
  { pattern := as.spec.pattern
    isEntry := isEntry
    peers :=
      match as.spec.pattern with
      | .handoff => peersExcluding as.spec.agents as.spec.externalAgents agentName
      | .supervisor => if isEntry then peersExcluding as.spec.agents as.spec.externalAgents agentName else []
      | .sequential => (nextAgent as.spec.agents as.spec.externalAgents agentName).toList
      | .other _ => [] }

end KynoMesh.Api
