import KynoMesh.Lib.Dict

/-!
# Container and pod templates

The template types of the API group and their fill-if-unset merges (`container_template.go`, `pod_template.go`,
`probe.go`), with the Kubernetes types that they fill:

* `ContainerTemplate.applyDefaultsFrom`, `AbstractPodTemplate.applyDefaultsFrom` : own values win, field by field;
* `mergeResourceDefaults`, `mergeEnvDefaults`, `mergeResourceClaims`, `mergeMetadataDefaults` : the merges per field;
* `ContainerTemplate.applyToContainer`, `AbstractPodTemplate.applyToPodSpec` : templates applied to what is rendered.
-/

namespace KynoMesh

namespace Api

/-- A Kubernetes value that the controllers only copy: its JSON text. -/
abbrev Raw := String

inductive EnvVarSource where
  | fieldRef (fieldPath : String)
  | other (source : Raw)
  deriving DecidableEq

structure EnvVar where
  name : String
  value : String := ""
  valueFrom : Option EnvVarSource := none
  deriving DecidableEq

structure ResourceClaim where
  name : String
  request : String := ""
  deriving DecidableEq

structure ResourceRequirements where
  requests : Dict String Raw := ∅
  limits : Dict String Raw := ∅
  claims : List ResourceClaim := []
  deriving DecidableEq

structure VolumeMount where
  name : String
  mountPath : String
  /-- The fields that only users set. -/
  rest : Raw := ""
  deriving DecidableEq

inductive VolumeSource where
  | emptyDir (medium : String)
  | other (source : Raw)
  deriving DecidableEq

structure Volume where
  name : String
  source : VolumeSource
  deriving DecidableEq

structure ContainerPort where
  name : String := ""
  hostPort : Int32 := 0
  containerPort : Int32
  protocol : String := ""
  hostIP : String := ""
  deriving DecidableEq

/-- The action of a probe or a lifecycle hook. -/
inductive Handler where
  | exec (command : List String)
  | httpGet (path port scheme : String)
  | other (action : Raw)
  deriving DecidableEq

/-- `corev1.Probe`. -/
structure CoreProbe where
  handler : Handler
  initialDelaySeconds : Int32 := 0
  timeoutSeconds : Int32 := 0
  periodSeconds : Int32 := 0
  successThreshold : Int32 := 0
  failureThreshold : Int32 := 0
  terminationGracePeriodSeconds : Option Int64 := none
  deriving DecidableEq

structure Lifecycle where
  postStart : Option Handler := none
  preStop : Option Handler := none
  stopSignal : Option String := none
  deriving DecidableEq

/-- `corev1.Container`, of which sidecars and init containers are instances. -/
structure CoreContainer where
  name : String
  image : String := ""
  imagePullPolicy : String := ""
  command : List String := []
  args : List String := []
  env : List EnvVar := []
  envFrom : List Raw := []
  ports : List ContainerPort := []
  volumeMounts : List VolumeMount := []
  resources : ResourceRequirements := {}
  securityContext : Option Raw := none
  readinessProbe : Option CoreProbe := none
  livenessProbe : Option CoreProbe := none
  startupProbe : Option CoreProbe := none
  lifecycle : Option Lifecycle := none
  restartPolicy : Option String := none
  /-- The fields that only users set. -/
  rest : Raw := ""
  deriving DecidableEq

structure Probe where
  initialDelaySeconds : Option Int32 := none
  timeoutSeconds : Option Int32 := none
  periodSeconds : Option Int32 := none
  successThreshold : Option Int32 := none
  failureThreshold : Option Int32 := none
  deriving DecidableEq

/-- The user's agent container. -/
structure Container where
  image : String := ""
  command : List String := []
  args : List String := []
  env : List EnvVar := []
  envFrom : List Raw := []
  volumeMounts : List VolumeMount := []
  resources : ResourceRequirements := {}
  securityContext : Option Raw := none
  imagePullPolicy : Option String := none
  readinessProbe : Option Probe := none
  livenessProbe : Option Probe := none
  startupProbe : Option Probe := none
  ports : List ContainerPort := []
  deriving DecidableEq

structure ContainerTemplate where
  resources : ResourceRequirements := {}
  imagePullPolicy : String := ""
  securityContext : Option Raw := none
  env : List EnvVar := []
  envFrom : List Raw := []
  deriving DecidableEq

structure Metadata where
  annotations : Dict String String := ∅
  labels : Dict String String := ∅
  deriving DecidableEq

structure AbstractPodTemplate where
  metadata : Option Metadata := none
  nodeSelector : Dict String String := ∅
  tolerations : List Raw := []
  securityContext : Option Raw := none
  imagePullSecrets : List Raw := []
  priorityClassName : String := ""
  priority : Option Int32 := none
  affinity : Option Raw := none
  serviceAccountName : String := ""
  runtimeClassName : Option String := none
  automountServiceAccountToken : Option Bool := none
  dnsPolicy : String := ""
  dnsConfig : Option Raw := none
  resourceClaims : List Raw := []
  terminationGracePeriodSeconds : Option Int64 := none
  deriving DecidableEq

/-- `corev1.PodSpec`: the fields that the controller or a pod template sets. -/
structure PodSpec where
  containers : List CoreContainer
  initContainers : List CoreContainer
  volumes : List Volume
  subdomain : String := ""
  nodeSelector : Dict String String := ∅
  tolerations : List Raw := []
  securityContext : Option Raw := none
  imagePullSecrets : List Raw := []
  priorityClassName : String := ""
  priority : Option Int32 := none
  affinity : Option Raw := none
  serviceAccountName : String := ""
  runtimeClassName : Option String := none
  automountServiceAccountToken : Option Bool := none
  dnsPolicy : String := ""
  dnsConfig : Option Raw := none
  resourceClaims : List Raw := []
  terminationGracePeriodSeconds : Option Int64 := none
  deriving DecidableEq

/-! ## Fill if unset -/

/-- `own`, unless it is empty. -/
def listOr {α : Type} (own other : List α) : List α := if own.isEmpty then other else own

def stringOr (own other : String) : String := if own = "" then other else own

def dictOr {ν : Type} (own other : Dict String ν) : Dict String ν := if own.entries.isEmpty then other else own

/-- `own` with the keys only present in `defaults` added. -/
def mergeResourceDefaults (own defaults : Dict String Raw) : Dict String Raw :=
  if defaults.entries.isEmpty then own else own ∪ defaults

/-- `own` with the entries of `defaults` appended whose name `own` does not have. -/
def mergeEnvDefaults (own defaults : List EnvVar) : List EnvVar :=
  if defaults.isEmpty then own
  else own ++ defaults.filter fun e => !own.any fun o => o.name == e.name

def mergeResourceClaims (own other : List ResourceClaim) : List ResourceClaim :=
  if other.isEmpty then own
  else own ++ other.filter fun c => !own.any fun o => o.name == c.name

def mergeStringMapDefaults (own defaults : Dict String String) : Dict String String :=
  if defaults.entries.isEmpty then own else own ∪ defaults

def mergeMetadataDefaults (own defaults : Option Metadata) : Option Metadata :=
  match defaults with
  | none => own
  | some d =>
    let o := own.getD {}
    let labels := mergeStringMapDefaults o.labels d.labels
    let annotations := mergeStringMapDefaults o.annotations d.annotations
    if labels.entries.isEmpty && annotations.entries.isEmpty then none
    else some { annotations := annotations, labels := labels }

/-- `ContainerTemplate.ApplyDefaultsFrom`. -/
def ContainerTemplate.applyDefaultsFrom (ct other : ContainerTemplate) : ContainerTemplate where
  resources :=
    { requests := mergeResourceDefaults ct.resources.requests other.resources.requests
      limits := mergeResourceDefaults ct.resources.limits other.resources.limits
      claims := mergeResourceClaims ct.resources.claims other.resources.claims }
  imagePullPolicy := stringOr ct.imagePullPolicy other.imagePullPolicy
  securityContext := ct.securityContext <|> other.securityContext
  env := mergeEnvDefaults ct.env other.env
  envFrom := listOr ct.envFrom other.envFrom

/-- `AbstractPodTemplate.ApplyDefaultsFrom`. -/
def AbstractPodTemplate.applyDefaultsFrom (apt other : AbstractPodTemplate) : AbstractPodTemplate where
  metadata := mergeMetadataDefaults apt.metadata other.metadata
  nodeSelector := dictOr apt.nodeSelector other.nodeSelector
  tolerations := listOr apt.tolerations other.tolerations
  securityContext := apt.securityContext <|> other.securityContext
  imagePullSecrets := listOr apt.imagePullSecrets other.imagePullSecrets
  priorityClassName := stringOr apt.priorityClassName other.priorityClassName
  priority := apt.priority <|> other.priority
  affinity := apt.affinity <|> other.affinity
  serviceAccountName := stringOr apt.serviceAccountName other.serviceAccountName
  runtimeClassName := apt.runtimeClassName <|> other.runtimeClassName
  automountServiceAccountToken := apt.automountServiceAccountToken <|> other.automountServiceAccountToken
  dnsPolicy := stringOr apt.dnsPolicy other.dnsPolicy
  dnsConfig := apt.dnsConfig <|> other.dnsConfig
  resourceClaims := listOr apt.resourceClaims other.resourceClaims
  terminationGracePeriodSeconds := apt.terminationGracePeriodSeconds <|> other.terminationGracePeriodSeconds

/-! ## Containers and pods -/

/-- `base` with the keys of `override`. -/
def mergeResourceList (base override : Dict String Raw) : Dict String Raw :=
  if override.entries.isEmpty then base else override ∪ base

/-- `ContainerTemplate.ApplyToContainer`: the container's own pull policy wins, the template's other fields do. -/
def ContainerTemplate.applyToContainer (ct : ContainerTemplate) (c : CoreContainer) : CoreContainer :=
  { c with
    resources :=
      { requests := mergeResourceList c.resources.requests ct.resources.requests
        limits := mergeResourceList c.resources.limits ct.resources.limits
        claims := mergeResourceClaims c.resources.claims ct.resources.claims }
    securityContext := ct.securityContext
    imagePullPolicy := stringOr c.imagePullPolicy ct.imagePullPolicy
    env := c.env ++ ct.env
    envFrom := c.envFrom ++ ct.envFrom }

def applyDefaultResourcesIfMissing (c : CoreContainer) (defaults : ResourceRequirements) : CoreContainer :=
  if !c.resources.requests.entries.isEmpty || !c.resources.limits.entries.isEmpty then c
  else { c with resources := defaults }

/-- `AbstractPodTemplate.ApplyToPodSpec`: what the pod spec has set wins, field by field. -/
def AbstractPodTemplate.applyToPodSpec (apt : AbstractPodTemplate) (ps : PodSpec) : PodSpec :=
  { ps with
    nodeSelector := dictOr ps.nodeSelector apt.nodeSelector
    tolerations := listOr ps.tolerations apt.tolerations
    securityContext := ps.securityContext <|> apt.securityContext
    imagePullSecrets := listOr ps.imagePullSecrets apt.imagePullSecrets
    priorityClassName := stringOr ps.priorityClassName apt.priorityClassName
    priority := ps.priority <|> apt.priority
    affinity := ps.affinity <|> apt.affinity
    serviceAccountName := stringOr ps.serviceAccountName apt.serviceAccountName
    runtimeClassName := ps.runtimeClassName <|> apt.runtimeClassName
    automountServiceAccountToken := ps.automountServiceAccountToken <|> apt.automountServiceAccountToken
    dnsPolicy := stringOr ps.dnsPolicy apt.dnsPolicy
    dnsConfig := ps.dnsConfig <|> apt.dnsConfig
    resourceClaims := listOr ps.resourceClaims apt.resourceClaims
    terminationGracePeriodSeconds := ps.terminationGracePeriodSeconds <|> apt.terminationGracePeriodSeconds }

/-! ## Probes -/

/-- The value of one field of a probe, or the default if the probe or the field is missing. -/
def probeFieldOr (field : Probe → Option Int32) (probe : Option Probe) (defaultValue : Int32) : Int32 :=
  (probe.bind field).getD defaultValue

def getProbeInitialDelaySecondsOr : Option Probe → Int32 → Int32 := probeFieldOr Probe.initialDelaySeconds
def getProbeTimeoutSecondsOr : Option Probe → Int32 → Int32 := probeFieldOr Probe.timeoutSeconds
def getProbePeriodSecondsOr : Option Probe → Int32 → Int32 := probeFieldOr Probe.periodSeconds
def getProbeSuccessThresholdOr : Option Probe → Int32 → Int32 := probeFieldOr Probe.successThreshold
def getProbeFailureThresholdOr : Option Probe → Int32 → Int32 := probeFieldOr Probe.failureThreshold

end Api
end KynoMesh
