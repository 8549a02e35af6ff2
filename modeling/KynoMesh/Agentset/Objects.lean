import KynoMesh.Lib.Client
import KynoMesh.Agentset.Children
import KynoMesh.Pods.PodSpec

/-!
# Services and the daemon

The objects that the controllers put before the pods: the Services of an AgentDeploy (`agentdeploy/services.go`), and the
entry Service and the daemon of an AgentSet (`agentset/entry_service.go`, `agentset/daemon.go`). All of them are upserted
in the same way: created if absent, left alone if the annotated hash of the spec is the wanted one, and deleted and
created otherwise.

* `Object`, `newHeadlessService` … `newDaemonDeployment` : what is wanted;
* `Server`, `serve` : the API server, with calls that fail before or after their effect and reads from a cache;
* `upsert` : the common code, as a client of the server; `upsertService`, `reconcileEntryService`,
  `reconcileDaemonDeployment`, `reconcileDaemonService` : its members;
* `Job`, `pass` : what the two controllers do for one AgentDeploy or AgentSet.
-/

namespace KynoMesh.Objects

open KynoMesh.Lib KynoMesh.Api KynoMesh.Pods
open KynoMesh.Agentset (ApiError SetReconciler controllerReference)

def keyServing : String := "kynomesh.kyno.sh/serving"
def keyEntry : String := "kynomesh.kyno.sh/entry"
def keyServiceKind : String := "kynomesh.kyno.sh/service-kind"
def componentDaemon : String := "daemon"
def serviceKindHeadless : String := "headless"
def serviceKindClusterIP : String := "clusterip"
def daemonAPIPort : Int32 := 9432
def daemonMetricsPort : Int32 := 9433
def containerNameDaemon : String := "daemon"
def envAgentSetObject : String := "KYNOMESH_AGENTSET_OBJECT"

/-! ## Objects -/

structure ServicePort where
  name : String
  port : Int32
  targetPort : String
  protocol : String := "TCP"
  deriving DecidableEq

structure ServiceSpec where
  type : String := ""
  clusterIP : String := ""
  selector : Dict String String
  ports : List ServicePort
  publishNotReadyAddresses : Bool := false
  deriving DecidableEq

structure PodTemplateSpec where
  labels : Dict String String
  annotations : Dict String String := ∅
  spec : PodSpec
  deriving DecidableEq

structure DeploymentSpec where
  replicas : Int32
  strategy : String
  matchLabels : Dict String String
  template : PodTemplateSpec
  deriving DecidableEq

inductive Spec where
  | service (s : ServiceSpec)
  | deployment (d : DeploymentSpec)
  deriving DecidableEq

inductive Kind where
  | service
  | deployment
  deriving DecidableEq

def Spec.kind : Spec → Kind
  | .service _ => .service
  | .deployment _ => .deployment

structure Key where
  kind : Kind
  nspace : String
  name : String
  deriving DecidableEq

structure Object where
  metadata : ObjectMeta
  spec : Spec
  deriving DecidableEq

namespace Object

def key (o : Object) : Key := ⟨o.spec.kind, o.metadata.nspace, o.metadata.name⟩

/-- The annotation that an upsert compares. -/
def hash (o : Object) : String := strAt o.metadata.annotations keyHash

def annotate (o : Object) (hash : String) : Object :=
  { o with metadata := { o.metadata with annotations := o.metadata.annotations.insert keyHash hash } }

@[simp] theorem key_annotate (o : Object) (h : String) : (o.annotate h).key = o.key := rfl

@[simp] theorem hash_annotate (o : Object) (h : String) : (o.annotate h).hash = h := by
  simp [hash, annotate, strAt]

end Object

/-- A map with these entries. -/
def labelsOf (kvs : List (String × String)) : Dict String String := kvs.foldl (fun d kv => d.insert kv.1 kv.2) ∅

/-! ## The Services of an AgentDeploy -/

/-- The metadata of a Service of `ad`. -/
def serviceMeta (ad : AgentDeploy) (name kind : String) : ObjectMeta where
  nspace := ad.metadata.nspace
  name := name
  labels := labelsOf [(keyAppName, ad.metadata.name), (keyAgentSetName, ad.spec.agentSetName),
    (keyAgentDeployName, ad.spec.agent.name), (keyComponent, componentAgent), (keyPartOf, project),
    (keyManagedBy, controllerAgentDeploy), (keyServiceKind, kind)]
  ownerReferences := [newControllerRef ad.metadata "AgentDeploy"]

def newHeadlessService (ad : AgentDeploy) : Object where
  metadata := serviceMeta ad ad.headlessServiceName serviceKindHeadless
  spec := .service
    { clusterIP := "None"
      selector := labelsOf [(keyAgentSetName, ad.spec.agentSetName), (keyAgentDeployName, ad.spec.agent.name),
        (keyManagedBy, controllerAgentDeploy)]
      ports := [{ name := "introspect", port := agentBrokerIntrospectionPort, targetPort := "introspect" }]
      -- a pod has its DNS record before it is ready
      publishNotReadyAddresses := true }

def newClusterIPService (ad : AgentDeploy) : Object where
  metadata := serviceMeta ad ad.serviceName serviceKindClusterIP
  spec := .service
    { type := "ClusterIP"
      selector := labelsOf [(keyAgentSetName, ad.spec.agentSetName), (keyAgentDeployName, ad.spec.agent.name),
        (keyManagedBy, controllerAgentDeploy), (keyServing, "true")]
      ports := [{ name := "broker", port := agentBrokerPort, targetPort := "broker" }] }

/-! ## The entry Service and the daemon of an AgentSet -/

/-- What the two controllers build objects with. -/
structure Builder where
  /-- `scheme` and `controllerReference` of the AgentSet controller. -/
  set : SetReconciler
  settings : Settings
  /-- `MustJSON` of an AgentSet. -/
  setJSON : AgentSet → String
  /-- `MustHash` of a spec. -/
  mustHash : Spec → String

def newEntryService (b : Builder) (as : AgentSet) : Except String Object := do
  let ref ← controllerReference b.set as
  return {
    metadata :=
      { nspace := as.metadata.nspace
        name := as.entryServiceName
        labels := labelsOf [(keyAppName, as.metadata.name), (keyAgentSetName, as.metadata.name),
          (keyComponent, componentAgent), (keyPartOf, project), (keyManagedBy, controllerAgentSet)]
        ownerReferences := [ref] }
    spec := .service
      { type := "ClusterIP"
        selector := labelsOf [(keyAgentSetName, as.metadata.name), (keyManagedBy, controllerAgentDeploy),
          (keyEntry, "true"), (keyServing, "true")]
        ports := [{ name := "broker", port := agentBrokerPort, targetPort := "broker" }] } }

/-- `DaemonTemplate`, of `spec.templates.daemon`. -/
structure DaemonTemplate where
  podTemplate : AbstractPodTemplate := {}
  container : Option ContainerTemplate := none
  deriving DecidableEq

def daemonLabels (as : AgentSet) : Dict String String :=
  labelsOf [(keyAppName, as.daemonName), (keyAgentSetName, as.metadata.name), (keyComponent, componentDaemon),
    (keyPartOf, project), (keyManagedBy, controllerAgentSet)]

def daemonProbe : CoreProbe where
  handler := .httpGet "/healthz" "metrics" "HTTPS"
  initialDelaySeconds := 5
  periodSeconds := 10
  timeoutSeconds := 2
  failureThreshold := 3
  successThreshold := 1

def newDaemonContainer (b : Builder) (as : AgentSet) (tmpl : Option ContainerTemplate) : CoreContainer :=
  b.settings.finish tmpl
    { name := containerNameDaemon
      image := b.settings.image
      imagePullPolicy := b.settings.imagePullPolicy
      args := ["daemon"]
      env :=
        [{ name := envNamespace, valueFrom := some (.fieldRef "metadata.namespace") },
          { name := envPodName, valueFrom := some (.fieldRef "metadata.name") },
          { name := envAgentSetName, value := as.metadata.name },
          { name := envAgentSetObject, value := b.settings.encodeToString (b.setJSON as.simpleCopy) }]
      ports :=
        [{ name := "api", containerPort := daemonAPIPort, protocol := "TCP" },
          { name := "metrics", containerPort := daemonMetricsPort, protocol := "TCP" }]
      readinessProbe := some daemonProbe
      livenessProbe := some daemonProbe }

/-- `AbstractPodTemplate.ApplyToPodTemplateSpec`: the keys that the pod template has win. -/
def applyToPodTemplateSpec (apt : AbstractPodTemplate) (p : PodTemplateSpec) : PodTemplateSpec where
  labels := p.labels ∪ (apt.metadata.getD {}).labels
  annotations := p.annotations ∪ (apt.metadata.getD {}).annotations
  spec := apt.applyToPodSpec p.spec

/-- The error of the builders of the daemon, which say it in words of their own. -/
def daemonReference (b : Builder) (as : AgentSet) (what : String) : Except String OwnerReference :=
  match b.set.scheme with
  | some setControllerReference =>
    match setControllerReference as with
    | .error e => .error ("set controller reference on daemon " ++ what ++ ": " ++ e)
    | .ok ref => .ok ref
  | none => .ok (newControllerRef as.metadata "AgentSet")

def newDaemonDeployment (b : Builder) (as : AgentSet) (tmpl : Option DaemonTemplate) : Except String Object := do
  let pod : PodTemplateSpec :=
    { labels := daemonLabels as
      spec :=
        { containers := [newDaemonContainer b as (tmpl.bind DaemonTemplate.container)], initContainers := []
          volumes := [] } }
  let template := tmpl.elim pod fun t => applyToPodTemplateSpec t.podTemplate pod
  let ref ← daemonReference b as "Deployment"
  return {
    metadata :=
      { nspace := as.metadata.nspace
        name := as.daemonName
        labels := daemonLabels as
        ownerReferences := [ref] }
    spec := .deployment
      { replicas := 1
        strategy := "Recreate"
        -- one map with the labels of the template, so what a template adds there it adds here
        matchLabels := template.labels
        template := template } }

def newDaemonService (b : Builder) (as : AgentSet) : Except String Object := do
  let ref ← daemonReference b as "Service"
  return {
    metadata :=
      { nspace := as.metadata.nspace
        name := as.daemonName
        labels := daemonLabels as
        ownerReferences := [ref] }
    spec := .service
      { type := "ClusterIP"
        selector := daemonLabels as
        ports :=
          [{ name := "api", port := daemonAPIPort, targetPort := "api" },
            { name := "metrics", port := daemonMetricsPort, targetPort := "metrics" }] } }

/-! ## The API server -/

/-- An event of the recorder. -/
structure Recorded where
  reason : String
  action : String
  note : String
  deriving DecidableEq

structure Server where
  objects : Dict Key Object
  events : List Recorded := []

inductive Request where
  | get (key : Key)
  | create (o : Object)
  | delete (key : Key)
  | event (e : Recorded)

abbrev Answer : Request → Type
  | .get _ => Except ApiError Object
  | .create _ => Except ApiError Unit
  | .delete _ => Except ApiError Unit
  | .event _ => Unit

/-- What a create stores: the object with the defaults of its API, which leave the annotations alone. -/
structure Defaulting where
  store : Object → Object
  hash : ∀ o, (store o).hash = o.hash

/-- How a call goes. -/
inductive Reply where
  | served
  /-- Refused, without an effect. -/
  | refused (message : String)
  /-- The effect takes place, and the answer is lost. -/
  | lost (message : String)
  /-- A read from the cache of the client. -/
  | cached (seen : Option Object)

def found : Option Object → Except ApiError Object
  | some o => .ok o
  | none => .error .notFound

def execute (d : Defaulting) (s : Server) : (q : Request) → Answer q × Server
  | .get key => (found (s.objects.lookup key), s)
  | .create o =>
    match s.objects.lookup o.key with
    | some _ => (.error .alreadyExists, s)
    | none => (.ok (), { s with objects := s.objects.insert o.key (d.store o) })
  | .delete key =>
    match s.objects.lookup key with
    | none => (.error .notFound, s)
    | some _ => (.ok (), { s with objects := s.objects.erase key })
  | .event e => ((), { s with events := s.events ++ [e] })

def refusal (message : String) : (q : Request) → Answer q
  | .get _ => .error (.other message)
  | .create _ => .error (.other message)
  | .delete _ => .error (.other message)
  | .event _ => ()

def serve (d : Defaulting) (r : Reply) (s : Server) (q : Request) : Answer q × Server :=
  match r, q with
  | .served, q => execute d s q
  | .refused message, q => (refusal message q, s)
  | .lost message, q => (refusal message q, (execute d s q).2)
  | .cached seen, .get _ => (found seen, s)
  | .cached _, q => execute d s q

/-! ## Upserts -/

/-- What differs between the upserts: the texts of their errors, by the verb of the call, and their events. -/
structure Texts where
  what : String → String
  created : Option Recorded := none
  updated : Option Recorded := none

def Texts.error (t : Texts) (verb : String) (e : ApiError) : Except String Unit :=
  .error (t.what verb ++ ": " ++ e.message)

def record : Option Recorded → Client Answer Unit
  | none => pure ()
  | some e => Client.call (Request.event e)

/-- `Create`, of which AlreadyExists is no error, and the event after it. -/
def createAndRecord (t : Texts) (verb : String) (event : Option Recorded) (desired : Object) :
    Client Answer (Except String Unit) := do
  let res : Except ApiError Unit ← Client.call (Request.create desired)
  match res with
  | .ok () | .error .alreadyExists =>
    record event
    return .ok ()
  | .error e => return t.error verb e

/-- `Delete`, of which NotFound is no error, and `Create`. -/
def recreate (t : Texts) (desired : Object) : Client Answer (Except String Unit) := do
  let res : Except ApiError Unit ← Client.call (Request.delete desired.key)
  match res with
  | .ok () | .error .notFound => createAndRecord t "recreate" t.updated desired
  | .error e => return t.error "delete stale" e

def upsert (mustHash : Spec → String) (t : Texts) (want : Object) : Client Answer (Except String Unit) := do
  let desiredHash := mustHash want.spec
  let desired := want.annotate desiredHash
  let got : Except ApiError Object ← Client.call (Request.get desired.key)
  match got with
  | .error .notFound => createAndRecord t "create" t.created desired
  | .error e => return t.error "get" e
  | .ok existing =>
    if existing.hash = desiredHash then return .ok () else recreate t desired

/-- The texts of the upserts of Services, of the given kind. -/
def serviceTexts (kind : String) (created updated : Recorded) : Texts where
  what := fun verb => "failed to " ++ verb ++ " " ++ kind ++ " service"
  created := some created
  updated := some updated

def upsertService (b : Builder) (desired : Object) (kind : String) : Client Answer (Except String Unit) :=
  upsert b.mustHash
    (serviceTexts kind
      ⟨"CreatedService", "CreateService", "Created " ++ kind ++ " service " ++ desired.metadata.name⟩
      ⟨"UpdatedService", "UpdateService",
        "Recreated " ++ kind ++ " service " ++ desired.metadata.name ++ " on spec drift"⟩) desired

/-- One after the other, unless the first fails. -/
def andThen (first second : Client Answer (Except String Unit)) : Client Answer (Except String Unit) := do
  match ← first with
  | .error e => return .error e
  | .ok () => second

def reconcileServices (b : Builder) (ad : AgentDeploy) : Client Answer (Except String Unit) :=
  andThen (upsertService b (newHeadlessService ad) "headless") (upsertService b (newClusterIPService ad) "ClusterIP")

/-- The upsert of an object of an AgentSet, which has to be built first. -/
def upsertBuilt (mustHash : Spec → String) (what : String) (build : Except String Object) (texts : Object → Texts) :
    Client Answer (Except String Unit) :=
  match build with
  | .error e => return .error (what ++ ": " ++ e)
  | .ok desired => upsert mustHash (texts desired) desired

def reconcileEntryService (b : Builder) (as : AgentSet) : Client Answer (Except String Unit) :=
  upsertBuilt b.mustHash "failed to build entry service" (newEntryService b as) fun desired =>
    serviceTexts "entry"
      ⟨"CreatedEntryService", "CreateEntryService", "Created entry service " ++ desired.metadata.name⟩
      ⟨"UpdatedEntryService", "UpdateEntryService",
        "Recreated entry service " ++ desired.metadata.name ++ " on spec drift"⟩

def reconcileDaemonDeployment (b : Builder) (as : AgentSet) (tmpl : Option DaemonTemplate) :
    Client Answer (Except String Unit) :=
  upsertBuilt b.mustHash "build daemon Deployment" (newDaemonDeployment b as tmpl) fun desired =>
    { what := fun verb => verb ++ " daemon Deployment"
      created := some ⟨"CreatedDaemon", "CreateDaemon", "Created daemon Deployment " ++ desired.metadata.name⟩
      updated := some ⟨"UpdatedDaemon", "UpdateDaemon",
        "Recreated daemon Deployment " ++ desired.metadata.name ++ " on spec drift"⟩ }

/-- The one upsert without events. -/
def reconcileDaemonService (b : Builder) (as : AgentSet) : Client Answer (Except String Unit) :=
  upsertBuilt b.mustHash "build daemon Service" (newDaemonService b as) fun _ =>
    { what := fun verb => verb ++ " daemon Service" }

def reconcileDaemon (b : Builder) (as : AgentSet) (tmpl : Option DaemonTemplate) : Client Answer (Except String Unit) :=
  andThen (reconcileDaemonDeployment b as tmpl) (reconcileDaemonService b as)

/-- One key of the work queues. -/
inductive Job where
  | deploy (ad : AgentDeploy)
  | set (as : AgentSet) (tmpl : Option DaemonTemplate)

/-- The part of the two `reconcile` that is about Services and Deployments. -/
def pass (b : Builder) : Job → Client Answer (Except String Unit)
  | .deploy ad => reconcileServices b ad
  | .set as tmpl => andThen (reconcileEntryService b as) (reconcileDaemon b as tmpl)

/-- The objects that a job wants, as far as they can be built. -/
def wanted (b : Builder) : Job → List Object
  | .deploy ad => [newHeadlessService ad, newClusterIPService ad]
  | .set as tmpl =>
    (newEntryService b as).toOption.toList ++
      ((newDaemonDeployment b as tmpl).toOption.toList ++ (newDaemonService b as).toOption.toList)

end KynoMesh.Objects
