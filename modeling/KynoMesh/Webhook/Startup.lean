import KynoMesh.Lib.Client
import KynoMesh.Lib.Dict
import Mathlib.Data.List.Sort

/-!
# How the replicas of the webhook start

Each replica of the validating webhook reads its certificate from a Secret, or generates one and creates the Secret, and
then registers itself with the CA certificate under the one ValidatingWebhookConfiguration. The replicas share their
options, so the names of the objects do not occur here.

* `Cluster`, `execute`, `serve` : the objects, and the calls that get through, are refused or lose their answer;
* `configureCerts`, `register`, `start` : `Run`, up to where it serves. A failure of the first does not keep it from the
  second.
-/

namespace KynoMesh.Webhook
open KynoMesh.Lib

/-! ## Objects -/

abbrev Pem := List UInt8

/-- `CreateCerts`. -/
structure KeyCerts where
  serverKey : Pem
  serverCert : Pem
  caCert : Pem

inductive ClientAuthType where
  | noClientCert
  | requestClientCert
  | requireAnyClientCert
  | verifyClientCertIfGiven
  | requireAndVerifyClientCert

/-- `clientAuth >= tls.VerifyClientCertIfGiven`. -/
def ClientAuthType.verifies : ClientAuthType → Bool
  | .noClientCert | .requestClientCert | .requireAnyClientCert => false
  | .verifyClientCertIfGiven | .requireAndVerifyClientCert => true

structure Options where
  webhookName : String
  serviceName : String
  nspace : String
  port : Int
  clientAuth : ClientAuthType

structure GroupVersionKind where
  group : String
  version : String
  kind : String

inductive OperationType where
  | create
  | update
  | delete
deriving DecidableEq

structure RuleWithOperations where
  operations : List OperationType
  apiGroups : List String
  apiVersions : List String
  resources : List String
deriving DecidableEq

structure ValidatingWebhook where
  name : String
  rules : List RuleWithOperations
  sideEffects : String
  admissionReviewVersions : List String
  /-- The namespace, the name and the port. -/
  service : String × String × Int32
  /-- Empty if it is nil. -/
  caBundle : Pem
  failurePolicy : String
deriving DecidableEq

/-- The order of the rules. -/
def ruleLess (a b : RuleWithOperations) : Bool :=
  let lhs := (a.apiGroups.headD "", a.apiVersions.headD "", a.resources.headD "")
  let rhs := (b.apiGroups.headD "", b.apiVersions.headD "", b.resources.headD "")
  if lhs.1 ≠ rhs.1 then decide (lhs.1 < rhs.1)
  else if lhs.2.1 ≠ rhs.2.1 then decide (lhs.2.1 < rhs.2.1)
  else decide (lhs.2.2 < rhs.2.2)

/-- What a replica and the API server take from libraries: `tls.X509KeyPair`, the plural of a kind, and the defaults that
the server fills in. -/
structure Libraries where
  x509KeyPair : Pem → Pem → Except String Unit
  pluralize : String → String
  defaulted : List ValidatingWebhook → List ValidatingWebhook
  defaulted_caBundle : ∀ ws, (defaulted ws).map ValidatingWebhook.caBundle = ws.map ValidatingWebhook.caBundle

/-! ## The API server -/

inductive ApiError where
  | notFound
  | alreadyExists
  | conflict
  | other (message : String)

def ApiError.message : ApiError → String
  | .notFound => "not found"
  | .alreadyExists => "already exists"
  | .conflict => "the object has been modified"
  | .other message => message

structure Cluster where
  secret : Option (Dict String Pem) := none
  /-- With its resource version. -/
  webhook : Option (List ValidatingWebhook × Nat) := none
  /-- The ConfigMap `extension-apiserver-authentication`. -/
  authentication : Option (Dict String Pem)
  deployment : Bool
  clusterRole : Bool

inductive Request where
  | getAuthentication
  | getSecret
  /-- Not a call of the server, but as random as one. -/
  | createCerts (org : String) (hosts : List String)
  | getDeployment
  | createSecret (data : Dict String Pem)
  | getClusterRole
  | createWebhook (webhooks : List ValidatingWebhook)
  | getWebhook
  | updateWebhook (webhooks : List ValidatingWebhook) (resourceVersion : Nat)

abbrev Answer : Request → Type
  | .getAuthentication => Except ApiError (Dict String Pem)
  | .getSecret => Except ApiError (Dict String Pem)
  | .createCerts _ _ => Except String KeyCerts
  | .getDeployment => Except ApiError Unit
  | .createSecret _ => Except ApiError Unit
  | .getClusterRole => Except ApiError Unit
  | .createWebhook _ => Except ApiError Unit
  | .getWebhook => Except ApiError (List ValidatingWebhook × Nat)
  | .updateWebhook _ _ => Except ApiError Unit

def found {α : Type} : Option α → Except ApiError α
  | some a => .ok a
  | none => .error .notFound

/-- A call that gets through, `certs` being what `CreateCerts` comes up with. -/
def execute (lib : Libraries) (certs : Except String KeyCerts) (s : Cluster) : (q : Request) → Answer q × Cluster
  | .getAuthentication => (found s.authentication, s)
  | .getSecret => (found s.secret, s)
  | .createCerts _ _ => (certs, s)
  | .getDeployment => (if s.deployment then .ok () else .error .notFound, s)
  | .createSecret data =>
    match s.secret with
    | none => (.ok (), { s with secret := some data })
    | some _ => (.error .alreadyExists, s)
  | .getClusterRole => (if s.clusterRole then .ok () else .error .notFound, s)
  | .createWebhook webhooks =>
    match s.webhook with
    | none => (.ok (), { s with webhook := some (lib.defaulted webhooks, 0) })
    | some _ => (.error .alreadyExists, s)
  | .getWebhook => (found s.webhook, s)
  | .updateWebhook webhooks resourceVersion =>
    match s.webhook with
    | none => (.error .notFound, s)
    | some (_, version) =>
      if version = resourceVersion then (.ok (), { s with webhook := some (lib.defaulted webhooks, version + 1) })
      else (.error .conflict, s)

/-- The answer that stands for an error of the call. -/
def refusal (message : String) : (q : Request) → Answer q
  | .createCerts _ _ => .error message
  | .getAuthentication | .getSecret | .getDeployment | .createSecret _ | .getClusterRole | .createWebhook _ | .getWebhook
  | .updateWebhook _ _ => .error (.other message)

inductive Reply where
  | served (certs : Except String KeyCerts)
  /-- Without an effect. -/
  | refused (message : String)
  /-- The effect takes place, and the replica gets an error. -/
  | lost (message : String)

def serve (lib : Libraries) (r : Reply) (s : Cluster) (q : Request) : Answer q × Cluster :=
  match r with
  | .served certs => execute lib certs s q
  | .refused message => (refusal message q, s)
  | .lost message => (refusal message q, (execute lib (.error message) s q).2)

/-! ## A replica -/

abbrev Prog (α : Type) := Client Answer (Except String α)

def secretServerKey : String := "server-key.pem"
def secretServerCert : String := "server-cert.pem"
def secretCACert : String := "ca-cert.pem"
def certOrg : String := "sh.kyno"

/-- The rest of a program, or the error of an API call under `wrap`. -/
def orFail {α β : Type} (wrap : String → String) (f : α → Prog β) : Except ApiError α → Prog β
  | .error e => .done (.error (wrap e.message))
  | .ok a => f a

/-- The same, where `NotFound` is no error. -/
def orMissing {α β : Type} (missing : Prog β) (f : α → Prog β) : Except ApiError α → Prog β
  | .ok a => f a
  | .error .notFound => missing
  | .error .alreadyExists => .done (.error ApiError.alreadyExists.message)
  | .error .conflict => .done (.error ApiError.conflict.message)
  | .error (.other message) => .done (.error message)

/-- The same after a creation, where `AlreadyExists` is no error. -/
def orPresent {β : Type} (wrap : String → String) (created present : Prog β) : Except ApiError Unit → Prog β
  | .ok () => created
  | .error .alreadyExists => present
  | .error .notFound => .done (.error (wrap ApiError.notFound.message))
  | .error .conflict => .done (.error (wrap ApiError.conflict.message))
  | .error (.other message) => .done (.error (wrap message))

def getAPIServerExtensionCACert : Prog Pem :=
  (Client.call Request.getAuthentication).bind (orFail id fun data =>
    match data.lookup "requestheader-client-ca-file" with
    | some pem => .done (.ok pem)
    | none => .done (.error
      "cannot find requestheader-client-ca-file in ConfigMap extension-apiserver-authentication"))

def secretData (certs : KeyCerts) : Dict String Pem :=
  ((AList.singleton secretServerKey certs.serverKey).insert secretServerCert certs.serverCert).insert secretCACert
    certs.caCert

def certHosts (o : Options) : List String :=
  [o.serviceName ++ "." ++ o.nspace ++ ".svc.cluster.local", o.serviceName ++ "." ++ o.nspace ++ ".svc"]

def generateSecret (o : Options) : Prog (Dict String Pem) :=
  (Client.call (Request.createCerts certOrg (certHosts o))).bindOk fun certs =>
    (Client.call Request.getDeployment).bind
      (orFail (fun e => "failed to fetch webhook deployment, " ++ e) fun _ => .done (.ok (secretData certs)))

def readCerts (data : Dict String Pem) : Except String KeyCerts :=
  match data.lookup secretServerKey with
  | none => .error "server key missing"
  | some serverKey =>
    match data.lookup secretServerCert with
    | none => .error "server cert missing"
    | some serverCert =>
      match data.lookup secretCACert with
      | none => .error "ca cert missing"
      | some caCert => .ok ⟨serverKey, serverCert, caCert⟩

/-- The Secret, once it should be there. -/
def fetchCerts : Prog KeyCerts := (Client.call Request.getSecret).bind (orFail id fun data => .done (readCerts data))

/-- Something else might have created it. -/
def createSecret (data : Dict String Pem) : Prog KeyCerts :=
  (Client.call (Request.createSecret data)).bind (orPresent id fetchCerts fetchCerts)

def getOrGenerateKeyCertsFromSecret (o : Options) : Prog KeyCerts :=
  (Client.call Request.getSecret).bind
    (orMissing ((generateSecret o).bindOk createSecret) fun data => .done (readCerts data))

structure TlsConfig where
  certificate : Pem × Pem
  clientCAs : Pem
  clientAuth : ClientAuthType

def makeTLSConfig (lib : Libraries) (serverCert serverKey caCert : Pem) (clientAuthType : ClientAuthType) :
    Except String TlsConfig :=
  (lib.x509KeyPair serverCert serverKey).map fun _ => ⟨(serverCert, serverKey), caCert, clientAuthType⟩

def configureCerts (lib : Libraries) (o : Options) : Prog (TlsConfig × Pem) :=
  (if o.clientAuth.verifies then getAPIServerExtensionCACert else .done (.ok [])).bindOk fun apiServerCACert =>
    (getOrGenerateKeyCertsFromSecret o).bindOk fun certs =>
      .done ((makeTLSConfig lib certs.serverCert certs.serverKey apiServerCACert o.clientAuth).map fun tlsConfig =>
        (tlsConfig, certs.caCert))

def rulesOf (lib : Libraries) (handlers : List GroupVersionKind) : List RuleWithOperations :=
  (handlers.map fun gvk =>
    { operations := [.create, .update, .delete]
      apiGroups := [gvk.group]
      apiVersions := [gvk.version]
      resources := [lib.pluralize gvk.kind] }).insertionSort fun a b => ruleLess b a = false

/-- The registration that a replica asks for, its handlers in the order of a `range` over the map. -/
def webhooksOf (lib : Libraries) (o : Options) (handlers : List GroupVersionKind) (caCert : Pem) : List ValidatingWebhook :=
  [{ name := o.webhookName
     rules := rulesOf lib handlers
     sideEffects := "None"
     admissionReviewVersions := ["v1", "v1beta1"]
     service := (o.nspace, o.serviceName, Int32.ofInt o.port)
     caBundle := caCert
     failurePolicy := "Ignore" }]

def updateWebhook (webhooks : List ValidatingWebhook) (configured : List ValidatingWebhook × Nat) : Prog Unit :=
  if configured.1 ≠ webhooks then
    (Client.call (Request.updateWebhook webhooks configured.2)).bind
      (orFail (fun e => "failed to update webhook, " ++ e) fun _ => .done (.ok ()))
  else .done (.ok ())

def createWebhook (webhooks : List ValidatingWebhook) : Prog Unit :=
  (Client.call (Request.createWebhook webhooks)).bind (orPresent (fun e => "failed to create a webhook, " ++ e)
    (.done (.ok ()))
    ((Client.call Request.getWebhook).bind
      (orFail (fun e => "failed to retrieve webhook, " ++ e) (updateWebhook webhooks))))

def register (lib : Libraries) (o : Options) (handlers : List GroupVersionKind) (caCert : Pem) : Prog Unit :=
  (Client.call Request.getClusterRole).bind (orFail (fun e => "failed to fetch webhook cluster role, " ++ e) fun _ =>
    createWebhook (webhooksOf lib o handlers caCert))

/-- `Run`, up to the server: it serves if there is a TLS configuration. An error of `configureCerts` is logged and leaves
both of its results nil. -/
def start (lib : Libraries) (o : Options) (handlers : List GroupVersionKind) : Prog (Option TlsConfig) :=
  (configureCerts lib o).bind fun
    | .ok (tlsConfig, caCert) => (register lib o handlers caCert).bindOk fun _ => .done (.ok (some tlsConfig))
    | .error _ => (register lib o handlers []).bindOk fun _ => .done (.ok none)

end KynoMesh.Webhook
