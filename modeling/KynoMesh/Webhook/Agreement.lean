import KynoMesh.Lib.Loop
import KynoMesh.Webhook.Startup

/-!
# What the replicas of the webhook agree on

The Secret is created once: whoever comes second finds it. The registration is overwritten by every replica that starts.

* `Holds`, `Trusted` : the certificates in the Secret, and a registration with their CA;
* `Obtains` : a program of the certificate stage, which either gets what it is for or leaves the replica `bare`;
* `start_safe` : what a replica writes and holds, among the others;
* `webhook_agreement` : all replicas.
-/

namespace KynoMesh.Webhook
open KynoMesh.Lib

/-! ## What is kept -/

/-- The certificates in the Secret. -/
def Holds (s : Cluster) (certs : KeyCerts) : Prop := ∃ data, s.secret = some data ∧ readCerts data = .ok certs

/-- A CA certificate that clients of the webhook can verify its replicas with; none at all if replicas may be `bare`. -/
def Backed (bare : Prop) (s : Cluster) (ca : Pem) : Prop :=
  (bare ∧ ca = []) ∨ ∃ certs, Holds s certs ∧ certs.caCert = ca

def Trusted (bare : Prop) (s : Cluster) : Prop :=
  ∀ ws version, s.webhook = some (ws, version) → ∀ w ∈ ws, Backed bare s w.caBundle

/-- Where a replica can succeed. -/
structure Sane (lib : Libraries) (o : Options) (s : Cluster) : Prop where
  deployment : s.deployment = true
  clusterRole : s.clusterRole = true
  authentication : o.clientAuth.verifies = true →
    ∃ data pem, s.authentication = some data ∧ data.lookup "requestheader-client-ca-file" = some pem
  secret : ∀ data, s.secret = some data →
    ∃ certs, readCerts data = .ok certs ∧ lib.x509KeyPair certs.serverCert certs.serverKey = .ok ()

/-- The calls of the certificate stage are served, with a key pair that fits together. -/
def Answered (lib : Libraries) (r : Reply) : Request → Prop
  | .createCerts _ _ => ∃ certs, r = .served (.ok certs) ∧ lib.x509KeyPair certs.serverCert certs.serverKey = .ok ()
  | .getAuthentication | .getSecret | .getDeployment | .createSecret _ => ∃ certs, r = .served certs
  | .getClusterRole | .createWebhook _ | .getWebhook | .updateWebhook _ _ => True

def Allowed (lib : Libraries) (bare : Prop) (r : Reply) (_ : Cluster) (q : Request) : Prop := ¬bare → Answered lib r q

structure Keeps (lib : Libraries) (o : Options) (bare : Prop) (s s' : Cluster) : Prop where
  secret : ∀ data, s.secret = some data → s'.secret = some data
  sane : ¬bare → Sane lib o s → Sane lib o s'

structure Writes (lib : Libraries) (o : Options) (bare : Prop) (s s' : Cluster) : Prop where
  keeps : Keeps lib o bare s s'
  trusted : Trusted bare s → Trusted bare s'

section
variable {lib : Libraries} {o : Options} {bare : Prop} {s s' t : Cluster} {r : Reply} {q : Request}

theorem Keeps.refl (s : Cluster) : Keeps lib o bare s s := ⟨fun _ h => h, fun _ h => h⟩

theorem Keeps.trans (h : Keeps lib o bare s s') (h' : Keeps lib o bare s' t) : Keeps lib o bare s t :=
  ⟨fun data hd => h'.secret data (h.secret data hd), fun hb hs => h'.sane hb (h.sane hb hs)⟩

theorem Writes.refl (s : Cluster) : Writes lib o bare s s := ⟨.refl s, id⟩

theorem Holds.of_keeps {certs : KeyCerts} (h : Holds s certs) (hk : Keeps lib o bare s s') : Holds s' certs := by
  obtain ⟨data, hdata, hread⟩ := h
  exact ⟨data, hk.secret data hdata, hread⟩

theorem Backed.of_keeps {ca : Pem} (h : Backed bare s ca) (hk : Keeps lib o bare s s') : Backed bare s' ca := by
  rcases h with h | ⟨certs, hcerts, hca⟩
  · exact .inl h
  · exact .inr ⟨certs, hcerts.of_keeps hk, hca⟩

/-! ## The certificate stage -/

/-- A program that ends with a value for which `P` holds, unless replicas may be `bare`. -/
def Obtains (lib : Libraries) (o : Options) (bare : Prop) {α : Type} (P : α → Cluster → Prop) (c : Prog α) (s : Cluster) :
    Prop :=
  c.Safe (serve lib) (Allowed lib bare) (Keeps lib o bare) (Writes lib o bare)
    (fun res s => (∃ a, res = .ok a ∧ P a s) ∨ bare ∧ ∃ e, res = .error e) s

variable {α β : Type} {P : α → Cluster → Prop} {P' : β → Cluster → Prop}

theorem Obtains.done {x : Except String α} (hok : ¬bare → ∃ a, x = .ok a)
    (h : ∀ a s', x = .ok a → Keeps lib o bare s s' → P a s') : Obtains lib o bare P (.done x) s := by
  intro s' hs'
  cases x with
  | error e =>
    refine .inr ⟨?_, e, rfl⟩
    by_contra hb
    obtain ⟨a, ha⟩ := hok hb
    cases ha
  | ok a => exact .inl ⟨a, rfl, h a s' rfl hs'⟩

theorem Obtains.orFail {x : Except ApiError α} {wrap : String → String} {f : α → Prog β} (hok : ¬bare → ∃ a, x = .ok a)
    (h : ∀ a, x = .ok a → Obtains lib o bare P' (f a) s) : Obtains lib o bare P' (orFail wrap f x) s := by
  cases x with
  | error e =>
    refine Obtains.done (fun hb => ?_) fun a _ ha => by cases ha
    obtain ⟨a, ha⟩ := hok hb
    cases ha
  | ok a => exact h a rfl

theorem Obtains.bindOk {c : Prog α} {f : α → Prog β} (hc : Obtains lib o bare P c s)
    (hf : ∀ a s, P a s → Obtains lib o bare P' (f a) s) : Obtains lib o bare P' (c.bindOk f) s := by
  refine Client.Safe.bind .refl (hc.mono (fun _ _ h => h) fun res t hres => ?_)
  rcases hres with ⟨a, rfl, ha⟩ | ⟨hb, e, rfl⟩
  · exact hf a t ha
  · exact fun _ _ => .inr ⟨hb, e, rfl⟩

/-- A call that only reads: what follows is to be shown for every answer that it can get. -/
theorem Obtains.read {f : Answer q → Prog β} (hread : ∀ r s, (serve lib r s q).2 = s)
    (h : ∀ s' r, Keeps lib o bare s s' → (¬bare → Answered lib r q) → Obtains lib o bare P' (f (serve lib r s' q).1) s') :
    Obtains lib o bare P' ((Client.call q).bind f) s := by
  intro s' r hs' hok
  rw [hread]
  exact ⟨.refl s', h s' r hs' hok⟩

/-- The state in which a program of the stage goes on. -/
def Ready (lib : Libraries) (o : Options) (bare : Prop) (s : Cluster) : Prop := ¬bare → Sane lib o s

theorem Ready.of_keeps (h : Ready lib o bare s) (hk : Keeps lib o bare s s') : Ready lib o bare s' :=
  fun hb => hk.sane hb (h hb)

theorem secret_of_getSecret {data : Dict String Pem} (h : (serve lib r s .getSecret).1 = .ok data) :
    s.secret = some data := by
  cases r with
  | served c =>
    change found s.secret = _ at h
    cases hs : s.secret with
    | none =>
      rw [hs] at h
      cases h
    | some data' =>
      rw [hs] at h
      rw [Except.ok.inj h]
  | refused m => cases h
  | lost m => cases h

theorem getAPIServerExtensionCACert_obtains (hv : o.clientAuth.verifies = true) (hs : Ready lib o bare s) :
    Obtains lib o bare (fun _ s => Ready lib o bare s) getAPIServerExtensionCACert s := by
  refine Obtains.read (fun r s => by cases r <;> rfl) fun s' r hs' hr => ?_
  have hready := hs.of_keeps hs'
  have hanswer : ¬bare → ∃ data pem, (serve lib r s' .getAuthentication).1 = .ok data ∧
      data.lookup "requestheader-client-ca-file" = some pem := by
    intro hb
    obtain ⟨data, pem, hdata, hpem⟩ := (hready hb).authentication hv
    obtain ⟨c, rfl⟩ := hr hb
    refine ⟨data, pem, ?_, hpem⟩
    change found s'.authentication = _
    rw [hdata]
    rfl
  refine Obtains.orFail (fun hb => ?_) fun data hdata => ?_
  · obtain ⟨data, -, hdata, -⟩ := hanswer hb
    exact ⟨data, hdata⟩
  · split
    · exact Obtains.done (fun _ => ⟨_, rfl⟩) fun _ t _ ht => hready.of_keeps ht
    · next hnone =>
      refine Obtains.done (fun hb => ?_) fun _ _ ha => by cases ha
      obtain ⟨data', pem, hdata', hpem⟩ := hanswer hb
      rw [hdata] at hdata'
      rw [← Except.ok.inj hdata', hnone] at hpem
      cases hpem

theorem readCerts_secretData (certs : KeyCerts) : readCerts (secretData certs) = .ok certs := by
  have hkey : (secretData certs).lookup secretServerKey = some certs.serverKey := by
    rw [secretData, AList.lookup_insert_ne (by decide), AList.lookup_insert_ne (by decide)]
    rfl
  have hcert : (secretData certs).lookup secretServerCert = some certs.serverCert := by
    rw [secretData, AList.lookup_insert_ne (by decide), AList.lookup_insert]
  have hca : (secretData certs).lookup secretCACert = some certs.caCert := by
    rw [secretData, AList.lookup_insert]
  unfold readCerts
  rw [hkey, hcert, hca]

/-- Data for a Secret that suits the replicas. -/
def Suits (lib : Libraries) (bare : Prop) (data : Dict String Pem) : Prop :=
  ∃ certs, data = secretData certs ∧ (¬bare → lib.x509KeyPair certs.serverCert certs.serverKey = .ok ())

theorem generateSecret_obtains (hs : Ready lib o bare s) :
    Obtains lib o bare (fun data s => Ready lib o bare s ∧ Suits lib bare data) (generateSecret o) s := by
  refine Obtains.bindOk (P := fun certs s => Ready lib o bare s ∧
    (¬bare → lib.x509KeyPair certs.serverCert certs.serverKey = .ok ())) ?_ fun certs t ht => ?_
  · intro s' r hs' hr
    have hread : (serve lib r s' (.createCerts certOrg (certHosts o))).2 = s' := by cases r <;> rfl
    rw [hread]
    refine ⟨.refl s', Obtains.done (fun hb => ?_) fun certs t hcerts ht => ⟨(hs.of_keeps hs').of_keeps ht, fun hb => ?_⟩⟩
    · obtain ⟨certs, rfl, -⟩ := hr hb
      exact ⟨certs, rfl⟩
    · obtain ⟨certs', rfl, hpair⟩ := hr hb
      rwa [← Except.ok.inj hcerts]
  · obtain ⟨hready, hpair⟩ := ht
    refine Obtains.read (fun r s => by cases r <;> rfl) fun s' r hs' hr => ?_
    have hready' := hready.of_keeps hs'
    refine Obtains.orFail (fun hb => ?_) fun _ _ => Obtains.done (fun _ => ⟨_, rfl⟩) fun data t hdata ht => ?_
    · obtain ⟨c, rfl⟩ := hr hb
      refine ⟨(), ?_⟩
      change (if s'.deployment then _ else _) = _
      rw [if_pos (hready' hb).deployment]
    · exact ⟨hready'.of_keeps ht, certs, (Except.ok.inj hdata).symm, hpair⟩

/-- What the certificate stage is for. -/
def Equipped (lib : Libraries) (o : Options) (bare : Prop) (certs : KeyCerts) (s : Cluster) : Prop :=
  Ready lib o bare s ∧ Holds s certs ∧ (¬bare → lib.x509KeyPair certs.serverCert certs.serverKey = .ok ())

theorem readCerts_obtains {data : Dict String Pem} (hs : Ready lib o bare s) (hdata : s.secret = some data) :
    Obtains lib o bare (Equipped lib o bare) (.done (readCerts data)) s := by
  refine Obtains.done (fun hb => ?_) fun certs t hcerts ht => ⟨hs.of_keeps ht, ?_, fun hb => ?_⟩
  · obtain ⟨certs, hcerts, -⟩ := (hs hb).secret data hdata
    exact ⟨certs, hcerts⟩
  · exact Holds.of_keeps ⟨data, hdata, hcerts⟩ ht
  · obtain ⟨certs', hcerts', hpair⟩ := (hs hb).secret data hdata
    rw [hcerts] at hcerts'
    rwa [Except.ok.inj hcerts']

theorem fetchCerts_obtains (hs : Ready lib o bare s) (hsecret : ¬bare → ∃ data, s.secret = some data) :
    Obtains lib o bare (Equipped lib o bare) fetchCerts s := by
  refine Obtains.read (fun r s => by cases r <;> rfl) fun s' r hs' hr => ?_
  refine Obtains.orFail (fun hb => ?_) fun data hdata =>
    readCerts_obtains (hs.of_keeps hs') (secret_of_getSecret hdata)
  obtain ⟨data, hdata⟩ := hsecret hb
  obtain ⟨c, rfl⟩ := hr hb
  refine ⟨data, ?_⟩
  change found s'.secret = _
  rw [hs'.secret data hdata]
  rfl

/-- A Secret is created at most once, and a suitable one keeps the state sane. -/
theorem writes_createSecret {data : Dict String Pem} (hdata : Suits lib bare data) (c : Except String KeyCerts) :
    Writes lib o bare s (execute lib c s (.createSecret data)).2 := by
  cases hs : s.secret with
  | some data' =>
    have heq : (execute lib c s (.createSecret data)).2 = s := by simp only [execute, hs]
    rw [heq]
    exact .refl s
  | none =>
    have heq : (execute lib c s (.createSecret data)).2 = { s with secret := some data } := by simp only [execute, hs]
    rw [heq]
    have hnew : ∀ data', s.secret = some data' → ({ s with secret := some data } : Cluster).secret = some data' := by
      intro data' h
      rw [hs] at h
      cases h
    refine ⟨⟨hnew, fun hb hsane => ⟨hsane.deployment, hsane.clusterRole, hsane.authentication, fun data' h => ?_⟩⟩, ?_⟩
    · obtain ⟨certs, rfl, hpair⟩ := hdata
      rw [← Option.some.inj h]
      exact ⟨certs, readCerts_secretData certs, hpair hb⟩
    · intro htrusted ws version hws w hw
      rcases htrusted ws version hws w hw with h | ⟨certs, ⟨data', hdata', -⟩, -⟩
      · exact .inl h
      · rw [hs] at hdata'
        cases hdata'

theorem createSecret_obtains {data : Dict String Pem} (hs : Ready lib o bare s) (hdata : Suits lib bare data) :
    Obtains lib o bare (Equipped lib o bare) (createSecret data) s := by
  intro s' r hs' hr
  have hready := hs.of_keeps hs'
  have hfail : ∀ (m : String) (t : Cluster), (∀ c, r ≠ .served c) →
      Obtains lib o bare (Equipped lib o bare) (.done (.error m)) t := by
    intro m t hne
    refine Obtains.done (fun hb => ?_) fun _ _ ha => by cases ha
    obtain ⟨c, hc⟩ := hr hb
    exact absurd hc (hne c)
  cases r with
  | served c =>
    have hwrites : Writes lib o bare s' (execute lib c s' (.createSecret data)).2 := writes_createSecret hdata c
    refine ⟨hwrites, ?_⟩
    have hsecret : ∃ data', (execute lib c s' (.createSecret data)).2.secret = some data' := by
      cases hsec : s'.secret with
      | none => exact ⟨data, by simp only [execute, hsec]⟩
      | some data' => exact ⟨data', by simp only [execute, hsec]⟩
    have hfetch := fetchCerts_obtains (hready.of_keeps hwrites.keeps) fun _ => hsecret
    change (orPresent id fetchCerts fetchCerts (execute lib c s' (.createSecret data)).1).Safe _ _ _ _ _ _
    cases hsec : s'.secret with
    | none =>
      have hanswer : (execute lib c s' (.createSecret data)).1 = .ok () := by simp only [execute, hsec]
      rw [hanswer]
      exact hfetch
    | some data' =>
      have hanswer : (execute lib c s' (.createSecret data)).1 = .error .alreadyExists := by simp only [execute, hsec]
      rw [hanswer]
      exact hfetch
  | refused m => exact ⟨.refl s', hfail m s' (by simp)⟩
  | lost m => exact ⟨writes_createSecret hdata _, hfail m _ (by simp)⟩

theorem getOrGenerate_obtains (hs : Ready lib o bare s) :
    Obtains lib o bare (Equipped lib o bare) (getOrGenerateKeyCertsFromSecret o) s := by
  refine Obtains.read (fun r s => by cases r <;> rfl) fun s' r hs' hr => ?_
  have hready := hs.of_keeps hs'
  have hgenerate : Obtains lib o bare (Equipped lib o bare) ((generateSecret o).bindOk createSecret) s' :=
    (generateSecret_obtains hready).bindOk fun data t ht => createSecret_obtains ht.1 ht.2
  cases hanswer : (serve lib r s' .getSecret).1 with
  | ok data => exact readCerts_obtains hready (secret_of_getSecret hanswer)
  | error e =>
    cases e with
    | notFound => exact hgenerate
    | alreadyExists | conflict | other m =>
      refine Obtains.done (fun hb => ?_) fun _ _ ha => by cases ha
      obtain ⟨c, rfl⟩ := hr hb
      change found s'.secret = _ at hanswer
      cases hsec : s'.secret with
      | none => simp [hsec, found] at hanswer
      | some data => simp [hsec, found] at hanswer

/-- The TLS configuration of a replica that has its certificates. -/
def Serves (s : Cluster) (t : TlsConfig) : Prop := ∃ certs, Holds s certs ∧ t.certificate = (certs.serverCert, certs.serverKey)

theorem configureCerts_obtains (hs : Ready lib o bare s) :
    Obtains lib o bare (fun x s => Ready lib o bare s ∧ Serves s x.1 ∧ Backed bare s x.2) (configureCerts lib o) s := by
  refine Obtains.bindOk (P := fun _ s => Ready lib o bare s) ?_ fun caCert t ht => ?_
  · split_ifs with hv
    · exact getAPIServerExtensionCACert_obtains hv hs
    · exact Obtains.done (fun _ => ⟨_, rfl⟩) fun _ t _ ht => hs.of_keeps ht
  · refine (getOrGenerate_obtains ht).bindOk fun certs t ⟨hready, hholds, hpair⟩ => ?_
    refine Obtains.done (fun hb => ?_) fun x t' hx ht' => ?_
    · rw [makeTLSConfig, hpair hb]
      exact ⟨_, rfl⟩
    · unfold makeTLSConfig at hx
      cases hkey : lib.x509KeyPair certs.serverCert certs.serverKey with
      | error e =>
        rw [hkey] at hx
        cases hx
      | ok u =>
        rw [hkey] at hx
        obtain rfl := Except.ok.inj hx
        exact ⟨hready.of_keeps ht', ⟨certs, hholds.of_keeps ht', rfl⟩, .inr ⟨certs, hholds.of_keeps ht', rfl⟩⟩

/-! ## The registration -/

theorem writes_webhook {handlers : List GroupVersionKind} {ca : Pem} {version : Nat} (hca : Backed bare s ca) :
    Writes lib o bare s { s with webhook := some (lib.defaulted (webhooksOf lib o handlers ca), version) } := by
  refine ⟨⟨fun _ h => h, fun _ h => ⟨h.deployment, h.clusterRole, h.authentication, h.secret⟩⟩, fun _ ws v hws w hw => ?_⟩
  obtain ⟨rfl, rfl⟩ := Prod.mk.inj (Option.some.inj hws)
  have hbundle : w.caBundle ∈ (lib.defaulted (webhooksOf lib o handlers ca)).map ValidatingWebhook.caBundle :=
    List.mem_map_of_mem hw
  rw [lib.defaulted_caBundle] at hbundle
  rw [List.mem_singleton.mp hbundle]
  exact hca

theorem writes_serve (h : ∀ c, Writes lib o bare s (execute lib c s q).2) : Writes lib o bare s (serve lib r s q).2 := by
  cases r with
  | served c => exact h c
  | refused m => exact .refl s
  | lost m => exact h _

theorem safe_orFail {x : Except ApiError α} {wrap : String → String} {f : α → Prog β}
    (h : ∀ a, (f a).Safe (serve lib) (Allowed lib bare) (Keeps lib o bare) (Writes lib o bare) (fun _ _ => True) s) :
    (orFail wrap f x).Safe (serve lib) (Allowed lib bare) (Keeps lib o bare) (Writes lib o bare) (fun _ _ => True) s := by
  cases x with
  | error e => exact fun _ _ => trivial
  | ok a => exact h a

theorem updateWebhook_safe {handlers : List GroupVersionKind} {ca : Pem} (configured : List ValidatingWebhook × Nat)
    (hca : Backed bare s ca) :
    (updateWebhook (webhooksOf lib o handlers ca) configured).Safe (serve lib) (Allowed lib bare) (Keeps lib o bare)
      (Writes lib o bare) (fun _ _ => True) s := by
  unfold updateWebhook
  split_ifs
  · intro s' r hs' _
    refine ⟨writes_serve fun c => ?_, safe_orFail fun _ _ _ => trivial⟩
    cases hw : s'.webhook with
    | none => simpa only [execute, hw] using Writes.refl s'
    | some x =>
      obtain ⟨ws, version⟩ := x
      by_cases hv : version = configured.2
      · simpa only [execute, hw, if_pos hv] using writes_webhook (hca.of_keeps hs')
      · simpa only [execute, hw, if_neg hv] using Writes.refl s'
  · exact fun _ _ => trivial

theorem register_safe {handlers : List GroupVersionKind} {ca : Pem} (hca : Backed bare s ca) :
    (register lib o handlers ca).Safe (serve lib) (Allowed lib bare) (Keeps lib o bare) (Writes lib o bare)
      (fun _ _ => True) s := by
  intro s₁ r hs₁ _
  have hread : (serve lib r s₁ .getClusterRole).2 = s₁ := by cases r <;> rfl
  rw [hread]
  refine ⟨.refl s₁, safe_orFail fun _ => ?_⟩
  intro s₂ r₂ hs₂ _
  have hwrites : Writes lib o bare s₂ (serve lib r₂ s₂ (.createWebhook (webhooksOf lib o handlers ca))).2 := by
    refine writes_serve fun c => ?_
    cases hw : s₂.webhook with
    | none => simpa only [execute, hw] using writes_webhook ((hca.of_keeps hs₁).of_keeps hs₂)
    | some x => simpa only [execute, hw] using Writes.refl s₂
  refine ⟨hwrites, ?_⟩
  change (orPresent _ _ _ (serve lib r₂ s₂ (.createWebhook (webhooksOf lib o handlers ca))).1).Safe _ _ _ _ _ _
  have hca₂ := ((hca.of_keeps hs₁).of_keeps hs₂).of_keeps hwrites.keeps
  generalize (serve lib r₂ s₂ (.createWebhook (webhooksOf lib o handlers ca))).2 = s₃ at hca₂
  cases (serve lib r₂ s₂ (.createWebhook (webhooksOf lib o handlers ca))).1 with
  | ok u => exact fun _ _ => trivial
  | error e =>
    cases e with
    | alreadyExists =>
      intro s₄ r₄ hs₄ _
      have hread' : (serve lib r₄ s₄ .getWebhook).2 = s₄ := by cases r₄ <;> rfl
      rw [hread']
      exact ⟨.refl s₄, safe_orFail fun configured => updateWebhook_safe configured (hca₂.of_keeps hs₄)⟩
    | notFound | conflict | other m => exact fun _ _ => trivial

theorem Serves.of_keeps {c : TlsConfig} (h : Serves s c) (hk : Keeps lib o bare s s') : Serves s' c := by
  obtain ⟨certs, hcerts, hpair⟩ := h
  exact ⟨certs, hcerts.of_keeps hk, hpair⟩

/-- **A replica.** It registers a CA certificate that is backed, and serves with what is in the Secret. -/
theorem start_safe (handlers : List GroupVersionKind) (hs : Ready lib o bare s) :
    (start lib o handlers).Safe (serve lib) (Allowed lib bare) (Keeps lib o bare) (Writes lib o bare)
      (fun res s => (∀ c, res = .ok (some c) → Serves s c) ∧ (res = .ok none → bare)) s := by
  refine Client.Safe.bind .refl ((configureCerts_obtains hs).mono (fun _ _ h => h) fun res t hres => ?_)
  rcases hres with ⟨⟨c, ca⟩, rfl, -, hserves, hca⟩ | ⟨hb, e, rfl⟩
  · refine Client.Safe.bind .refl (((register_safe hca).invariant (P := fun s => Serves s c)
      (fun _ _ h hk => h.of_keeps hk) (fun _ _ h hw => h.of_keeps hw.keeps) hserves).mono (fun _ _ h => h) ?_)
    rintro res t ⟨-, hserves⟩
    cases res with
    | error e => exact fun _ _ => ⟨nofun, nofun⟩
    | ok u =>
      intro t' ht'
      refine ⟨fun c' hc' => ?_, nofun⟩
      obtain rfl := Option.some.inj (Except.ok.inj hc')
      exact hserves.of_keeps ht'
  · refine Client.Safe.bind .refl ((register_safe (.inl ⟨hb, rfl⟩)).mono (fun _ _ h => h) fun res t _ => ?_)
    cases res with
    | error e => exact fun _ _ => ⟨nofun, nofun⟩
    | ok u => exact fun _ _ => ⟨nofun, fun _ => hb⟩

/-! ## A replica on its own -/

/-- Every entry of the registration has the CA certificate `ca`. -/
def Registered (s : Cluster) (ca : Pem) : Prop :=
  ∃ ws version, s.webhook = some (ws, version) ∧ ws.map ValidatingWebhook.caBundle = [ca]

theorem registered_defaulted (lib : Libraries) (o : Options) (handlers : List GroupVersionKind) (ca : Pem) (s : Cluster)
    (version : Nat) :
    Registered { s with webhook := some (lib.defaulted (webhooksOf lib o handlers ca), version) } ca :=
  ⟨_, _, rfl, by rw [lib.defaulted_caBundle]; rfl⟩

theorem eval_register (lib : Libraries) (o : Options) (handlers : List GroupVersionKind) (ca : Pem)
    (c : Except String KeyCerts) (hrole : s.clusterRole = true) :
    ((register lib o handlers ca).eval (serve lib (.served c)) s).1 = .ok () ∧
      Registered ((register lib o handlers ca).eval (serve lib (.served c)) s).2 ca ∧
      ((register lib o handlers ca).eval (serve lib (.served c)) s).2.secret = s.secret := by
  have hcreate : (register lib o handlers ca).eval (serve lib (.served c)) s =
      (createWebhook (webhooksOf lib o handlers ca)).eval (serve lib (.served c)) s := by
    have hserve : serve lib (.served c) s .getClusterRole = (.ok (), s) := by
      change (if s.clusterRole then _ else _, s) = _
      rw [if_pos hrole]
    refine (Client.eval_call_bind _ _ _ s).trans ?_
    rw [hserve]
    rfl
  rw [hcreate]
  cases hw : s.webhook with
  | none =>
    have heval : (createWebhook (webhooksOf lib o handlers ca)).eval (serve lib (.served c)) s =
        (.ok (), { s with webhook := some (lib.defaulted (webhooksOf lib o handlers ca), 0) }) := by
      have hserve : serve lib (.served c) s (.createWebhook (webhooksOf lib o handlers ca)) =
          (.ok (), { s with webhook := some (lib.defaulted (webhooksOf lib o handlers ca), 0) }) := by
        simp only [serve, execute, hw]
      refine (Client.eval_call_bind _ _ _ s).trans ?_
      rw [hserve]
      rfl
    rw [heval]
    exact ⟨rfl, registered_defaulted lib o handlers ca s 0, rfl⟩
  | some x =>
    have heval : (createWebhook (webhooksOf lib o handlers ca)).eval (serve lib (.served c)) s =
        (updateWebhook (webhooksOf lib o handlers ca) x).eval (serve lib (.served c)) s := by
      have hserve : serve lib (.served c) s (.createWebhook (webhooksOf lib o handlers ca)) = (.error .alreadyExists, s) := by
        simp only [serve, execute, hw]
      have hget : serve lib (.served c) s .getWebhook = (.ok x, s) := by
        change (found s.webhook, s) = _
        rw [hw]
        rfl
      refine (Client.eval_call_bind _ _ _ s).trans ?_
      rw [hserve]
      refine (Client.eval_call_bind _ _ _ s).trans ?_
      rw [hget]
      rfl
    rw [heval, updateWebhook]
    split_ifs with hne
    · have hserve : serve lib (.served c) s (.updateWebhook (webhooksOf lib o handlers ca) x.2) =
          (.ok (), { s with webhook := some (lib.defaulted (webhooksOf lib o handlers ca), x.2 + 1) }) := by
        simp only [serve, execute, hw, if_true]
      have hupdate := Client.eval_call_bind (serve lib (.served c)) (.updateWebhook (webhooksOf lib o handlers ca) x.2)
        (orFail (fun e => "failed to update webhook, " ++ e) fun _ => (.done (.ok ()) : Prog Unit)) s
      rw [hserve] at hupdate
      rw [hupdate]
      exact ⟨rfl, registered_defaulted lib o handlers ca s (x.2 + 1), rfl⟩
    · rw [not_not] at hne
      exact ⟨rfl, ⟨x.1, x.2, hw, by rw [hne]; rfl⟩, rfl⟩

/-- A replica that is let through serves, and has registered the CA certificate of the Secret. -/
theorem eval_start (handlers : List GroupVersionKind) (certs : KeyCerts)
    (hpair : lib.x509KeyPair certs.serverCert certs.serverKey = .ok ()) (hs : Sane lib o s) :
    ∃ c certs', ((start lib o handlers).eval (serve lib (.served (.ok certs))) s).1 = .ok (some c) ∧
      Holds ((start lib o handlers).eval (serve lib (.served (.ok certs))) s).2 certs' ∧
      Registered ((start lib o handlers).eval (serve lib (.served (.ok certs))) s).2 certs'.caCert := by
  have hallowed : ∀ t q, Allowed lib False (.served (.ok certs)) t q := by
    intro t q _
    cases q with
    | createCerts org hosts => exact ⟨certs, rfl, hpair⟩
    | getAuthentication | getSecret | getDeployment | createSecret _ => exact ⟨_, rfl⟩
    | getClusterRole | createWebhook _ | getWebhook | updateWebhook _ _ => trivial
  have hobtains : Obtains lib o False _ (configureCerts lib o) s := configureCerts_obtains fun _ => hs
  have hcerts := hobtains.eval .refl hallowed
  rw [start, Client.eval_bind]
  obtain ⟨⟨c, ca⟩, hok, hready, -, hbacked⟩ | ⟨hfalse, -⟩ := hcerts
  · obtain ⟨hfalse, -⟩ | ⟨certs', hholds, rfl⟩ := hbacked
    · exact hfalse.elim
    · rw [hok]
      generalize ((configureCerts lib o).eval (serve lib (.served (.ok certs))) s).2 = t at hready hholds
      obtain ⟨hregister, hregistered, hsecret⟩ := eval_register lib o handlers certs'.caCert (.ok certs)
        (hready not_false).clusterRole
      have hend : ((register lib o handlers certs'.caCert).bindOk fun _ => .done (.ok (some c))).eval
          (serve lib (.served (.ok certs))) t =
          (.ok (some c), ((register lib o handlers certs'.caCert).eval (serve lib (.served (.ok certs))) t).2) := by
        rw [Client.bindOk, Client.eval_bind, hregister]
        rfl
      rw [hend]
      obtain ⟨data, hdata, hread⟩ := hholds
      exact ⟨c, certs', rfl, ⟨data, hsecret.trans hdata, hread⟩, hregistered⟩
  · exact hfalse.elim

end

/-! ## All replicas -/

/-- The replicas with the cluster. -/
abbrev Replicas (ι : Type) := Clients ι Answer (Except String (Option TlsConfig)) Cluster

/-- Replicas start at any time, each with an order of the handlers; nobody else touches the objects. -/
def step {ι : Type} [DecidableEq ι] (lib : Libraries) (o : Options) (handlers : ι → List GroupVersionKind) :
    Replicas ι → Clients.Event ι Reply Empty → Option (Replicas ι) :=
  Clients.step (serve lib) (fun i => start lib o (handlers i)) Empty.elim

section
variable {ι : Type} [DecidableEq ι] {lib : Libraries} {o : Options} {handlers : ι → List GroupVersionKind} {bare : Prop}
  {s₀ s : Replicas ι} {es : List (Clients.Event ι Reply Empty)}

theorem replicas_run (hidle : ∀ i, ∃ e, s₀.clients i = .done (.error e)) (htrusted : Trusted bare s₀.server)
    (hready : Ready lib o bare s₀.server)
    (hserved : EachStep (step lib o handlers) (Clients.Served (Allowed lib bare)) s₀ es)
    (hr : run (step lib o handlers) s₀ es = some s) :
    Trusted bare s.server ∧ ∀ i res, s.clients i = .done res →
      (∀ c, res = .ok (some c) → Serves s.server c) ∧ (res = .ok none → bare) := by
  have hco : Clients.Cooperate (fun _ : ι => Keeps lib o bare) (fun _ => Writes lib o bare) (Empty.elim : Empty → _) :=
    { refl := fun _ => .refl
      trans := fun _ => .trans
      others := fun _ _ _ _ _ h => h.keeps
      env := fun w => w.elim }
  have hstart : ∀ i, (s₀.clients i).Safe (serve lib) (Allowed lib bare) (Keeps lib o bare) (Writes lib o bare)
      (fun res s => (∀ c, res = .ok (some c) → Serves s c) ∧ (res = .ok none → bare)) s₀.server := by
    intro i
    obtain ⟨e, he⟩ := hidle i
    rw [he]
    exact fun _ _ => ⟨nofun, nofun⟩
  obtain ⟨⟨htrusted', -⟩, hsafe⟩ := Clients.safe_run_of_invariant hco (J := fun s => Trusted bare s ∧ Ready lib o bare s)
    (fun _ _ _ hJ h => ⟨h.trusted hJ.1, hJ.2.of_keeps h.keeps⟩) (fun w => w.elim)
    (fun i s hJ => start_safe (handlers i) hJ.2) hstart ⟨htrusted, hready⟩ hserved hr
  refine ⟨htrusted', fun i res hres => ?_⟩
  have hi := hsafe i
  rw [hres] at hi
  exact hi s.server (.refl _)

/-- **Agreement.** However the calls of the replicas interleave, fail and are begun anew: all that serve have the
certificate of the Secret, and the registered CA certificate is that of the Secret or none. It is never none as long as
every call of the certificate stage is answered, and then no replica ends without a certificate. A replica that is let
through in the end serves, and has put the CA certificate right. -/
theorem webhook_agreement (lib : Libraries) (o : Options) (handlers : ι → List GroupVersionKind) (s₀ s : Replicas ι)
    (es : List (Clients.Event ι Reply Empty)) (hidle : ∀ i, ∃ e, s₀.clients i = .done (.error e))
    (hnew : s₀.server.webhook = none) (hr : run (step lib o handlers) s₀ es = some s) :
    (∀ i c, s.clients i = .done (.ok (some c)) →
      ∃ certs, Holds s.server certs ∧ c.certificate = (certs.serverCert, certs.serverKey)) ∧
    (∀ ws version, s.server.webhook = some (ws, version) → ∀ w ∈ ws,
      w.caBundle = [] ∨ ∃ certs, Holds s.server certs ∧ certs.caCert = w.caBundle) ∧
    (Sane lib o s₀.server → EachStep (step lib o handlers) (Clients.Served fun r _ q => Answered lib r q) s₀ es →
      (∀ ws version, s.server.webhook = some (ws, version) → ∀ w ∈ ws,
        ∃ certs, Holds s.server certs ∧ certs.caCert = w.caBundle) ∧
      ∀ i, s.clients i ≠ .done (.ok none)) ∧
    ∀ i certs, Sane lib o s.server → lib.x509KeyPair certs.serverCert certs.serverKey = .ok () →
      ∃ n s' c certs', run (step lib o handlers) s (.start i :: List.replicate n (.call i (.served (.ok certs)))) = some s' ∧
        s'.clients i = .done (.ok (some c)) ∧ Holds s'.server certs' ∧ Registered s'.server certs'.caCert := by
  have hfresh : ∀ bare, Trusted bare s₀.server := by
    intro bare ws version hws
    rw [hnew] at hws
    cases hws
  have hany : EachStep (step lib o handlers) (Clients.Served (Allowed lib True)) s₀ es :=
    eachStep_of_invariant (I := fun _ => True)
      (fun _ _ _ _ _ => ⟨trivial, fun _ _ _ _ _ _ hb => absurd trivial hb⟩) trivial
  obtain ⟨htrusted, hdone⟩ := replicas_run hidle (hfresh True) (fun hb => absurd trivial hb) hany hr
  refine ⟨fun i c hc => (hdone i _ hc).1 c rfl, fun ws version hws w hw => ?_, fun hsane hserved => ?_, ?_⟩
  · exact (htrusted ws version hws w hw).imp And.right id
  · have hcalm : EachStep (step lib o handlers) (Clients.Served (Allowed lib False)) s₀ es :=
      (eachStep_iff (I := fun _ => True) (fun _ _ _ _ _ => by simp [Clients.Served, Allowed]) (fun _ _ _ _ _ _ => trivial)
        trivial).mp hserved
    obtain ⟨htrusted', hdone'⟩ := replicas_run hidle (hfresh False) (fun _ => hsane) hcalm hr
    refine ⟨fun ws version hws w hw => ?_, fun i hi => (hdone' i _ hi).2 rfl⟩
    exact (htrusted' ws version hws w hw).resolve_left fun h => h.1
  · intro i certs hsane hpair
    obtain ⟨c, certs', hok, hholds, hregistered⟩ := eval_start (handlers i) certs hpair hsane
    obtain ⟨n, s', hrun, hdone, hserver⟩ := Clients.exists_run_eval (serve lib) (fun i => start lib o (handlers i))
      Empty.elim (.served (.ok certs)) i { s with clients := Function.update s.clients i (start lib o (handlers i)) }
    simp only [Function.update_self] at hdone hserver
    rw [hok] at hdone
    rw [← hserver] at hholds hregistered
    exact ⟨n, s', c, certs', run_cons.mpr ⟨_, rfl, hrun⟩, hdone, hholds, hregistered⟩

end

def plainLibraries : Libraries where
  x509KeyPair := fun _ _ => .ok ()
  pluralize := fun kind => kind ++ "s"
  defaulted := id
  defaulted_caBundle := fun _ => rfl

def webhookOptions : Options where
  webhookName := "webhook.kynomesh.kyno.sh"
  serviceName := "kynomesh-webhook"
  nspace := "kynomesh-system"
  port := 443
  clientAuth := .verifyClientCertIfGiven

def agentSets : GroupVersionKind := ⟨"kynomesh.kyno.sh", "v1alpha1", "AgentSet"⟩

/-- Two replicas in a new cluster. -/
def newCluster : Replicas Bool where
  server :=
    { authentication := some (AList.singleton "requestheader-client-ca-file" [0])
      deployment := true
      clusterRole := true }
  clients := fun _ => .done (.error "")

/-- The second replica cannot read its first object, and overwrites the registration of the first one. -/
def bareReplica : List (Clients.Event Bool Reply Empty) :=
  .start false :: List.replicate 8 (.call false (.served (.ok ⟨[1], [2], [3]⟩))) ++
    .start true :: .call true (.refused "timeout") :: List.replicate 4 (.call true (.served (.error "")))

/-- Where a replica can succeed, read off the objects. -/
def saneCheck (s : Cluster) : Bool :=
  s.deployment && s.clusterRole && (s.authentication.bind fun data => data.lookup "requestheader-client-ca-file").isSome &&
    s.secret.all fun data => (readCerts data).isOk

theorem sane_of_check {s : Cluster} (h : saneCheck s = true) : Sane plainLibraries webhookOptions s := by
  simp only [saneCheck, Bool.and_eq_true, Option.isSome_iff_exists, Option.bind_eq_some_iff] at h
  obtain ⟨⟨⟨hdeployment, hrole⟩, pem, data, hdata, hpem⟩, hsecret⟩ := h
  refine ⟨hdeployment, hrole, fun _ => ⟨data, pem, hdata, hpem⟩, fun data' hdata' => ?_⟩
  rw [hdata', Option.all_some] at hsecret
  obtain ⟨certs, hcerts⟩ := exists_eq_ok_of_isOk hsecret
  exact ⟨certs, hcerts, rfl⟩

/-- The registration has lost its CA certificate while the first replica serves; the second one, started again, repairs
it. -/
theorem webhook_agreement_bareReplica : ∃ s,
    run (step plainLibraries webhookOptions fun _ => [agentSets]) newCluster bareReplica = some s ∧
      (s.server.webhook.map fun x => x.1.map ValidatingWebhook.caBundle) = some [[]] ∧
      ∃ n s' c certs', run (step plainLibraries webhookOptions fun _ => [agentSets]) s
          (.start true :: List.replicate n (.call true (.served (.ok ⟨[1], [2], [3]⟩)))) = some s' ∧
        s'.clients true = .done (.ok (some c)) ∧ Holds s'.server certs' ∧ Registered s'.server certs'.caCert := by
  have hrun : (run (step plainLibraries webhookOptions fun _ => [agentSets]) newCluster bareReplica).any (fun s =>
      (s.server.webhook.map fun x => x.1.map ValidatingWebhook.caBundle) = some [[]] && saneCheck s.server) = true := by
    decide +kernel
  obtain ⟨s, hs, hprops⟩ := (Option.any_eq_true _ _).mp hrun
  rw [Bool.and_eq_true, decide_eq_true_eq] at hprops
  obtain ⟨-, -, -, hrepair⟩ := webhook_agreement plainLibraries webhookOptions (fun _ => [agentSets]) newCluster s bareReplica
    (fun _ => ⟨"", rfl⟩) rfl hs
  exact ⟨s, hs, hprops.1, hrepair true ⟨[1], [2], [3]⟩ (sane_of_check hprops.2) rfl⟩

end KynoMesh.Webhook
