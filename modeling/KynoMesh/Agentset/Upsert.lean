import KynoMesh.Agentset.Objects
import KynoMesh.Agentset.Services

/-!
# What the upserts come to

* `Settled` : the object under a key has the hash that is wanted;
* `upsert_safe` : an upsert settles its object, and leaves what is settled alone, as long as nobody else writes under
  the keys of its job;
* `services_settle` : the passes of all jobs, interleaved call by call, with failures and restarts at any point;
* `settle_iff` : the names with which the objects of an AgentSet and its children can come to rest at all.
-/

namespace KynoMesh.Objects

open KynoMesh.Lib KynoMesh.Api KynoMesh.Pods
open KynoMesh.Agentset

/-! ## Calls -/

/-- A read from the cache shows what the server has. -/
def Fresh (r : Reply) (s : Server) (q : Request) : Prop :=
  ∀ seen key, r = .cached seen → q = .get key → seen = s.objects.lookup key

section
variable {d : Defaulting} {r : Reply} {s s' : Server} {q : Request}

theorem serve_cases (h : Fresh r s q) : serve d r s q = execute d s q ∨
    ∃ m, (serve d r s q).1 = refusal m q ∧ ((serve d r s q).2 = s ∨ (serve d r s q).2 = (execute d s q).2) := by
  cases r with
  | served => exact .inl (by cases q <;> rfl)
  | refused m => exact .inr ⟨m, by cases q <;> exact ⟨rfl, .inl rfl⟩⟩
  | lost m => exact .inr ⟨m, by cases q <;> exact ⟨rfl, .inr rfl⟩⟩
  | cached seen =>
    left
    cases q with
    | get key =>
      obtain rfl := h seen key rfl rfl
      rfl
    | create o => rfl
    | delete key => rfl
    | event e => rfl

theorem execute_create (o : Object) (h : s.objects.lookup o.key = none) :
    execute d s (.create o) = (.ok (), { s with objects := s.objects.insert o.key (d.store o) }) := by
  simp only [execute, h]

theorem execute_delete {key : Key} {o : Object} (h : s.objects.lookup key = some o) :
    execute d s (.delete key) = (.ok (), { s with objects := s.objects.erase key }) := by
  simp only [execute, h]

end

/-! ## One upsert -/

/-- The same objects under the keys in `K`. -/
def Untouched (K : Key → Prop) (s s' : Server) : Prop := ∀ k, K k → s'.objects.lookup k = s.objects.lookup k

theorem Untouched.refl (K : Key → Prop) (s : Server) : Untouched K s s := fun _ _ => rfl

theorem Untouched.trans {K : Key → Prop} {s t u : Server} (h : Untouched K s t) (h' : Untouched K t u) :
    Untouched K s u := fun k hk => (h' k hk).trans (h k hk)

/-- The object that stands for `w` has the hash of `w`. -/
def Settled (mustHash : Spec → String) (s : Server) (w : Object) : Prop :=
  ∃ o, s.objects.lookup w.key = some o ∧ o.hash = mustHash w.spec

/-- Nobody else writes under the keys of `ws`. -/
def Rely (ws : List Object) : Server → Server → Prop := Untouched fun k => ∃ w ∈ ws, w.key = k

/-- Only what is wanted and not settled is written. -/
def Guarantee (mustHash : Spec → String) (ws : List Object) (s s' : Server) : Prop :=
  Untouched (fun k => ∀ w ∈ ws, w.key = k → Settled mustHash s w) s s'

section
variable {mustHash : Spec → String} {ws : List Object} {w : Object} {d : Defaulting} {s s' : Server}

theorem Settled.of_rely (h : Settled mustHash s w) (hw : w ∈ ws) (hr : Rely ws s s') : Settled mustHash s' w := by
  obtain ⟨o, ho, hhash⟩ := h
  exact ⟨o, (hr w.key ⟨w, hw, rfl⟩).trans ho, hhash⟩

/-- With distinct keys, what is settled stays so. -/
theorem Settled.of_guarantee (hnodup : (ws.map Object.key).Nodup) (hw : w ∈ ws) (h : Settled mustHash s w)
    (hg : Guarantee mustHash ws s s') : Settled mustHash s' w := by
  have hsame : s'.objects.lookup w.key = s.objects.lookup w.key := by
    refine hg w.key fun w' hw' hkey => ?_
    rwa [List.inj_on_of_nodup_map hnodup hw' hw hkey]
  obtain ⟨o, ho, hhash⟩ := h
  exact ⟨o, hsame.trans ho, hhash⟩

theorem guarantee_of_ne (hw : w ∈ ws) (hopen : ¬Settled mustHash s w)
    (h : ∀ k, k ≠ w.key → s'.objects.lookup k = s.objects.lookup k) : Guarantee mustHash ws s s' := by
  intro k hk
  refine h k ?_
  rintro rfl
  exact hopen (hk w hw rfl)

theorem guarantee_of_objects (h : s'.objects = s.objects) : Guarantee mustHash ws s s' := fun k _ => by rw [h]

theorem not_settled_of_none (h : s.objects.lookup w.key = none) : ¬Settled mustHash s w := by
  rintro ⟨o, ho, -⟩
  rw [h] at ho
  cases ho

theorem record_safe (event : Option Recorded) (hw : w ∈ ws) (h : Settled mustHash s w) :
    ((record event).bind fun _ => (.done (.ok ()) : Client Answer (Except String Unit))).Safe (serve d) Fresh (Rely ws)
      (Guarantee mustHash ws) (fun res s => res = .ok () → Settled mustHash s w) s := by
  cases event with
  | none => exact fun t ht _ => h.of_rely hw ht
  | some e =>
    intro t r ht hfresh
    have hobjects : (serve d r t (.event e)).2.objects = t.objects := by
      rcases serve_cases (d := d) hfresh with heq | ⟨m, -, heq | heq⟩
      · rw [heq]
        rfl
      · rw [heq]
      · rw [heq]
        rfl
    refine ⟨guarantee_of_objects hobjects, fun u hu _ => ?_⟩
    obtain ⟨o, ho, hhash⟩ := (h.of_rely hw ht)
    refine Settled.of_rely ?_ hw hu
    exact ⟨o, by rw [hobjects, ho], hhash⟩

theorem createAndRecord_safe (t : Texts) (verb : String) (event : Option Recorded) (hw : w ∈ ws)
    (hnone : s.objects.lookup w.key = none) :
    (createAndRecord t verb event (w.annotate (mustHash w.spec))).Safe (serve d) Fresh (Rely ws)
      (Guarantee mustHash ws) (fun res s => res = .ok () → Settled mustHash s w) s := by
  intro s' r hr hfresh
  have hnone' : s'.objects.lookup w.key = none := (hr w.key ⟨w, hw, rfl⟩).trans hnone
  have hexec := execute_create (d := d) (w.annotate (mustHash w.spec)) hnone'
  have hwrite : Guarantee mustHash ws s' (execute d s' (.create (w.annotate (mustHash w.spec)))).2 := by
    refine guarantee_of_ne hw (not_settled_of_none hnone') fun k hk => ?_
    rw [hexec]
    exact AList.lookup_insert_ne hk
  rcases serve_cases (d := d) hfresh with heq | ⟨m, hres, heq⟩
  · rw [heq]
    refine ⟨hwrite, ?_⟩
    rw [hexec]
    refine record_safe event hw ⟨d.store (w.annotate (mustHash w.spec)), AList.lookup_insert _, ?_⟩
    rw [d.hash, Object.hash_annotate]
  · rw [hres]
    refine ⟨?_, fun _ _ hok => by cases hok⟩
    rcases heq with heq | heq
    · rw [heq]
      exact Untouched.refl _ _
    · rw [heq]
      exact hwrite

/-- The object of another spec makes room for the wanted one. -/
theorem recreate_safe (t : Texts) (hw : w ∈ ws) {o : Object} (hlookup : s.objects.lookup w.key = some o)
    (hstale : o.hash ≠ mustHash w.spec) :
    (recreate t (w.annotate (mustHash w.spec))).Safe (serve d) Fresh (Rely ws) (Guarantee mustHash ws)
      (fun res s => res = .ok () → Settled mustHash s w) s := by
  intro s' r hr hfresh
  have hlookup' : s'.objects.lookup w.key = some o := (hr w.key ⟨w, hw, rfl⟩).trans hlookup
  have hexec : execute d s' (.delete (w.annotate (mustHash w.spec)).key) =
      (.ok (), { s' with objects := s'.objects.erase w.key }) := execute_delete hlookup'
  have hwrite : Guarantee mustHash ws s' { s' with objects := s'.objects.erase w.key } := by
    refine guarantee_of_ne hw ?_ fun k hk => AList.lookup_erase_ne hk
    rintro ⟨o', ho', hhash⟩
    rw [hlookup'] at ho'
    exact hstale (Option.some.inj ho' ▸ hhash)
  rcases serve_cases (d := d) hfresh with heq | ⟨m, hres, heq⟩
  · rw [heq, hexec]
    exact ⟨hwrite, createAndRecord_safe t "recreate" t.updated hw (AList.lookup_erase _ _)⟩
  · rw [hres]
    refine ⟨?_, fun _ _ hok => by cases hok⟩
    rcases heq with heq | heq
    · rw [heq]
      exact Untouched.refl _ _
    · rw [heq, hexec]
      exact hwrite

/-- **An upsert.** It writes only under its own key and only while that is not settled; when it ends well, it is. -/
theorem upsert_safe (t : Texts) (hw : w ∈ ws) (s : Server) :
    (upsert mustHash t w).Safe (serve d) Fresh (Rely ws) (Guarantee mustHash ws)
      (fun res s => res = .ok () → Settled mustHash s w) s := by
  intro s₁ r hr hfresh
  rcases serve_cases (d := d) hfresh with heq | ⟨m, hres, heq⟩
  · rw [heq]
    refine ⟨Untouched.refl _ _, ?_⟩
    cases hlookup : s₁.objects.lookup w.key with
    | none =>
      have hget : (execute d s₁ (.get w.key)).1 = .error .notFound := by rw [execute, hlookup]; rfl
      rw [Object.key_annotate, hget]
      exact createAndRecord_safe t "create" t.created hw hlookup
    | some o =>
      have hget : (execute d s₁ (.get w.key)).1 = .ok o := by rw [execute, hlookup]; rfl
      rw [Object.key_annotate, hget]
      change (if o.hash = mustHash w.spec then _ else recreate t (w.annotate (mustHash w.spec))).Safe _ _ _ _ _ s₁
      split_ifs with hhash
      · exact fun u hu _ => Settled.of_rely ⟨o, hlookup, hhash⟩ hw hu
      · exact recreate_safe t hw hlookup hhash
  · rw [hres]
    refine ⟨?_, fun _ _ hok => by cases hok⟩
    rcases heq with heq | heq <;> rw [heq] <;> exact Untouched.refl _ _

end

/-! ## The passes of a job -/

/-- A client that writes under the keys of `ws` only, and has settled `ws'` when it ends well. -/
def Settles (mustHash : Spec → String) (d : Defaulting) (ws ws' : List Object) (c : Client Answer (Except String Unit)) :
    Prop :=
  ∀ s, c.Safe (serve d) Fresh (Rely ws) (Guarantee mustHash ws)
    (fun res s => res = .ok () → ∀ w ∈ ws', Settled mustHash s w) s

section
variable {mustHash : Spec → String} {d : Defaulting} {ws ws₁ ws₂ : List Object}
  {c₁ c₂ : Client Answer (Except String Unit)}

theorem settles_error (e : String) : Settles mustHash d ws ws₁ (.done (.error e)) :=
  fun _ _ _ hok => by cases hok

theorem settles_upsert (t : Texts) {w : Object} (hw : w ∈ ws) : Settles mustHash d ws [w] (upsert mustHash t w) := by
  intro s
  refine (upsert_safe t hw s).mono (fun _ _ h => h) fun res s' hpost hok w' hw' => ?_
  rw [List.mem_singleton.mp hw']
  exact hpost hok

theorem settles_upsertBuilt {what : String} {build : Except String Object} {texts : Object → Texts}
    (hws : build.toOption.toList ⊆ ws) :
    Settles mustHash d ws build.toOption.toList (upsertBuilt mustHash what build texts) := by
  cases build with
  | error e => exact settles_error _
  | ok w => exact settles_upsert _ (hws (List.mem_singleton_self w))

theorem settles_andThen (hnodup : (ws.map Object.key).Nodup) (hsub : ws₁ ⊆ ws) (h₁ : Settles mustHash d ws ws₁ c₁)
    (h₂ : Settles mustHash d ws ws₂ c₂) : Settles mustHash d ws (ws₁ ++ ws₂) (andThen c₁ c₂) := by
  intro s
  refine Client.Safe.bind (fun s => Untouched.refl _ s) ?_
  refine (h₁ s).mono (fun _ _ h => h) fun res s' hpost => ?_
  cases res with
  | error e => exact settles_error e s'
  | ok u =>
    -- what the first has settled, neither the others nor the second undo
    have hfirst := (h₂ s').invariant (P := fun t => ∀ w ∈ ws₁, Settled mustHash t w)
      (fun _ _ h hr w hw => (h w hw).of_rely (hsub hw) hr)
      (fun _ _ h hg w hw => (h w hw).of_guarantee hnodup (hsub hw) hg) (hpost rfl)
    refine hfirst.mono (fun _ _ h => h) ?_
    rintro res t ⟨hpost₂, hfirst⟩ hok w hw
    rcases List.mem_append.mp hw with hw | hw
    · exact hfirst w hw
    · exact hpost₂ hok w hw

end

section
variable {b : Builder} {d : Defaulting} {as : AgentSet} {tmpl : Option DaemonTemplate} {o : Object}

theorem key_entryService (h : newEntryService b as = .ok o) :
    o.key = ⟨.service, as.metadata.nspace, as.entryServiceName⟩ := by
  obtain ⟨ref, -, h⟩ := bind_eq_ok.mp h
  rw [pure_eq_ok] at h
  rw [← h]
  rfl

theorem key_daemonDeployment (h : newDaemonDeployment b as tmpl = .ok o) :
    o.key = ⟨.deployment, as.metadata.nspace, as.daemonName⟩ := by
  obtain ⟨ref, -, h⟩ := bind_eq_ok.mp h
  rw [pure_eq_ok] at h
  rw [← h]
  rfl

theorem key_daemonService (h : newDaemonService b as = .ok o) :
    o.key = ⟨.service, as.metadata.nspace, as.daemonName⟩ := by
  obtain ⟨ref, -, h⟩ := bind_eq_ok.mp h
  rw [pure_eq_ok] at h
  rw [← h]
  rfl

theorem headlessServiceName_ne (ad : AgentDeploy) : ad.headlessServiceName ≠ ad.serviceName := by
  intro h
  have hlen := congrArg String.length h
  rw [AgentDeploy.headlessServiceName, AgentDeploy.serviceName, String.length_append] at hlen
  have : "-headless".length = 9 := rfl
  omega

/-- The objects of one job never share a key. -/
theorem nodup_wanted (b : Builder) (job : Job) : ((wanted b job).map Object.key).Nodup := by
  cases job with
  | deploy ad =>
    have hne : (newHeadlessService ad).key ≠ (newClusterIPService ad).key :=
      fun h => headlessServiceName_ne ad (congrArg Key.name h)
    simpa [wanted] using hne
  | set as tmpl =>
    have hnames : as.entryServiceName ≠ as.daemonName := by
      rw [AgentSet.entryServiceName, AgentSet.daemonName, Ne, String.append_right_inj]
      decide
    have hone : ∀ {build : Except String Object} {k : Key}, (∀ o, build = .ok o → o.key = k) →
        (build.toOption.toList.map Object.key).Sublist [k] := by
      intro build k hk
      cases build with
      | error e => exact List.nil_sublist _
      | ok o => simp [hk o rfl, Except.toOption]
    have hsub := (hone fun o (h : newEntryService b as = .ok o) => key_entryService h).append
      ((hone fun o (h : newDaemonDeployment b as tmpl = .ok o) => key_daemonDeployment h).append
        (hone fun o (h : newDaemonService b as = .ok o) => key_daemonService h))
    rw [wanted, List.map_append, List.map_append]
    refine hsub.nodup ?_
    simp [hnames]

theorem pass_settles (b : Builder) (d : Defaulting) (job : Job) :
    Settles b.mustHash d (wanted b job) (wanted b job) (pass b job) := by
  have hnodup := nodup_wanted b job
  cases job with
  | deploy ad =>
    have hhead : newHeadlessService ad ∈ wanted b (.deploy ad) := by simp [wanted]
    have hcluster : newClusterIPService ad ∈ wanted b (.deploy ad) := by simp [wanted]
    exact settles_andThen hnodup (by simpa using hhead) (settles_upsert _ hhead) (settles_upsert _ hcluster)
  | set as tmpl =>
    have hentry : (newEntryService b as).toOption.toList ⊆ wanted b (.set as tmpl) := List.subset_append_left _ _
    have hdaemon : (newDaemonDeployment b as tmpl).toOption.toList ++ (newDaemonService b as).toOption.toList ⊆
        wanted b (.set as tmpl) := List.subset_append_right _ _
    have hdeployment := List.append_subset.mp hdaemon |>.1
    have hservice := List.append_subset.mp hdaemon |>.2
    exact settles_andThen hnodup hentry (settles_upsertBuilt hentry)
      (settles_andThen hnodup hdeployment (settles_upsertBuilt hdeployment) (settles_upsertBuilt hservice))

end

/-! ## A pass on its own -/

section
variable {mustHash : Spec → String} {d : Defaulting} {s : Server} {w : Object}

theorem eval_createAndRecord (t : Texts) (verb : String) (event : Option Recorded) {o : Object}
    (h : s.objects.lookup o.key = none) :
    ((createAndRecord t verb event o).eval (serve d .served) s).1 = .ok () ∧
      ((createAndRecord t verb event o).eval (serve d .served) s).2.objects = s.objects.insert o.key (d.store o) := by
  have hserve : serve d .served s (.create o) = (.ok (), { s with objects := s.objects.insert o.key (d.store o) }) :=
    execute_create o h
  have heval : (createAndRecord t verb event o).eval (serve d .served) s =
      ((record event).bind fun _ => (.done (.ok ()) : Client Answer (Except String Unit))).eval (serve d .served)
        { s with objects := s.objects.insert o.key (d.store o) } := by
    refine (Client.eval_call_bind (serve d .served) (.create o) _ s).trans ?_
    rw [hserve]
    rfl
  rw [heval]
  cases event with
  | none => exact ⟨rfl, rfl⟩
  | some e => exact ⟨rfl, rfl⟩

theorem eval_recreate (t : Texts) {o old : Object} (h : s.objects.lookup o.key = some old) :
    ((recreate t o).eval (serve d .served) s).1 = .ok () ∧
      ((recreate t o).eval (serve d .served) s).2.objects = (s.objects.erase o.key).insert o.key (d.store o) := by
  have hserve : serve d .served s (.delete o.key) = (.ok (), { s with objects := s.objects.erase o.key }) :=
    execute_delete (d := d) h
  have heval : (recreate t o).eval (serve d .served) s =
      (createAndRecord t "recreate" t.updated o).eval (serve d .served) { s with objects := s.objects.erase o.key } := by
    refine (Client.eval_call_bind (serve d .served) (.delete o.key) _ s).trans ?_
    rw [hserve]
  rw [heval]
  exact eval_createAndRecord t _ _ (AList.lookup_erase _ _)

/-- An upsert that nobody disturbs does nothing if its object is settled, and puts it there otherwise. -/
theorem eval_upsert (mustHash : Spec → String) (d : Defaulting) (t : Texts) (w : Object) (s : Server) :
    (Settled mustHash s w ∧ (upsert mustHash t w).eval (serve d .served) s = (.ok (), s)) ∨
      (¬Settled mustHash s w ∧ ((upsert mustHash t w).eval (serve d .served) s).1 = .ok () ∧
        Settled mustHash ((upsert mustHash t w).eval (serve d .served) s).2 w ∧
        ∀ k, k ≠ w.key → ((upsert mustHash t w).eval (serve d .served) s).2.objects.lookup k = s.objects.lookup k) := by
  have hserve : serve d .served s (.get w.key) = (found (s.objects.lookup w.key), s) := rfl
  have hstored : (d.store (w.annotate (mustHash w.spec))).hash = mustHash w.spec := by
    rw [d.hash, Object.hash_annotate]
  cases hlookup : s.objects.lookup w.key with
  | none =>
    have heval : (upsert mustHash t w).eval (serve d .served) s =
        (createAndRecord t "create" t.created (w.annotate (mustHash w.spec))).eval (serve d .served) s := by
      refine (Client.eval_call_bind (serve d .served) (.get w.key) _ s).trans ?_
      rw [hserve, hlookup]
      rfl
    obtain ⟨hok, hobjects⟩ := eval_createAndRecord (d := d) t "create" t.created
      (show s.objects.lookup (w.annotate (mustHash w.spec)).key = none from hlookup)
    refine .inr ⟨not_settled_of_none hlookup, by rw [heval, hok], ?_, fun k hk => ?_⟩
    · exact ⟨_, by rw [heval, hobjects]; exact AList.lookup_insert _, hstored⟩
    · rw [heval, hobjects]
      exact AList.lookup_insert_ne hk
  | some o =>
    have heval : (upsert mustHash t w).eval (serve d .served) s =
        (if o.hash = mustHash w.spec then .done (.ok ()) else recreate t (w.annotate (mustHash w.spec)) :
          Client Answer (Except String Unit)).eval (serve d .served) s := by
      refine (Client.eval_call_bind (serve d .served) (.get w.key) _ s).trans ?_
      rw [hserve, hlookup]
      rfl
    by_cases hhash : o.hash = mustHash w.spec
    · rw [if_pos hhash] at heval
      exact .inl ⟨⟨o, hlookup, hhash⟩, heval⟩
    · rw [if_neg hhash] at heval
      obtain ⟨hok, hobjects⟩ := eval_recreate (d := d) t
        (show s.objects.lookup (w.annotate (mustHash w.spec)).key = some o from hlookup)
      refine .inr ⟨?_, by rw [heval, hok], ?_, fun k hk => ?_⟩
      · rintro ⟨o', ho', hhash'⟩
        rw [hlookup] at ho'
        exact hhash (Option.some.inj ho' ▸ hhash')
      · exact ⟨_, by rw [heval, hobjects]; exact AList.lookup_insert _, hstored⟩
      · rw [heval, hobjects]
        exact (AList.lookup_insert_ne hk).trans (AList.lookup_erase_ne hk)

end

/-- A client that, left alone, settles `ws` and ends well, does not write where it need not, and does nothing at all if
there is nothing to do. -/
structure Installs (mustHash : Spec → String) (d : Defaulting) (ws : List Object)
    (c : Client Answer (Except String Unit)) : Prop where
  ok : ∀ s, (c.eval (serve d .served) s).1 = .ok ()
  settled : ∀ s, ∀ w ∈ ws, Settled mustHash (c.eval (serve d .served) s).2 w
  writes : ∀ s, Guarantee mustHash ws s (c.eval (serve d .served) s).2
  quiet : ∀ s, (∀ w ∈ ws, Settled mustHash s w) → c.eval (serve d .served) s = (.ok (), s)

section
variable {mustHash : Spec → String} {d : Defaulting} {ws₁ ws₂ : List Object} {c₁ c₂ : Client Answer (Except String Unit)}

theorem installs_upsert (t : Texts) (w : Object) : Installs mustHash d [w] (upsert mustHash t w) where
  ok := fun s => by
    rcases eval_upsert mustHash d t w s with ⟨-, heq⟩ | ⟨-, hok, -⟩
    · rw [heq]
    · exact hok
  settled := fun s w' hw' => by
    rw [List.mem_singleton.mp hw']
    rcases eval_upsert mustHash d t w s with ⟨hset, heq⟩ | ⟨-, -, hset, -⟩
    · rwa [heq]
    · exact hset
  writes := fun s => by
    rcases eval_upsert mustHash d t w s with ⟨-, heq⟩ | ⟨hopen, -, -, hother⟩
    · rw [heq]
      exact Untouched.refl _ _
    · exact guarantee_of_ne (List.mem_singleton_self w) hopen hother
  quiet := fun s hs => by
    rcases eval_upsert mustHash d t w s with ⟨-, heq⟩ | ⟨hopen, -⟩
    · exact heq
    · exact absurd (hs w (List.mem_singleton_self w)) hopen

theorem installs_upsertBuilt {what : String} {build : Except String Object} {texts : Object → Texts} {w : Object}
    (h : build = .ok w) : Installs mustHash d [w] (upsertBuilt mustHash what build texts) := by
  rw [h]
  exact installs_upsert (texts w) w

theorem installs_andThen (hdisjoint : ∀ w ∈ ws₁, ∀ w' ∈ ws₂, w.key ≠ w'.key) (h₁ : Installs mustHash d ws₁ c₁)
    (h₂ : Installs mustHash d ws₂ c₂) : Installs mustHash d (ws₁ ++ ws₂) (andThen c₁ c₂) := by
  have heval : ∀ s, (andThen c₁ c₂).eval (serve d .served) s =
      c₂.eval (serve d .served) (c₁.eval (serve d .served) s).2 := by
    intro s
    refine (Client.eval_bind (serve d .served) c₁ _ s).trans ?_
    rw [h₁.ok s]
  refine ⟨fun s => ?_, fun s w hw => ?_, fun s k hk => ?_, fun s hs => ?_⟩
  · rw [heval, h₂.ok]
  · rw [heval]
    rcases List.mem_append.mp hw with hw | hw
    · -- the second does not write under the keys of the first
      obtain ⟨o, ho, hhash⟩ := h₁.settled s w hw
      refine ⟨o, ?_, hhash⟩
      rw [h₂.writes _ w.key fun w' hw' hkey => absurd hkey.symm (hdisjoint w hw w' hw'), ho]
    · exact h₂.settled _ w hw
  · rw [heval]
    have hfirst := h₁.writes s k fun w hw => hk w (List.mem_append_left _ hw)
    refine (h₂.writes _ k fun w hw hkey => ?_).trans hfirst
    obtain ⟨o, ho, hhash⟩ := hk w (List.mem_append_right _ hw) hkey
    exact ⟨o, by rw [hkey, hfirst, ← hkey, ho], hhash⟩
  · rw [heval, h₁.quiet s fun w hw => hs w (List.mem_append_left _ hw),
      h₂.quiet s fun w hw => hs w (List.mem_append_right _ hw)]

end

/-- The controller can refer to the owner of what it builds. -/
def Buildable (b : Builder) : Job → Prop
  | .deploy _ => True
  | .set as _ => ∃ ref, controllerReference b.set as = .ok ref

theorem daemonReference_of_controllerReference {b : Builder} {as : AgentSet} {ref : OwnerReference}
    (h : controllerReference b.set as = .ok ref) (what : String) : daemonReference b as what = .ok ref := by
  unfold controllerReference at h
  unfold daemonReference
  cases hscheme : b.set.scheme with
  | none => simpa only [hscheme] using h
  | some f =>
    cases href : f as with
    | error e => simp [hscheme, href] at h
    | ok ref' => simpa only [hscheme, href] using h

section
variable {b : Builder} {as : AgentSet} {tmpl : Option DaemonTemplate}

theorem build_entryService (h : Buildable b (.set as tmpl)) : ∃ o, newEntryService b as = .ok o := by
  obtain ⟨ref, href⟩ := h
  rw [newEntryService, href]
  exact ⟨_, rfl⟩

theorem build_daemonDeployment (h : Buildable b (.set as tmpl)) : ∃ o, newDaemonDeployment b as tmpl = .ok o := by
  obtain ⟨ref, href⟩ := h
  rw [newDaemonDeployment, daemonReference_of_controllerReference href]
  exact ⟨_, rfl⟩

theorem build_daemonService (h : Buildable b (.set as tmpl)) : ∃ o, newDaemonService b as = .ok o := by
  obtain ⟨ref, href⟩ := h
  rw [newDaemonService, daemonReference_of_controllerReference href]
  exact ⟨_, rfl⟩

end

theorem pass_installs {b : Builder} {job : Job} (d : Defaulting) (h : Buildable b job) :
    Installs b.mustHash d (wanted b job) (pass b job) := by
  have hnodup := nodup_wanted b job
  cases job with
  | deploy ad =>
    rw [wanted, List.map_cons, List.nodup_cons] at hnodup
    refine installs_andThen ?_ (installs_upsert _ (newHeadlessService ad)) (installs_upsert _ (newClusterIPService ad))
    intro w hw w' hw'
    rw [List.mem_singleton.mp hw, List.mem_singleton.mp hw']
    simpa using hnodup.1
  | set as tmpl =>
    obtain ⟨entry, hentry⟩ := build_entryService h
    obtain ⟨dep, hdep⟩ := build_daemonDeployment h
    obtain ⟨svc, hsvc⟩ := build_daemonService h
    have hwanted : wanted b (.set as tmpl) = [entry] ++ ([dep] ++ [svc]) := by
      rw [wanted, hentry, hdep, hsvc]
      rfl
    rw [hwanted] at hnodup ⊢
    simp only [List.cons_append, List.nil_append, List.map_cons, List.map_nil, List.nodup_cons, List.mem_cons,
      List.not_mem_nil, or_false, not_or] at hnodup
    refine installs_andThen ?_ (installs_upsertBuilt hentry)
      (installs_andThen ?_ (installs_upsertBuilt hdep) (installs_upsertBuilt hsvc))
    · simpa using hnodup.1
    · simpa using hnodup.2.1

/-! ## All jobs together -/

section
variable {ι W : Type}

/-- The API server with the workers of the two controllers, one for each job. -/
abbrev Cluster (ι : Type) := Clients ι Answer (Except String Unit) Server

/-- The passes of the jobs, call by call; `env` is what others do. -/
abbrev clusterStep [DecidableEq ι] (b : Builder) (d : Defaulting) (jobs : ι → Job) (env : W → Server → Server) :
    Cluster ι → Clients.Event ι Reply W → Option (Cluster ι) :=
  Clients.step (serve d) (fun i => pass b (jobs i)) env

/-- No two jobs want objects under one key. -/
def Distinct (b : Builder) (jobs : ι → Job) : Prop :=
  ∀ i j, i ≠ j → ∀ w ∈ wanted b (jobs i), ∀ w' ∈ wanted b (jobs j), w.key ≠ w'.key

/-- The others write under keys that no job wants. -/
def Elsewhere (b : Builder) (jobs : ι → Job) (env : W → Server → Server) : Prop :=
  ∀ o s, Untouched (fun k => ∃ i, ∃ w ∈ wanted b (jobs i), w.key = k) s (env o s)

variable {b : Builder} {d : Defaulting} {jobs : ι → Job} {env : W → Server → Server}

theorem cooperate (hdistinct : Distinct b jobs) (henv : Elsewhere b jobs env) :
    Clients.Cooperate (fun i => Rely (wanted b (jobs i))) (fun i => Guarantee b.mustHash (wanted b (jobs i))) env where
  refl := fun _ s => Untouched.refl _ s
  trans := fun _ _ _ _ h h' => h.trans h'
  others := by
    rintro i j hij s t hg k ⟨w', hw', rfl⟩
    exact hg w'.key fun w hw hkey => absurd hkey (hdistinct i j hij w hw w' hw')
  env := by
    rintro o s j k ⟨w, hw, rfl⟩
    exact henv o s w.key ⟨j, w, hw, rfl⟩

/-- The objects that are settled in `s` are the same ones in `t`. -/
def KeepsSettled (b : Builder) (jobs : ι → Job) (s t : Server) : Prop :=
  ∀ i, ∀ w ∈ wanted b (jobs i), Settled b.mustHash s w → t.objects.lookup w.key = s.objects.lookup w.key

theorem KeepsSettled.trans {s t u : Server} (h : KeepsSettled b jobs s t) (h' : KeepsSettled b jobs t u) :
    KeepsSettled b jobs s u := by
  intro i w hw hset
  have hsame := h i w hw hset
  obtain ⟨o, ho, hhash⟩ := hset
  exact (h' i w hw ⟨o, hsame.trans ho, hhash⟩).trans hsame

theorem keepsSettled_of_guarantee (hdistinct : Distinct b jobs) {i : ι} {s t : Server}
    (hg : Guarantee b.mustHash (wanted b (jobs i)) s t) : KeepsSettled b jobs s t := by
  intro j w hw hset
  refine hg w.key fun w' hw' hkey => ?_
  by_cases hij : i = j
  · subst hij
    rwa [List.inj_on_of_nodup_map (nodup_wanted b (jobs i)) hw' hw hkey]
  · exact absurd hkey (hdistinct i j hij w' hw' w hw)

end

/-- **The objects settle.** The passes of all jobs go on at the same time, call by call; calls are refused or lose their
answers, and passes begin anew at any point. As long as no two jobs want an object under one key, nobody else writes
there, and reads are not outdated: when the last pass of a job has ended well, its objects are settled; an object that is
settled is not written again; and whatever has happened, a pass that is let through ends well and settles its objects. -/
theorem services_settle {ι W : Type} [DecidableEq ι] (b : Builder) (d : Defaulting) (jobs : ι → Job)
    (hdistinct : Distinct b jobs) (env : W → Server → Server) (henv : Elsewhere b jobs env) (s₀ s₁ s₂ : Cluster ι)
    (es₁ es₂ : List (Clients.Event ι Reply W)) (hidle : ∀ i, ∃ e, s₀.clients i = .done (.error e))
    (hfresh₁ : EachStep (clusterStep b d jobs env) (Clients.Served Fresh) s₀ es₁)
    (hfresh₂ : EachStep (clusterStep b d jobs env) (Clients.Served Fresh) s₁ es₂)
    (hrun₁ : run (clusterStep b d jobs env) s₀ es₁ = some s₁) (hrun₂ : run (clusterStep b d jobs env) s₁ es₂ = some s₂)
    (i : ι) :
    (s₁.clients i = .done (.ok ()) → ∀ w ∈ wanted b (jobs i), Settled b.mustHash s₁.server w) ∧
      (∀ w ∈ wanted b (jobs i), Settled b.mustHash s₁.server w →
        s₂.server.objects.lookup w.key = s₁.server.objects.lookup w.key) ∧
      (Buildable b (jobs i) → ∃ n s₃, run (clusterStep b d jobs env) s₂
          (.start i :: List.replicate n (.call i .served)) = some s₃ ∧
        s₃.clients i = .done (.ok ()) ∧ ∀ w ∈ wanted b (jobs i), Settled b.mustHash s₃.server w) := by
  have hco := cooperate hdistinct henv
  have hprog : ∀ i s, (pass b (jobs i)).Safe (serve d) Fresh (Rely (wanted b (jobs i)))
      (Guarantee b.mustHash (wanted b (jobs i)))
      (fun res s => res = .ok () → ∀ w ∈ wanted b (jobs i), Settled b.mustHash s w) s :=
    fun i => pass_settles b d (jobs i)
  have hstart : ∀ i, (s₀.clients i).Safe (serve d) Fresh (Rely (wanted b (jobs i)))
      (Guarantee b.mustHash (wanted b (jobs i)))
      (fun res s => res = .ok () → ∀ w ∈ wanted b (jobs i), Settled b.mustHash s w) s₀.server := by
    intro i
    obtain ⟨e, he⟩ := hidle i
    rw [he]
    exact settles_error e _
  have hsafe := Clients.safe_run hco hprog hstart hfresh₁ hrun₁
  refine ⟨fun hdone => ?_, ?_, fun hbuild => ?_⟩
  · have hi := hsafe i
    rw [hdone] at hi
    exact hi s₁.server (Untouched.refl _ _) rfl
  · have hkeeps : KeepsSettled b jobs s₁.server s₂.server :=
      Clients.guarantee_run hco (R := KeepsSettled b jobs) (fun _ _ _ _ _ => rfl) KeepsSettled.trans
        (fun i s t => keepsSettled_of_guarantee hdistinct) (fun o s i w hw _ => henv o s w.key ⟨i, w, hw, rfl⟩) hprog hsafe
        hfresh₂ hrun₂
    exact hkeeps i
  · let s : Cluster ι := { s₂ with clients := Function.update s₂.clients i (pass b (jobs i)) }
    have hpass : s.clients i = pass b (jobs i) := Function.update_self ..
    obtain ⟨n, s₃, hrun, hdone, hserver⟩ :=
      Clients.exists_run_eval (serve d) (fun i => pass b (jobs i)) env Reply.served i s
    have hinstalls := pass_installs d hbuild
    rw [hpass] at hdone hserver
    refine ⟨n, s₃, run_cons.mpr ⟨s, rfl, hrun⟩, ?_, ?_⟩
    · rw [hdone, hinstalls.ok]
    · rw [hserver]
      exact hinstalls.settled _

/-- A client that does not read from a cache reads nothing outdated. -/
theorem fresh_of_uncached {ι W : Type} [DecidableEq ι] {b : Builder} {d : Defaulting} {jobs : ι → Job}
    {env : W → Server → Server} {s : Cluster ι} {es : List (Clients.Event ι Reply W)}
    (h : ∀ e ∈ es, ∀ i seen, e ≠ .call i (.cached seen)) :
    EachStep (clusterStep b d jobs env) (Clients.Served Fresh) s es := by
  induction es generalizing s with
  | nil => trivial
  | cons e es ih =>
    cases hs : clusterStep b d jobs env s e with
    | none => simp only [EachStep, hs]
    | some s' =>
      refine (eachStep_cons hs).mpr ⟨?_, ih fun e he => h e (List.mem_cons_of_mem _ he)⟩
      rintro i r q next rfl - seen key rfl -
      exact absurd rfl (h _ (List.mem_cons_self ..) i seen)

/-- A hash that tells the Services of one AgentSet apart. -/
def sketch : Spec → String
  | .service s => s.clusterIP ++ ",".intercalate (s.selector.entries.map Sigma.snd)
  | .deployment _ => "deployment"

def plainBuilder : Builder where
  set := { mustHash := fun _ => "" }
  settings := plainSettings
  setJSON := fun as => as.metadata.name
  mustHash := sketch

def storeAsIs : Defaulting := ⟨id, fun _ => rfl⟩

/-- The AgentDeploy of an agent `a`, and its AgentSet. -/
def twoJobs : Bool → Job
  | false => .deploy
    { metadata := { nspace := "default", name := "mesh-a" }
      spec := { agent := { name := "a" }, agentSetName := "mesh" } }
  | true => .set (pairSet "a" "b") none

/-- The first pass of the AgentSet fails at once, that of the AgentDeploy goes through around it. -/
def oneRefused : List (Clients.Event Bool Reply Empty) :=
  [.start false, .call false .served, .start true, .call true (.refused "timeout")] ++
    List.replicate 5 (.call false .served)

/-- The last pass has ended well. -/
def ended : Client Answer (Except String Unit) → Bool
  | .done (.ok ()) => true
  | _ => false

theorem eq_done_of_ended {c : Client Answer (Except String Unit)} (h : ended c = true) : c = .done (.ok ()) := by
  cases c with
  | done res =>
    cases res with
    | error e => cases h
    | ok u => rfl
  | ask q next => cases h

theorem services_settle_oneRefused :
    let idle : Cluster Bool := ⟨{ objects := ∅ }, fun _ => .done (.error "")⟩
    ∃ s, run (clusterStep plainBuilder storeAsIs twoJobs Empty.elim) idle oneRefused = some s ∧
      ∀ w ∈ wanted plainBuilder (twoJobs false), Settled sketch s.server w := by
  intro idle
  have hended : (run (clusterStep plainBuilder storeAsIs twoJobs Empty.elim) idle oneRefused).map
      (fun s => ended (s.clients false)) = some true := by decide +kernel
  obtain ⟨s, hs, hdone⟩ := Option.map_eq_some_iff.mp hended
  have hdistinct : Distinct plainBuilder twoJobs := by
    unfold Distinct
    decide +kernel
  have huncached : ∀ e ∈ oneRefused, ∀ i seen, e ≠ Clients.Event.call i (.cached seen) := by
    simp [oneRefused]
  have hsettle := services_settle plainBuilder storeAsIs twoJobs hdistinct Empty.elim (fun o => o.elim) idle s s
    oneRefused [] (fun _ => ⟨"", rfl⟩) (fresh_of_uncached huncached) trivial hs rfl false
  exact ⟨s, hs, hsettle.1 (eq_done_of_ended hdone)⟩

/-! ## Names in conflict -/

/-- The jobs of an AgentSet and of its children. -/
def jobsOf (as : AgentSet) (tmpl : Option DaemonTemplate) (children : List AgentDeploy) : List Job :=
  .set as tmpl :: children.map .deploy

/-- A pass that writes nothing. -/
def Quiet (b : Builder) (d : Defaulting) (s : Server) (job : Job) : Prop :=
  (pass b job).eval (serve d .served) s = (.ok (), s)

section
variable {b : Builder} {d : Defaulting} {s : Server} {job : Job}

theorem quiet_iff (h : Buildable b job) : Quiet b d s job ↔ ∀ w ∈ wanted b job, Settled b.mustHash s w := by
  have hinstalls := pass_installs d h
  refine ⟨fun hquiet w hw => ?_, hinstalls.quiet s⟩
  have hset := hinstalls.settled s w hw
  have heq : (pass b job).eval (serve d .served) s = (.ok (), s) := hquiet
  rwa [heq] at hset

end

section
variable {b : Builder} {as : AgentSet} {tmpl : Option DaemonTemplate} {children : List AgentDeploy}

theorem newAgentDeploy_nspace {a : AbstractAgentDeploy} {ad : AgentDeploy}
    (h : newAgentDeploy b.set as a = .ok ad) : ad.metadata.nspace = as.metadata.nspace := by
  obtain ⟨ref, -, h⟩ := bind_eq_ok.mp h
  rw [pure_eq_ok] at h
  rw [← h]

theorem wanted_set (h : Buildable b (.set as tmpl)) : ∃ entry dep svc, wanted b (.set as tmpl) = [entry, dep, svc] ∧
    entry.key = ⟨.service, as.metadata.nspace, as.entryServiceName⟩ ∧
    dep.key = ⟨.deployment, as.metadata.nspace, as.daemonName⟩ ∧
    svc.key = ⟨.service, as.metadata.nspace, as.daemonName⟩ := by
  obtain ⟨entry, hentry⟩ := build_entryService h
  obtain ⟨dep, hdep⟩ := build_daemonDeployment h
  obtain ⟨svc, hsvc⟩ := build_daemonService h
  refine ⟨entry, dep, svc, ?_, key_entryService hentry, key_daemonDeployment hdep, key_daemonService hsvc⟩
  rw [wanted, hentry, hdep, hsvc]
  rfl

/-- With distinct names of the Services, all objects of a set and its children have keys of their own. -/
theorem nodup_keys (hbuild : Buildable b (.set as tmpl)) (hns : ∀ ad ∈ children, ad.metadata.nspace = as.metadata.nspace)
    (hnames : (serviceNames as children).Nodup) :
    (((jobsOf as tmpl children).flatMap (wanted b)).map Object.key).Nodup := by
  obtain ⟨entry, dep, svc, hwanted, hentry, hdep, hsvc⟩ := wanted_set hbuild
  have hkeys : (children.flatMap fun ad => wanted b (.deploy ad)).map Object.key =
      (children.flatMap fun ad => [ad.headlessServiceName, ad.serviceName]).map (Key.mk .service as.metadata.nspace) := by
    rw [List.map_flatMap, List.map_flatMap]
    refine List.flatMap_congr fun ad had => ?_
    rw [← hns ad had]
    rfl
  have hperm : (children.flatMap fun ad => [ad.headlessServiceName, ad.serviceName]).Perm
      (children.flatMap fun ad => [ad.serviceName, ad.headlessServiceName]) :=
    List.Perm.flatMap_left _ fun ad _ => List.Perm.swap _ _ _
  have hinj : Function.Injective (Key.mk .service as.metadata.nspace) := fun _ _ h => congrArg Key.name h
  rw [serviceNames, List.nodup_cons, List.nodup_cons] at hnames
  obtain ⟨hin, hin', hchildren⟩ := hnames
  rw [jobsOf, List.flatMap_cons, List.map_append, List.flatMap_map, hkeys, hwanted]
  simp only [List.map_cons, List.map_nil, List.cons_append, List.nil_append, hentry, hdep, hsvc, List.nodup_cons]
  have hmem : ∀ name, (Key.mk .service as.metadata.nspace name ∈
      (children.flatMap fun ad => [ad.headlessServiceName, ad.serviceName]).map (Key.mk .service as.metadata.nspace)) →
      name ∈ children.flatMap fun ad => [ad.serviceName, ad.headlessServiceName] :=
    fun name h => hperm.mem_iff.mp ((List.mem_map_of_injective hinj).mp h)
  refine ⟨?_, ?_, fun h => hin' (hmem _ h), (List.nodup_map_iff hinj).mpr (hperm.nodup_iff.mpr hchildren)⟩
  · simp only [List.mem_cons, Key.mk.injEq, reduceCtorEq, false_and, true_and, false_or, not_or]
    exact ⟨fun h => hin (h ▸ List.mem_cons_self ..), fun h => hin (List.mem_cons_of_mem _ (hmem _ h))⟩
  · simp

/-- Where all keys are distinct, everything can be settled at once. -/
theorem exists_settled (mustHash : Spec → String) {ws : List Object}
    (hnodup : (ws.map Object.key).Nodup) : ∃ s : Server, ∀ w ∈ ws, Settled mustHash s w := by
  let stored := ws.map fun w => w.annotate (mustHash w.spec)
  have hkeys : stored.map Object.key = ws.map Object.key := by
    rw [List.map_map]
    rfl
  refine ⟨{ objects := collect Object.key stored }, fun w hw => ⟨w.annotate (mustHash w.spec), ?_, w.hash_annotate _⟩⟩
  have hinj : ∀ a ∈ stored, ∀ b ∈ stored, a.key = b.key → a = b :=
    fun a ha b hb => List.inj_on_of_nodup_map (hkeys ▸ hnodup) ha hb
  exact (lookup_collect_eq_some hinj).mpr ⟨List.mem_map_of_mem hw, rfl⟩

end

/-- **Conflicts.** The Services and the daemon of a valid AgentSet and its children can come to rest, in a state where no
pass of their controllers writes, exactly when no agent is called after the headless Service of another. Different
specs among the wanted ones have different hashes. -/
theorem settle_iff (c : Checks) (b : Builder) (d : Defaulting) (as : AgentSet) (tmpl : Option DaemonTemplate)
    (children : List AgentDeploy) (hvalid : validateAgentSet c as = .ok ()) (hbuild : Buildable b (.set as tmpl))
    (hchildren : as.spec.agents.mapM (newAgentDeploy b.set as) = .ok children)
    (hhash : ∀ w ∈ (jobsOf as tmpl children).flatMap (wanted b), ∀ w' ∈ (jobsOf as tmpl children).flatMap (wanted b),
      b.mustHash w.spec = b.mustHash w'.spec → w.spec = w'.spec) :
    (∃ s, ∀ job ∈ jobsOf as tmpl children, Quiet b d s job) ↔
      ∀ a ∈ as.spec.agents, ∀ a' ∈ as.spec.agents, a'.name ≠ a.name ++ "-headless" := by
  have hjobs : ∀ job ∈ jobsOf as tmpl children, Buildable b job := by
    intro job hjob
    rcases List.mem_cons.mp hjob with rfl | hjob
    · exact hbuild
    · obtain ⟨ad, -, rfl⟩ := List.mem_map.mp hjob
      trivial
  constructor
  · rintro ⟨s, hquiet⟩ a ha a' ha' hname
    -- the headless Service of the one and the ClusterIP Service of the other
    obtain ⟨ad, had, hnew⟩ := exists_of_mem_of_mapM hchildren ha
    obtain ⟨ad', had', hnew'⟩ := exists_of_mem_of_mapM hchildren ha'
    have hjob : ∀ {ad}, ad ∈ children → Job.deploy ad ∈ jobsOf as tmpl children :=
      fun had => List.mem_cons_of_mem _ (List.mem_map_of_mem had)
    have hhead : newHeadlessService ad ∈ wanted b (.deploy ad) := by simp [wanted]
    have hcluster : newClusterIPService ad' ∈ wanted b (.deploy ad') := by simp [wanted]
    obtain ⟨o, ho, heq⟩ := (quiet_iff (hjobs _ (hjob had))).mp (hquiet _ (hjob had)) _ hhead
    obtain ⟨o', ho', heq'⟩ := (quiet_iff (hjobs _ (hjob had'))).mp (hquiet _ (hjob had')) _ hcluster
    have hkey : (newHeadlessService ad).key = (newClusterIPService ad').key := by
      have hheadless : ad.headlessServiceName = ad'.serviceName := by
        rw [AgentDeploy.headlessServiceName, AgentDeploy.serviceName, newAgentDeploy_name hnew, newAgentDeploy_name hnew',
          hname, AgentSet.childAgentDeployName, AgentSet.childAgentDeployName, String.append_assoc]
      have hns := (newAgentDeploy_nspace hnew).trans (newAgentDeploy_nspace hnew').symm
      exact congrArg₂ (Key.mk .service) hns hheadless
    rw [hkey, ho'] at ho
    obtain rfl := Option.some.inj ho
    have hspec := hhash _ (List.mem_flatMap.mpr ⟨_, hjob had, hhead⟩) _ (List.mem_flatMap.mpr ⟨_, hjob had', hcluster⟩)
      (heq.symm.trans heq')
    simp [newHeadlessService, newClusterIPService] at hspec
  · intro hnames
    have hv := valid_of_validateAgentSet hvalid
    have hreserved : ∀ name, reservedAgentNames.lookup name ≠ none → name ∉ agentNames as :=
      fun name hname hmem => hname (hv.notReserved name hmem)
    have hnodup : (serviceNames as children).Nodup := by
      rw [serviceNames_eq hchildren, List.nodup_map_iff (childAgentDeployName_injective as),
        nodup_serviceSuffixes_iff (List.nodup_append.mp hv.nodup).1 (hreserved _ (by decide)) (hreserved _ (by decide))]
      simpa only [agentNames, List.forall_mem_map] using hnames
    have hns : ∀ ad ∈ children, ad.metadata.nspace = as.metadata.nspace := by
      intro ad had
      obtain ⟨a, -, hnew⟩ := exists_of_mem_mapM hchildren had
      exact newAgentDeploy_nspace hnew
    obtain ⟨s, hs⟩ := exists_settled b.mustHash (nodup_keys hbuild hns hnodup)
    exact ⟨s, fun job hjob => (quiet_iff (hjobs job hjob)).mpr fun w hw => hs w (List.mem_flatMap.mpr ⟨job, hjob, hw⟩)⟩

theorem settle_iff_pair : ∃ children s, (pairSet "a" "b").spec.agents.mapM
      (newAgentDeploy plainBuilder.set (pairSet "a" "b")) = .ok children ∧
    ∀ job ∈ jobsOf (pairSet "a" "b") none children, Quiet plainBuilder storeAsIs s job := by
  obtain ⟨children, hchildren⟩ : ∃ children, (pairSet "a" "b").spec.agents.mapM
      (newAgentDeploy plainBuilder.set (pairSet "a" "b")) = .ok children := ⟨_, rfl⟩
  have hnodup : (((jobsOf (pairSet "a" "b") none children).flatMap (wanted plainBuilder)).map
      fun w => sketch w.spec).Nodup := by
    obtain rfl := Except.ok.inj hchildren
    decide +kernel
  obtain ⟨s, hs⟩ := (settle_iff labelChecks plainBuilder storeAsIs (pairSet "a" "b") none children (by decide +kernel)
    ⟨_, rfl⟩ hchildren fun w hw w' hw' h => congrArg Object.spec (List.inj_on_of_nodup_map hnodup hw hw' h)).mpr
    (by decide +kernel)
  exact ⟨children, s, hchildren, hs⟩

end KynoMesh.Objects
