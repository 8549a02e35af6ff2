import Mathlib.Logic.Function.Basic
import KynoMesh.Lib.Transition

/-!
# Clients of a shared server

A client is a program that calls a server and waits for each answer. Many clients share one server: their calls
interleave, a client may be started anew at any moment, and others may change the server as well.

* `Client A α`, `Client.call` : programs, as a monad; `Client.eval` : a run on its own;
* `Client.bindOk`, `Client.loop` : programs that stop at the first error; `Client.Agrees` : a run on its own does what a
  function of the server does;
* `Client.Safe` : what the calls of a client do to the server, and what it finds at its end, as long as the others keep
  to what it relies on; `Safe.of_rely`, `Safe.bind`, `Safe.invariant`, `Safe.mono`, `Safe.eval`, and `Safe.bindOk`,
  `Safe.loop` for what holds unless there is an error : its rules;
* `Clients`, `Clients.step` : the clients with their server;
* `Clients.Cooperate`, `Clients.safe_run_of_invariant`, `Clients.safe_run` : clients whose guarantees are what the others
  rely on are safe at every moment; `Clients.guarantee_run` : what all of their calls keep, a run keeps;
  `Clients.safe_begun` : the same for one client from where it stands, among others that do whatever it can rely on;
* `Clients.exists_run_eval` : a client that is let go on alone ends as it does on its own.
-/

namespace KynoMesh.Lib

variable {Q S F α β ε : Type} {A : Q → Type}

/-- A program that asks a server, which answers `q` with an `A q`. -/
inductive Client (A : Q → Type) (α : Type) : Type where
  | done (a : α)
  | ask (q : Q) (next : A q → Client A α)

namespace Client

def bind : Client A α → (α → Client A β) → Client A β
  | done a, f => f a
  | ask q next, f => ask q fun a => (next a).bind f

instance : Monad (Client A) where
  pure := done
  bind := bind

def call (q : Q) : Client A (A q) := ask q done

/-- The result of a client that has the server for itself. -/
def eval (serve : S → (q : Q) → A q × S) : Client A α → S → α × S
  | done a, s => (a, s)
  | ask q next, s => (next (serve s q).1).eval serve (serve s q).2

theorem eval_call_bind (serve : S → (q : Q) → A q × S) (q : Q) (f : A q → Client A β) (s : S) :
    ((call q).bind f).eval serve s = (f (serve s q).1).eval serve (serve s q).2 := rfl

theorem eval_bind (serve : S → (q : Q) → A q × S) (c : Client A α) (f : α → Client A β) (s : S) :
    (c.bind f).eval serve s = (f (c.eval serve s).1).eval serve (c.eval serve s).2 := by
  induction c generalizing s with
  | done a => rfl
  | ask q next ih => exact ih _ _

/-! ## Errors -/

/-- One after the other, unless the first one fails. -/
def bindOk (c : Client A (Except ε α)) (f : α → Client A (Except ε β)) : Client A (Except ε β) :=
  c.bind fun
    | .error e => done (.error e)
    | .ok a => f a

/-- A loop that stops at the first error. -/
def loop (f : β → α → Client A (Except ε β)) : List α → β → Client A (Except ε β)
  | [], b => done (.ok b)
  | a :: l, b => (f b a).bindOk (loop f l)

/-- With the server for itself, the client has the result `x`, with the server that comes with it. -/
def Agrees (serve : S → (q : Q) → A q × S) (c : Client A (Except ε α)) (s : S) (x : Except ε (α × S)) : Prop :=
  (c.eval serve s).1 = x.map Prod.fst ∧ ∀ a s', x = .ok (a, s') → (c.eval serve s).2 = s'

namespace Agrees
variable {serve : S → (q : Q) → A q × S} {s s' : S}

theorem ok (a : α) (s : S) : Agrees serve (done (.ok a) : Client A (Except ε α)) s (.ok (a, s)) :=
  ⟨rfl, fun _ _ h => (Prod.mk.inj (Except.ok.inj h)).2⟩

theorem error (e : ε) (s : S) : Agrees serve (done (.error e) : Client A (Except ε α)) s (.error e) :=
  ⟨rfl, fun _ _ h => by cases h⟩

theorem call {q : Q} {f : A q → Client A (Except ε β)} {y : Except ε (β × S)}
    (h : Agrees serve (f (serve s q).1) (serve s q).2 y) : Agrees serve ((Client.call q).bind f) s y := h

/-- `v` and `w` split the results on the right into those of the client and the server. -/
theorem bindOk {γ δ : Type} {c : Client A (Except ε α)} {f : α → Client A (Except ε β)} {v : γ → α × S} {w : δ → β × S}
    {x : Except ε γ} {y : γ → Except ε δ} (h : Agrees serve c s (x.map v))
    (hf : ∀ c, Agrees serve (f (v c).1) (v c).2 ((y c).map w)) : Agrees serve (c.bindOk f) s ((x >>= y).map w) := by
  unfold Agrees at h ⊢
  rw [Client.bindOk, eval_bind]
  obtain ⟨hres, hserver⟩ := h
  cases x with
  | error e =>
    rw [hres]
    exact ⟨rfl, fun _ _ h => by cases h⟩
  | ok c =>
    rw [hres, hserver (v c).1 (v c).2 rfl]
    exact hf c

theorem loop {γ : Type} {f : β → α → Client A (Except ε β)} {g : γ → α → Except ε γ} (v : γ → β × S)
    (h : ∀ c a, Agrees serve (f (v c).1 a) (v c).2 ((g c a).map v)) (l : List α) (c : γ) :
    Agrees serve (Client.loop f l (v c).1) (v c).2 ((l.foldlM g c).map v) := by
  induction l generalizing c with
  | nil => exact ok _ _
  | cons a l ih =>
    rw [List.foldlM_cons]
    exact (h c a).bindOk ih

end Agrees

/-! ## Rely and guarantee -/

section
variable (serve : F → S → (q : Q) → A q × S) (ok : F → S → Q → Prop) (rely guar : S → S → Prop)

/-- While the others change the server as `rely` allows, and it is served as `ok` allows: every call changes the server
as `guar` says, and `post` holds when the client is done. -/
def Safe (post : α → S → Prop) : Client A α → S → Prop
  | done a, s => ∀ s', rely s s' → post a s'
  | ask q next, s => ∀ s' f, rely s s' → ok f s' q →
    guar s' (serve f s' q).2 ∧ Safe post (next (serve f s' q).1) (serve f s' q).2

variable {serve ok rely guar} {post : α → S → Prop} {c : Client A α} {s s' : S}

/-- A client stays safe while the others are at work. -/
theorem Safe.of_rely (htrans : ∀ {s t u}, rely s t → rely t u → rely s u) (h : c.Safe serve ok rely guar post s)
    (hs : rely s s') : c.Safe serve ok rely guar post s' := by
  cases c with
  | done a => exact fun t ht => h t (htrans hs ht)
  | ask q next => exact fun t f ht => h t f (htrans hs ht)

theorem Safe.bind (hrefl : ∀ s, rely s s) {f : α → Client A β} {post' : β → S → Prop}
    (h : c.Safe serve ok rely guar (fun a s => (f a).Safe serve ok rely guar post' s) s) :
    (c.bind f).Safe serve ok rely guar post' s := by
  induction c generalizing s with
  | done a => exact h s (hrefl s)
  | ask q next ih => exact fun t r ht hok => ⟨(h t r ht hok).1, ih _ (h t r ht hok).2⟩

/-- What neither the others nor the calls of the client undo still holds at its end. -/
theorem Safe.invariant {P : S → Prop} (hrely : ∀ s s', P s → rely s s' → P s')
    (hguar : ∀ s s', P s → guar s s' → P s') (h : c.Safe serve ok rely guar post s) (hP : P s) :
    c.Safe serve ok rely guar (fun a s => post a s ∧ P s) s := by
  induction c generalizing s with
  | done a => exact fun t ht => ⟨h t ht, hrely s t hP ht⟩
  | ask q next ih =>
    intro t r ht hok
    obtain ⟨hg, hnext⟩ := h t r ht hok
    exact ⟨hg, ih _ hnext (hguar _ _ (hrely s t hP ht) hg)⟩

theorem Safe.mono {guar' : S → S → Prop} {post' : α → S → Prop} (h : c.Safe serve ok rely guar post s)
    (hguar : ∀ s s', guar s s' → guar' s s') (hpost : ∀ a s, post a s → post' a s) :
    c.Safe serve ok rely guar' post' s := by
  induction c generalizing s with
  | done a => exact fun t ht => hpost a t (h t ht)
  | ask q next ih => exact fun t r ht hok => ⟨hguar _ _ (h t r ht hok).1, ih _ (h t r ht hok).2⟩

theorem Safe.eval (hrefl : ∀ s, rely s s) {f : F} (hok : ∀ s q, ok f s q) (h : c.Safe serve ok rely guar post s) :
    post (c.eval (serve f) s).1 (c.eval (serve f) s).2 := by
  induction c generalizing s with
  | done a => exact h s (hrefl s)
  | ask q next ih => exact ih _ (h s f (hrefl s) (hok s q)).2

theorem Safe.error (e : ε) {P : α → S → Prop} (s : S) :
    (done (.error e) : Client A (Except ε α)).Safe serve ok rely guar (fun res s => ∀ a, res = .ok a → P a s) s :=
  fun _ _ _ h => by cases h

theorem Safe.bindOk (hrefl : ∀ s, rely s s) {c : Client A (Except ε α)} {f : α → Client A (Except ε β)}
    {P : β → S → Prop} (h : c.Safe serve ok rely guar (fun res s => ∀ a, res = .ok a →
      (f a).Safe serve ok rely guar (fun res s => ∀ b, res = .ok b → P b s) s) s) :
    (c.bindOk f).Safe serve ok rely guar (fun res s => ∀ b, res = .ok b → P b s) s := by
  refine Safe.bind hrefl (h.mono (fun _ _ hg => hg) fun res s hres => ?_)
  cases res with
  | error e => exact Safe.error e s
  | ok a => exact hres a rfl

/-- **The loop rule.** An invariant of the elements so far, the accumulator and the server, which the others keep. -/
theorem Safe.loop (hrefl : ∀ s, rely s s) {f : β → α → Client A (Except ε β)} {I : List α → β → S → Prop} {l : List α}
    (hrely : ∀ visited b s s', I visited b s → rely s s' → I visited b s')
    (hturn : ∀ visited a rest b s, l = visited ++ a :: rest → I visited b s →
      (f b a).Safe serve ok rely guar (fun res s => ∀ b', res = .ok b' → I (visited ++ [a]) b' s) s)
    {b : β} (hb : I [] b s) : (loop f l b).Safe serve ok rely guar (fun res s => ∀ c, res = .ok c → I l c s) s := by
  suffices hrest : ∀ rest visited b s, l = visited ++ rest → I visited b s →
      (Client.loop f rest b).Safe serve ok rely guar (fun res s => ∀ c, res = .ok c → I l c s) s from
    hrest l [] b s rfl hb
  intro rest
  induction rest with
  | nil =>
    intro visited b s hl hI s' hs' c hc
    obtain rfl := Except.ok.inj hc
    rw [hl, List.append_nil]
    exact hrely _ _ _ _ hI hs'
  | cons a rest ih =>
    intro visited b s hl hI
    refine Safe.bindOk hrefl ((hturn visited a rest b s hl hI).mono (fun _ _ hg => hg) ?_)
    intro res s hres b' hb'
    exact ih (visited ++ [a]) b' s (by simp [hl]) (hres b' hb')

end

end Client

/-! ## Many clients -/

/-- A server with its clients. -/
structure Clients (ι : Type) (A : Q → Type) (α S : Type) where
  server : S
  clients : ι → Client A α

namespace Clients
variable {ι W : Type} [DecidableEq ι]

inductive Event (ι F W : Type) where
  /-- Client `i` begins, whatever it was doing. -/
  | start (i : ι)
  /-- The next call of client `i`, served as `f` says. -/
  | call (i : ι) (f : F)
  /-- Somebody else changes the server. -/
  | other (w : W)

section
variable (serve : F → S → (q : Q) → A q × S) (prog : ι → Client A α) (env : W → S → S)

def step (s : Clients ι A α S) : Event ι F W → Option (Clients ι A α S)
  | .start i => some { s with clients := Function.update s.clients i (prog i) }
  | .call i f =>
    match s.clients i with
    | .done _ => none
    | .ask q next => some ⟨(serve f s.server q).2, Function.update s.clients i (next (serve f s.server q).1)⟩
  | .other w => some { s with server := env w s.server }

/-- Every call of a run is served as `ok` allows. -/
def Served (ok : F → S → Q → Prop) (s : Clients ι A α S) (e : Event ι F W) (_ : Clients ι A α S) : Prop :=
  ∀ i f q next, e = .call i f → s.clients i = .ask q next → ok f s.server q

variable {serve prog env} {s s' : Clients ι A α S} {e : Event ι F W}

theorem step_cases (h : step serve prog env s e = some s') :
    (∃ i, e = .start i ∧ s' = { s with clients := Function.update s.clients i (prog i) }) ∨
      (∃ i f q next, e = .call i f ∧ s.clients i = .ask q next ∧
        s' = ⟨(serve f s.server q).2, Function.update s.clients i (next (serve f s.server q).1)⟩) ∨
      ∃ w, e = .other w ∧ s' = { s with server := env w s.server } := by
  cases e with
  | start i => exact .inl ⟨i, rfl, (Option.some.inj h).symm⟩
  | call i f =>
    rw [step] at h
    cases hc : s.clients i with
    | done a => simp [hc] at h
    | ask q next =>
      simp only [hc] at h
      exact .inr (.inl ⟨i, f, q, next, rfl, hc, (Option.some.inj h).symm⟩)
  | other w => exact .inr (.inr ⟨w, rfl, (Option.some.inj h).symm⟩)

end

/-- Every client can rely on what the others guarantee. -/
structure Cooperate (rely guar : ι → S → S → Prop) (env : W → S → S) : Prop where
  refl : ∀ i s, rely i s s
  trans : ∀ i {s t u}, rely i s t → rely i t u → rely i s u
  others : ∀ i j, i ≠ j → ∀ s t, guar i s t → rely j s t
  env : ∀ w s j, rely j s (env w s)

section
variable {serve : F → S → (q : Q) → A q × S} {ok : F → S → Q → Prop} {prog : ι → Client A α} {env : W → S → S}
  {rely guar : ι → S → S → Prop} {post : ι → α → S → Prop} {s₀ s : Clients ι A α S} {es : List (Event ι F W)}

/-- **Cooperation.** Clients that are safe from wherever they begin, with an invariant of the server that they keep, are
safe at every moment of every run. -/
theorem safe_run_of_invariant (hco : Cooperate rely guar env) {J : S → Prop}
    (hguar : ∀ i s t, J s → guar i s t → J t) (henv : ∀ w s, J s → J (env w s))
    (hprog : ∀ i s, J s → (prog i).Safe serve ok (rely i) (guar i) (post i) s)
    (hstart : ∀ i, (s₀.clients i).Safe serve ok (rely i) (guar i) (post i) s₀.server) (hJ : J s₀.server)
    (hserved : EachStep (step serve prog env) (Served ok) s₀ es) (hr : run (step serve prog env) s₀ es = some s) :
    J s.server ∧ ∀ i, (s.clients i).Safe serve ok (rely i) (guar i) (post i) s.server := by
  refine run_invariant_of_eachStep (I := fun s : Clients ι A α S =>
    J s.server ∧ ∀ i, (s.clients i).Safe serve ok (rely i) (guar i) (post i) s.server) ?_ ⟨hJ, hstart⟩ hserved hr
  rintro s e s' ⟨hJ, hs⟩ hok hstep
  rcases step_cases hstep with ⟨i, -, rfl⟩ | ⟨i, f, q, next, rfl, hc, rfl⟩ | ⟨w, -, rfl⟩
  · refine ⟨hJ, fun j => ?_⟩
    by_cases hj : j = i
    · subst hj
      simpa only [Function.update_self] using hprog j s.server hJ
    · simpa only [Function.update_of_ne hj] using hs j
  · have hi := hs i
    rw [hc] at hi
    obtain ⟨hstep', hnext⟩ := hi s.server f (hco.refl i _) (hok i f q next rfl hc)
    refine ⟨hguar i _ _ hJ hstep', fun j => ?_⟩
    by_cases hj : j = i
    · subst hj
      simpa only [Function.update_self] using hnext
    · simp only [Function.update_of_ne hj]
      exact (hs j).of_rely (hco.trans j) (hco.others i j (Ne.symm hj) _ _ hstep')
  · exact ⟨henv w _ hJ, fun j => (hs j).of_rely (hco.trans j) (hco.env w _ j)⟩

theorem safe_run (hco : Cooperate rely guar env)
    (hprog : ∀ i s, (prog i).Safe serve ok (rely i) (guar i) (post i) s)
    (hstart : ∀ i, (s₀.clients i).Safe serve ok (rely i) (guar i) (post i) s₀.server)
    (hserved : EachStep (step serve prog env) (Served ok) s₀ es) (hr : run (step serve prog env) s₀ es = some s) (i : ι) :
    (s.clients i).Safe serve ok (rely i) (guar i) (post i) s.server :=
  (safe_run_of_invariant hco (J := fun _ => True) (fun _ _ _ _ _ => trivial) (fun _ _ _ => trivial)
    (fun i s _ => hprog i s) hstart trivial hserved hr).2 i

/-- A client that is not started anew stays safe, whatever the others ask and do. -/
theorem safe_begun {i : ι} {rely guar : S → S → Prop} {post : α → S → Prop}
    (htrans : ∀ {s t u}, rely s t → rely t u → rely s u) (hrefl : ∀ s, rely s s)
    (hothers : ∀ {s e s'}, step serve prog env s e = some s' → rely s.server s'.server)
    (hc : (s₀.clients i).Safe serve ok rely guar post s₀.server) (hes : .start i ∉ es)
    (hserved : EachStep (step serve prog env) (Served ok) s₀ es) (hr : run (step serve prog env) s₀ es = some s) :
    (s.clients i).Safe serve ok rely guar post s.server := by
  induction es generalizing s₀ with
  | nil =>
    obtain rfl := Option.some.inj hr
    exact hc
  | cons e es ih =>
    obtain ⟨s₁, hstep, hrest⟩ := run_cons.mp hr
    obtain ⟨hok, hserved'⟩ := (eachStep_cons hstep).mp hserved
    rw [List.mem_cons, not_or] at hes
    refine ih ?_ hes.2 hserved' hrest
    have hrely := hothers hstep
    rcases step_cases hstep with ⟨j, rfl, rfl⟩ | ⟨j, f, q, next, rfl, hj, rfl⟩ | ⟨w, -, rfl⟩
    · have hne : i ≠ j := fun h => hes.1 (h ▸ rfl)
      simpa only [Function.update_of_ne hne] using hc
    · by_cases hij : i = j
      · subst hij
        rw [hj] at hc
        simpa only [Function.update_self] using (hc s₀.server f (hrefl _) (hok i f q next rfl hj)).2
      · simp only [Function.update_of_ne hij]
        exact hc.of_rely htrans hrely
    · exact hc.of_rely htrans hrely

theorem guarantee_run (hco : Cooperate rely guar env) {R : S → S → Prop} (hrefl : ∀ s, R s s)
    (htrans : ∀ {s t u}, R s t → R t u → R s u) (hguar : ∀ i s t, guar i s t → R s t) (henv : ∀ w s, R s (env w s))
    (hprog : ∀ i s, (prog i).Safe serve ok (rely i) (guar i) (post i) s)
    (hstart : ∀ i, (s₀.clients i).Safe serve ok (rely i) (guar i) (post i) s₀.server)
    (hserved : EachStep (step serve prog env) (Served ok) s₀ es) (hr : run (step serve prog env) s₀ es = some s) :
    R s₀.server s.server := by
  induction es generalizing s₀ with
  | nil =>
    obtain rfl := Option.some.inj hr
    exact hrefl _
  | cons e es ih =>
    obtain ⟨s₁, hstep, hrest⟩ := run_cons.mp hr
    obtain ⟨hok, hserved'⟩ := (eachStep_cons hstep).mp hserved
    have hone : run (step serve prog env) s₀ [e] = some s₁ := run_cons.mpr ⟨s₁, hstep, rfl⟩
    have hserved₁ : EachStep (step serve prog env) (Served ok) s₀ [e] := (eachStep_cons hstep).mpr ⟨hok, trivial⟩
    have hsafe := safe_run hco hprog hstart hserved₁ hone
    refine htrans ?_ (ih hsafe hserved' hrest)
    rcases step_cases hstep with ⟨i, -, rfl⟩ | ⟨i, f, q, next, rfl, hc, rfl⟩ | ⟨w, -, rfl⟩
    · exact hrefl _
    · have hi := hstart i
      rw [hc] at hi
      exact hguar i _ _ (hi s₀.server f (hco.refl i _) (hok i f q next rfl hc)).1
    · exact henv w _

/-- A client whose calls are all served as `f` says, with nobody else at work. -/
theorem exists_run_eval (serve : F → S → (q : Q) → A q × S) (prog : ι → Client A α) (env : W → S → S) (f : F) (i : ι)
    (s : Clients ι A α S) :
    ∃ n s', run (step serve prog env) s (List.replicate n (.call i f)) = some s' ∧
      s'.clients i = .done ((s.clients i).eval (serve f) s.server).1 ∧
        s'.server = ((s.clients i).eval (serve f) s.server).2 := by
  generalize hc : s.clients i = c
  induction c generalizing s with
  | done a => exact ⟨0, s, rfl, hc, rfl⟩
  | ask q next ih =>
    have hstep : step serve prog env s (.call i f) =
        some ⟨(serve f s.server q).2, Function.update s.clients i (next (serve f s.server q).1)⟩ := by
      rw [step, hc]
    obtain ⟨n, s', hrun, hdone, hserver⟩ := ih (serve f s.server q).1
      ⟨(serve f s.server q).2, Function.update s.clients i (next (serve f s.server q).1)⟩ (Function.update_self ..)
    exact ⟨n + 1, s', run_cons.mpr ⟨_, hstep, hrun⟩, hdone, hserver⟩

end

end Clients

end KynoMesh.Lib
