import Mathlib.Data.List.Forall2
import Vega.Lib.Prog

/-!
# Programs under interference

One sequential context executes programs access by access while an environment — interrupt
handlers, hardware — changes the store between the accesses.

`Machine` gives the runs: a list of events, each of which starts a call, performs the next access of
the call in progress, or lets the environment move. Nothing is assumed about the order of the
events. What a statement does assume is a *guard*, a condition on the event and the state before it
that may also mention the program point the interrupted call stands at.

`Prog.Safe` is the proof rule. `Safe E T I post p s` says that `p`, started in `s`, ends only in
results and states satisfying `post` and satisfies `I` at every program point, whatever environment
steps `E` allows at that point. It is defined by recursion on the program, so a proof follows the
program, one access after another. `Safe.access` is the rule for one access: choose an assertion
that holds, that the environment keeps, and that carries over the access.

`Machine.ok_exec` connects the two: if every call is safe from the states between calls and the
environment keeps those states, then every run satisfies both.
-/

open Relation

namespace Prog

variable {Λ Λ' σ τ α β γ : Type}

/-- `p` started in `s` satisfies `I` at all its program points and `post` when it ends, if between
its accesses the store changes only by steps of `E`, and the program itself takes only steps that
`T` admits. `E`, `T` and `I` are indexed by the label of the access that comes next. -/
def Safe (E : Λ → σ → σ → Prop) (T I : Λ → σ → Prop) (post : α → σ → Prop) :
    Prog Λ σ α → σ → Prop
  | ret a, s => post a s
  | step l upd next, s => ∀ s', ReflTransGen (E l) s s' →
      I l s' ∧ (T l s' → Safe E T I post (next s') (upd s'))
  | hang l, s => ∀ s', ReflTransGen (E l) s s' → I l s'

variable {E : Λ → σ → σ → Prop} {T I : Λ → σ → Prop} {post : α → σ → Prop}

@[simp] theorem safe_ret {a : α} {s : σ} : (ret a : Prog Λ σ α).Safe E T I post s ↔ post a s :=
  Iff.rfl

/-- An assertion that every environment step keeps is kept by any number of them. -/
theorem of_reflTransGen {R : σ → σ → Prop} {P : σ → Prop} (hP : ∀ s s', P s → R s s' → P s')
    {s s' : σ} (hs : P s) (h : ReflTransGen R s s') : P s' := by
  induction h with
  | refl => exact hs
  | tail _ hstep ih => exact hP _ _ ih hstep

namespace Safe

/-- **One access.** The assertion `P` holds before it, the environment keeps `P`, and from `P` the
rest of the program is safe after the access. -/
theorem access {P : σ → Prop} {l : Λ} {upd : σ → σ} {next : σ → Prog Λ σ α} {s : σ}
    (hP : ∀ s s', P s → E l s s' → P s') (hs : P s) (hI : ∀ s, P s → I l s)
    (h : ∀ s, P s → T l s → (next s).Safe E T I post (upd s)) :
    (step l upd next).Safe E T I post s :=
  fun s' hs' ↦
    have hP' := of_reflTransGen hP hs hs'
    ⟨hI s' hP', h s' hP'⟩

/-- `Safe.access` for an access that only reads. -/
theorem read {P : σ → Prop} {l : Λ} {f : σ → β} {k : β → Prog Λ σ α} {s : σ}
    (hP : ∀ s s', P s → E l s s' → P s') (hs : P s) (hI : ∀ s, P s → I l s)
    (h : ∀ s, P s → T l s → (k (f s)).Safe E T I post s) :
    (Prog.read l f >>= k).Safe E T I post s :=
  access hP hs hI h

/-- `Safe.access` for an access that only writes. -/
theorem write {P : σ → Prop} {l : Λ} {f : σ → σ} {k : Unit → Prog Λ σ α} {s : σ}
    (hP : ∀ s s', P s → E l s s' → P s') (hs : P s) (hI : ∀ s, P s → I l s)
    (h : ∀ s, P s → T l s → (k ()).Safe E T I post (f s)) :
    (Prog.write l f >>= k).Safe E T I post s :=
  access hP hs hI h

/-- `Safe.access` for an access that reads and then writes. -/
theorem fetch {P : σ → Prop} {l : Λ} {f : σ → β} {upd : σ → σ} {k : β → Prog Λ σ α} {s : σ}
    (hP : ∀ s s', P s → E l s s' → P s') (hs : P s) (hI : ∀ s, P s → I l s)
    (h : ∀ s, P s → T l s → (k (f s)).Safe E T I post (upd s)) :
    (Prog.fetch l f upd >>= k).Safe E T I post s :=
  access hP hs hI h

/-- A weaker postcondition. -/
theorem mono {post' : α → σ → Prop} {p : Prog Λ σ α} {s : σ} (hp : p.Safe E T I post s)
    (h : ∀ a s, post a s → post' a s) : p.Safe E T I post' s := by
  induction p generalizing s with
  | ret a => exact h a s hp
  | step l upd next ih => exact fun s' hs' ↦ ⟨(hp s' hs').1, fun ht ↦ ih s' ((hp s' hs').2 ht)⟩
  | hang l => exact hp

/-- `Safe.read` for a watched program. -/
theorem watch_read {P : σ → Prop} {l : Λ} {f : σ → β} {k : β → Prog Λ σ α} {s : σ} {seen : List σ}
    {post : α × List σ → σ → Prop}
    (hP : ∀ s s', P s → E l s s' → P s') (hs : P s) (hI : ∀ s, P s → I l s)
    (h : ∀ s, P s → T l s → ((k (f s)).watch (seen ++ [s])).Safe E T I post s) :
    ((Prog.read l f >>= k).watch seen).Safe E T I post s :=
  access hP hs hI h

/-- `Safe.write` for a watched program. -/
theorem watch_write {P : σ → Prop} {l : Λ} {f : σ → σ} {k : Unit → Prog Λ σ α} {s : σ}
    {seen : List σ} {post : α × List σ → σ → Prop}
    (hP : ∀ s s', P s → E l s s' → P s') (hs : P s) (hI : ∀ s, P s → I l s)
    (h : ∀ s, P s → T l s → ((k ()).watch (seen ++ [s])).Safe E T I post (f s)) :
    ((Prog.write l f >>= k).watch seen).Safe E T I post s :=
  access hP hs hI h

/-- What was seen before is among what a watched program returns. -/
theorem watch_subset {p : Prog Λ σ α} {seen : List σ} {post : α × List σ → σ → Prop} {s : σ}
    (hp : (p.watch seen).Safe E T I post s) :
    (p.watch seen).Safe E T I (fun r s ↦ post r s ∧ seen ⊆ r.2) s := by
  induction p generalizing seen s with
  | ret a => exact ⟨hp, List.Subset.refl seen⟩
  | step l upd next ih =>
    intro s' hs'
    refine ⟨(hp s' hs').1, fun ht ↦ (ih s' ((hp s' hs').2 ht)).mono fun r s hr ↦ ?_⟩
    exact ⟨hr.1, fun t hmem ↦ hr.2 (List.mem_append_left _ hmem)⟩
  | hang l => exact hp

/-- `Safe.read` for a program on a part of the store. -/
theorem on_read (Q : Part σ τ) {lab : Λ' → Λ} {P : σ → Prop} {l : Λ'} {f : τ → β}
    {k : β → Prog Λ' τ α} {s : σ}
    (hP : ∀ s s', P s → E (lab l) s s' → P s') (hs : P s) (hI : ∀ s, P s → I (lab l) s)
    (h : ∀ s, P s → T (lab l) s → ((k (f (Q.get s))).on Q lab).Safe E T I post s) :
    ((Prog.read l f >>= k).on Q lab).Safe E T I post s := by
  refine access hP hs hI fun s hs ht ↦ ?_
  have hset : Q.set (id (Q.get s)) s = s := Q.set_get s
  rw [hset]
  exact h s hs ht

/-- `Safe.write` for a program on a part of the store. -/
theorem on_write (Q : Part σ τ) {lab : Λ' → Λ} {P : σ → Prop} {l : Λ'} {f : τ → τ}
    {k : Unit → Prog Λ' τ α} {s : σ}
    (hP : ∀ s s', P s → E (lab l) s s' → P s') (hs : P s) (hI : ∀ s, P s → I (lab l) s)
    (h : ∀ s, P s → T (lab l) s → ((k ()).on Q lab).Safe E T I post (Q.set (f (Q.get s)) s)) :
    ((Prog.write l f >>= k).on Q lab).Safe E T I post s :=
  access hP hs hI h

/-- Sequencing: the second program is safe from what the first one leaves. -/
theorem bind {p : Prog Λ σ α} {f : α → Prog Λ σ β} {post : β → σ → Prop} {s : σ}
    (hp : p.Safe E T I (fun a s ↦ (f a).Safe E T I post s) s) :
    (p >>= f).Safe E T I post s := by
  induction p generalizing s with
  | ret a => exact hp
  | step l upd next ih => exact fun s' hs' ↦ ⟨(hp s' hs').1, fun ht ↦ ih s' ((hp s' hs').2 ht)⟩
  | hang l => exact hp

/-- A program that keeps `f` is safe for an invariant that is one of `f` and of what the environment
does. -/
theorem of_keeps {Q : Λ → Prop} {f : σ → γ} {P : σ → Prop}
    (hP : ∀ l s s', Q l → P s → E l s s' → P s') (hf : ∀ s s', P s → f s' = f s → P s')
    (hI : ∀ l s, P s → I l s) {p : Prog Λ σ α} (hp : p.Keeps Q f) {s : σ} (hs : P s) : p.Safe E T I (fun _ s ↦ P s) s := by
  induction p generalizing s with
  | ret a => exact hs
  | step l upd next ih =>
    refine access (fun s s' ↦ hP l s s' hp.1) hs (hI l) fun s hs _ ↦ ?_
    exact ih s (hp.2.2 s) (hf s _ hs (hp.2.1 s))
  | hang l => exact fun s' hs' ↦ hI l s' (of_reflTransGen (fun s s' ↦ hP l s s' hp) hs hs')

/-- **Running undisturbed.** While the environment leaves a part of the store alone, a program on
that part runs on it as it does alone. `K` is what else there is to know, and does not depend on the
part; `F` is what holds of the part throughout. -/
theorem undisturbed (P : Part σ τ) {lab : Λ' → Λ} {F : τ → Prop} {K : σ → Prop}
    (hE : ∀ l s s', K s → F (P.get s) → E (lab l) s s' → K s' ∧ P.get s' = P.get s)
    (hK : ∀ t s, K s → K (P.set t s)) (hI : ∀ l s, K s → F (P.get s) → I (lab l) s)
    {f : τ → γ} (hF : ∀ t t', F t → f t' = f t → F t') {q : Prog Λ' τ α}
    (hq : q.Keeps (fun _ ↦ True) f)
    {s : σ} (hs : K s) (ht : F (P.get s))
    (hpost : ∀ a t, q.run (P.get s) = some (a, t) → F t → ∀ s', K s' → P.get s' = t → post a s') :
    (q.on P lab).Safe E T I post s := by
  have hkeep : ∀ t₀, F t₀ → ∀ l s₁ s₂, K s₁ ∧ P.get s₁ = t₀ → E (lab l) s₁ s₂ →
      K s₂ ∧ P.get s₂ = t₀ := by
    intro t₀ ht₀ l s₁ s₂ ⟨hs₁, hget⟩ hs₂
    have h := hE l s₁ s₂ hs₁ (hget ▸ ht₀) hs₂
    exact ⟨h.1, h.2.trans hget⟩
  induction q generalizing s with
  | ret a => exact hpost a _ rfl ht s hs rfl
  | step l upd next ih =>
    refine access (P := fun s' ↦ K s' ∧ P.get s' = P.get s) (hkeep _ ht _) ⟨hs, rfl⟩ ?_ ?_
    · intro s₁ ⟨hs₁, hget⟩
      exact hI _ s₁ hs₁ (hget ▸ ht)
    · intro s₁ ⟨hs₁, hget⟩ _
      have hF' : F (upd (P.get s₁)) := hF _ _ (hget ▸ ht) (hq.2.1 _)
      refine ih (P.get s₁) (hq.2.2 _) (hK _ s₁ hs₁) (by rwa [P.get_set]) fun a t hrun ↦ ?_
      rw [P.get_set, hget] at hrun
      exact hpost a t hrun
  | hang l =>
    intro s' hs'
    obtain ⟨hs₁, hget⟩ := of_reflTransGen (hkeep _ ht _) ⟨hs, rfl⟩ hs'
    exact hI _ s' hs₁ (hget ▸ ht)

/-- Environment steps before the first access do not matter. -/
theorem of_env {l : Λ} {upd : σ → σ} {next : σ → Prog Λ σ α} {s s' : σ}
    (hp : (step l upd next).Safe E T I post s) (h : E l s s') :
    (step l upd next).Safe E T I post s' :=
  fun s'' hs'' ↦ hp s'' (.head h hs'')

end Safe

end Prog

/-! ### Machines -/

/-- What happens next in a run: the context makes a call, performs one access of the call it is in,
or the environment moves. -/
inductive Event (κ ε : Type)
  | call (k : κ)
  | tick
  | env (e : ε)

/-- A context that makes calls of type `κ` with results in `ρ`, and an environment with
moves `ε`. -/
structure Machine (Λ σ κ ρ ε : Type) where
  /-- The program a call executes. -/
  start : κ → Prog Λ σ ρ
  /-- The effect of an environment move on the store. -/
  env : ε → σ → σ

namespace Machine

variable {Λ σ κ ρ ε α γ : Type}

/-- The state of a run: the store, the call in progress with what is left of its program, and the
calls that have returned, oldest first. -/
structure Config (Λ σ κ ρ : Type) where
  /-- The shared store. -/
  mem : σ
  /-- The call in progress. -/
  cur : Option (κ × Prog Λ σ ρ)
  /-- The calls that have returned, with their results. -/
  done : List (κ × ρ)

/-- No call in progress, nothing called yet. -/
def Config.initial (s : σ) : Config Λ σ κ ρ := ⟨s, none, []⟩

/-- The label of the access the call in progress performs next; `none` between calls. -/
def Config.point (c : Config Λ σ κ ρ) : Option Λ :=
  match c.cur with
  | some (_, .step l _ _) => some l
  | some (_, .hang l) => some l
  | _ => none

/-- Go on with the program `p` of the call `k`, or record its result if it has ended. -/
def resume (k : κ) (s : σ) (done : List (κ × ρ)) : Prog Λ σ ρ → Config Λ σ κ ρ
  | .ret a => ⟨s, none, done ++ [(k, a)]⟩
  | p => ⟨s, some (k, p), done⟩

/-- A call that goes on has not touched the store. -/
@[simp] theorem mem_resume (k : κ) (s : σ) (done : List (κ × ρ)) (p : Prog Λ σ ρ) :
    (resume k s done p).mem = s := by
  cases p <;> rfl

variable (M : Machine Λ σ κ ρ ε)

/-- One event. A call is ignored while another one is in progress: there is one context. -/
def step (c : Config Λ σ κ ρ) : Event κ ε → Config Λ σ κ ρ
  | .call k =>
    match c.cur with
    | none => resume k c.mem c.done (M.start k)
    | some _ => c
  | .tick =>
    match c.cur with
    | some (k, .step _ upd next) => resume k (upd c.mem) c.done (next c.mem)
    | _ => c
  | .env e => { c with mem := M.env e c.mem }

/-- A run. -/
def exec (c : Config Λ σ κ ρ) (evs : List (Event κ ε)) : Config Λ σ κ ρ :=
  evs.foldl M.step c

@[simp] theorem exec_nil (c : Config Λ σ κ ρ) : M.exec c [] = c := rfl

/-- A run goes on from its first event. -/
@[simp] theorem exec_cons (c : Config Λ σ κ ρ) (e : Event κ ε) (evs : List (Event κ ε)) :
    M.exec c (e :: evs) = M.exec (M.step c e) evs := rfl

/-- The environment's moves of a run, each with the store it was made in. -/
def moves (M : Machine Λ σ κ ρ ε) : Config Λ σ κ ρ → List (Event κ ε) → List (ε × σ)
  | _, [] => []
  | c, .env e :: evs => (e, c.mem) :: moves M (M.step c (.env e)) evs
  | c, .call k :: evs => moves M (M.step c (.call k)) evs
  | c, .tick :: evs => moves M (M.step c .tick) evs

/-- A condition on an event, the program point it comes at and the store before it. -/
abbrev Guard (Λ σ κ ε : Type) := Option Λ → σ → Event κ ε → Prop

/-- Only some of the calls and some of the environment's moves happen, at any time. -/
def Only (calls : κ → Bool) (moves : ε → Bool) : Guard Λ σ κ ε
  | _, _, .call k => calls k
  | _, _, .env e => moves e
  | _, _, .tick => True

instance (calls : κ → Bool) (moves : ε → Bool) (l : Option Λ) (s : σ) (e : Event κ ε) :
    Decidable (Only calls moves l s e) :=
  match e with
  | .call k => inferInstanceAs (Decidable (calls k = true))
  | .env e => inferInstanceAs (Decidable (moves e = true))
  | .tick => inferInstanceAs (Decidable True)

/-- Every step of the run meets the guard. -/
def Admits (M : Machine Λ σ κ ρ ε) (G : Guard Λ σ κ ε) :
    Config Λ σ κ ρ → List (Event κ ε) → Prop
  | _, [] => True
  | c, e :: evs => G c.point c.mem e ∧ Admits M G (M.step c e) evs

/-- Whether a given run meets a decidable guard is decidable: small runs are checked by
evaluation. -/
def decidableAdmits (G : Guard Λ σ κ ε) [∀ l s e, Decidable (G l s e)] :
    ∀ (c : Config Λ σ κ ρ) (evs : List (Event κ ε)), Decidable (M.Admits G c evs)
  | _, [] => .isTrue trivial
  | c, e :: evs =>
    have := decidableAdmits G (M.step c e) evs
    inferInstanceAs (Decidable (G c.point c.mem e ∧ M.Admits G (M.step c e) evs))

instance (G : Guard Λ σ κ ε) [∀ l s e, Decidable (G l s e)] (c : Config Λ σ κ ρ)
    (evs : List (Event κ ε)) : Decidable (M.Admits G c evs) :=
  M.decidableAdmits G c evs

/-- A run that meets the guard leads from the one configuration to the other. -/
def Reaches (G : Guard Λ σ κ ε) (c c' : Config Λ σ κ ρ) : Prop :=
  ∃ evs, M.Admits G c evs ∧ M.exec c evs = c'

section

variable {M} {G G' : Guard Λ σ κ ε} {c c' : Config Λ σ κ ρ}

/-- A run that meets a guard meets every weaker one. -/
theorem Admits.mono (h : ∀ l s e, G l s e → G' l s e) {evs : List (Event κ ε)}
    (hevs : M.Admits G c evs) : M.Admits G' c evs := by
  induction evs generalizing c with
  | nil => trivial
  | cons e evs ih => exact ⟨h _ _ _ hevs.1, ih hevs.2⟩

/-- A run that meets two guards meets both at once. -/
theorem Admits.and {evs : List (Event κ ε)} (hevs : M.Admits G c evs) (hevs' : M.Admits G' c evs) :
    M.Admits (fun l s e ↦ G l s e ∧ G' l s e) c evs := by
  induction evs generalizing c with
  | nil => trivial
  | cons e evs ih => exact ⟨⟨hevs.1, hevs'.1⟩, ih hevs.2 hevs'.2⟩

/-- A run under a guard is one under any weaker guard. -/
theorem Reaches.mono (h : ∀ l s e, G l s e → G' l s e) (hc : M.Reaches G c c') :
    M.Reaches G' c c' := by
  obtain ⟨evs, hevs, rfl⟩ := hc
  exact ⟨evs, hevs.mono h, rfl⟩

end

/-! ### Soundness -/

/-- The environment steps that a guard admits at a program point. -/
def Interferes (G : Guard Λ σ κ ε) (l : Λ) (s s' : σ) : Prop :=
  ∃ e, G (some l) s (.env e) ∧ s' = M.env e s

variable (G : Guard Λ σ κ ε) (J : σ → List (κ × ρ) → Prop)
  (I : κ → Λ → σ → List (κ × ρ) → Prop)

/-- A call is safe: at its program points it satisfies `I`, and it ends in `J` with its result
recorded. -/
def CallSafe (k : κ) (done : List (κ × ρ)) (p : Prog Λ σ ρ) (s : σ) : Prop :=
  p.Safe (M.Interferes G) (fun l s ↦ G (some l) s .tick) (fun l s ↦ I k l s done)
    (fun a s ↦ J s (done ++ [(k, a)])) s

/-- Between calls `J` holds; during a call, the rest of it is safe. -/
def Ok (c : Config Λ σ κ ρ) : Prop :=
  match c.cur with
  | none => J c.mem c.done
  | some (_, .ret _) => False
  | some (k, p) => M.CallSafe G J I k c.done p c.mem

variable {M G J I}

/-- A call in progress whose rest is safe, or one that returns as it should. -/
theorem ok_resume {k : κ} {s : σ} {done : List (κ × ρ)} {p : Prog Λ σ ρ}
    (h : M.CallSafe G J I k done p s) : M.Ok G J I (resume k s done p) := by
  cases p with
  | ret a => exact h
  | step l upd next => exact h
  | hang l => exact h

/-- One admitted event keeps `Ok`. -/
theorem ok_step (hcall : ∀ s done k, J s done → G none s (.call k) →
      M.CallSafe G J I k done (M.start k) s)
    (henv : ∀ s done e, J s done → G none s (.env e) → J (M.env e s) done)
    {c : Config Λ σ κ ρ} (hc : M.Ok G J I c) {e : Event κ ε} (he : G c.point c.mem e) :
    M.Ok G J I (M.step c e) := by
  obtain ⟨s, cur, done⟩ := c
  cases cur with
  | none =>
    cases e with
    | call k => exact ok_resume (hcall s done k hc he)
    | tick => exact hc
    | env e => exact henv s done e hc he
  | some kp =>
    obtain ⟨k, p⟩ := kp
    cases e with
    | call k => exact hc
    | tick =>
      cases p with
      | ret a => exact hc.elim
      | step l upd next =>
        have hp : M.CallSafe G J I k done (.step l upd next) s := hc
        exact ok_resume ((hp s .refl).2 he)
      | hang l => exact hc
    | env e =>
      cases p with
      | ret a => exact hc.elim
      | step l upd next =>
        have hp : M.CallSafe G J I k done (.step l upd next) s := hc
        exact Prog.Safe.of_env hp ⟨e, he, rfl⟩
      | hang l => exact fun s' hs' ↦ hc s' (.head ⟨e, he, rfl⟩ hs')

/-- **Runs.** If every call is safe from the states between calls, and the admitted environment
steps keep those states, then every admitted run from such a state satisfies both throughout. -/
theorem ok_exec (hcall : ∀ s done k, J s done → G none s (.call k) →
      M.CallSafe G J I k done (M.start k) s)
    (henv : ∀ s done e, J s done → G none s (.env e) → J (M.env e s) done)
    {c : Config Λ σ κ ρ} (hc : M.Ok G J I c) {evs : List (Event κ ε)} (hevs : M.Admits G c evs) :
    M.Ok G J I (M.exec c evs) := by
  induction evs generalizing c with
  | nil => exact hc
  | cons e evs ih => exact ih (ok_step hcall henv hc hevs.1) hevs.2

/-- **The invariant rule for machines.** If every call is safe, and every move of the environment
between calls keeps what holds there, then this is so in every state that is reached. -/
theorem ok_of_reaches (hcall : ∀ s done k, J s done → G none s (.call k) →
      M.CallSafe G J I k done (M.start k) s)
    (henv : ∀ s done e, J s done → G none s (.env e) → J (M.env e s) done)
    {c c' : Config Λ σ κ ρ} (hc : M.Ok G J I c) (h : M.Reaches G c c') : M.Ok G J I c' := by
  obtain ⟨evs, hevs, rfl⟩ := h
  exact ok_exec hcall henv hc hevs

/-- What holds between calls and at every program point holds throughout. -/
theorem Ok.elim {Q : σ → List (κ × ρ) → Prop} {c : Config Λ σ κ ρ} (h : M.Ok G J I c)
    (hJ : ∀ s done, J s done → Q s done) (hI : ∀ k l s done, I k l s done → Q s done) :
    Q c.mem c.done := by
  obtain ⟨s, cur, done⟩ := c
  cases cur with
  | none => exact hJ s done h
  | some kp =>
    obtain ⟨k, p⟩ := kp
    cases p with
    | ret a => exact False.elim h
    | step l upd next =>
      have hp : M.CallSafe G J I k done (.step l upd next) s := h
      exact hI k l s done (hp s .refl).1
    | hang l =>
      have hp : M.CallSafe G J I k done (.hang l) s := h
      exact hI k l s done (hp s .refl)

/-- Between calls, what holds there. -/
theorem Ok.of_idle {c : Config Λ σ κ ρ} (h : M.Ok G J I c) (hc : c.cur = none) :
    J c.mem c.done := by
  rwa [Ok, hc] at h

/-- What holds of a move that the environment makes between calls, and of one that it makes at any
program point, holds of every move. -/
theorem Ok.env_move {Q : ε → σ → Prop} {c : Config Λ σ κ ρ} (h : M.Ok G J I c)
    (hidle : ∀ s done e, J s done → G none s (.env e) → Q e s)
    (hpoint : ∀ k l s done e, I k l s done → G (some l) s (.env e) → Q e s) {e : ε}
    (he : G c.point c.mem (.env e)) : Q e c.mem := by
  obtain ⟨s, cur, done⟩ := c
  rcases cur with _ | ⟨k, p⟩
  · exact hidle s done e h he
  · cases p with
    | ret a => exact False.elim h
    | step l upd next =>
      have hp : M.CallSafe G J I k done (.step l upd next) s := h
      exact hpoint k l s done e (hp s .refl).1 he
    | hang l =>
      have hp : M.CallSafe G J I k done (.hang l) s := h
      exact hpoint k l s done e (hp s .refl) he

/-! ### What the environment has done -/

/-- The call in progress leaves `f` alone. -/
def Config.Keeping (f : σ → γ) (c : Config Λ σ κ ρ) : Prop :=
  ∀ k p, c.cur = some (k, p) → p.Keeps (fun _ ↦ True) f

/-- A call whose program keeps `f`. -/
theorem keeping_resume {f : σ → γ} {k : κ} {s : σ} {done : List (κ × ρ)} {p : Prog Λ σ ρ}
    (h : p.Keeps (fun _ ↦ True) f) : (resume k s done p).Keeping f := by
  intro k' p' hcur
  cases p with
  | ret a => exact absurd hcur (by simp [resume])
  | step l upd next =>
    cases hcur
    exact h
  | hang l =>
    cases hcur
    exact h

/-- A step of the call in progress, or a new call, leaves `f` alone. -/
theorem keeping_step {f : σ → γ} {c : Config Λ σ κ ρ} (hc : c.Keeping f) {ev : Event κ ε}
    (hstart : ∀ k, ev = .call k → c.cur = none → (M.start k).Keeps (fun _ ↦ True) f) :
    (M.step c ev).Keeping f ∧ ((∀ e, ev ≠ .env e) → f (M.step c ev).mem = f c.mem) := by
  obtain ⟨s, cur, done⟩ := c
  rcases cur with _ | ⟨k, p⟩
  · cases ev with
    | call k =>
      refine ⟨keeping_resume (hstart k rfl rfl), fun _ ↦ ?_⟩
      show f (resume k s done (M.start k)).mem = f s
      rw [mem_resume]
    | tick => exact ⟨hc, fun _ ↦ rfl⟩
    | env e => exact ⟨hc, fun he ↦ absurd rfl (he e)⟩
  · cases ev with
    | call k => exact ⟨hc, fun _ ↦ rfl⟩
    | tick =>
      cases p with
      | ret a => exact ⟨hc, fun _ ↦ rfl⟩
      | step l upd next =>
        have hp := hc k (.step l upd next) rfl
        refine ⟨keeping_resume (hp.2.2 s), fun _ ↦ ?_⟩
        show f (resume k (upd s) done (next s)).mem = f s
        rw [mem_resume, hp.2.1]
      | hang l => exact ⟨hc, fun _ ↦ rfl⟩
    | env e => exact ⟨hc, fun he ↦ absurd rfl (he e)⟩

/-- **What the environment has done.** Where the calls leave the list `f` alone, it grows by what
the environment's moves add to it, one after another. -/
theorem moves_exec {f : σ → List α} {R : ε → σ → List α → Prop}
    (hcall : ∀ s done k, J s done → G none s (.call k) →
      M.CallSafe G J I k done (M.start k) s)
    (henv : ∀ s done e, J s done → G none s (.env e) → J (M.env e s) done)
    (hstart : ∀ s k, G none s (.call k) → (M.start k).Keeps (fun _ ↦ True) f)
    (hidle : ∀ s done e, J s done → G none s (.env e) → ∃ as, f (M.env e s) = f s ++ as ∧ R e s as)
    (hpoint : ∀ k l s done e, I k l s done → G (some l) s (.env e) →
      ∃ as, f (M.env e s) = f s ++ as ∧ R e s as)
    {c : Config Λ σ κ ρ} (hc : M.Ok G J I c) (hk : c.Keeping f) {evs : List (Event κ ε)}
    (hevs : M.Admits G c evs) :
    ∃ ass : List (List α), List.Forall₂ (fun m as ↦ R m.1 m.2 as) (M.moves c evs) ass ∧
      f (M.exec c evs).mem = f c.mem ++ ass.flatten := by
  induction evs generalizing c with
  | nil => exact ⟨[], .nil, by simp⟩
  | cons ev evs ih =>
    obtain ⟨hev, hevs⟩ := hevs
    have hstep : (M.step c ev).Keeping f ∧ ((∀ e, ev ≠ .env e) → f (M.step c ev).mem = f c.mem) :=
      keeping_step hk fun k hcall hcur ↦ hstart c.mem k (by simpa [hcall, Config.point, hcur] using hev)
    obtain ⟨ass, hass, hf⟩ := ih (ok_step hcall henv hc hev) hstep.1 hevs
    cases ev with
    | call k => exact ⟨ass, hass, hf.trans (by rw [hstep.2 (by simp)])⟩
    | tick => exact ⟨ass, hass, hf.trans (by rw [hstep.2 (by simp)])⟩
    | env e =>
      obtain ⟨as, has, hR⟩ := hc.env_move hidle hpoint hev
      refine ⟨as :: ass, .cons hR hass, hf.trans ?_⟩
      show f (M.env e c.mem) ++ ass.flatten = _
      rw [has, List.append_assoc, List.flatten_cons]

end Machine
