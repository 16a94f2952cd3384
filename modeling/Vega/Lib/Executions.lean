import Vega.Lib.Interference

/-!
# Complete executions

`Prog.Safe` bounds what a program can do; here is what it did. `Ends E p s tr a s'` says that `p`,
started in `s` and interfered with by `E`, can end with `a` in `s'`, and `tr` lists its accesses. An
execution comes apart where its program does (`ends_bind`), so a statement about
the accesses of a call — which test found what — follows the program as a safety proof does, and
`Safe.ends` lets the two meet.

`Prog.Stable` is for what holds throughout and needs no such care: every access keeps `P`.
`Prog.Holds` is its counterpart for a program that nothing interrupts: `P` may fail on the way.

`Machine.ends_of_exec` finds the execution of a call in a run; `Machine.admits_of_ok` says what
guards a run meets whose calls are safe.
-/

open Relation

/-- An access that was made. -/
structure Access (Λ σ : Type) where
  point : Λ
  /-- The store it found. -/
  found : σ
  /-- The store it left. -/
  left : σ

namespace Prog

variable {Λ Λ' σ τ α β γ : Type}

/-- `p` started in `s` can end with `a` in `s'`, if between its accesses the store changes by steps
of `E` only. The accesses are `tr`. -/
def Ends (E : Λ → σ → σ → Prop) : Prog Λ σ α → σ → List (Access Λ σ) → α → σ → Prop
  | ret a, s, tr, b, s' => tr = [] ∧ b = a ∧ s' = s
  | step l upd next, s, tr, b, s' => ∃ s₁ tr', ReflTransGen (E l) s s₁ ∧
      tr = ⟨l, s₁, upd s₁⟩ :: tr' ∧ (next s₁).Ends E (upd s₁) tr' b s'
  | hang _, _, _, _, _ => False

variable {E : Λ → σ → σ → Prop} {s s' : σ} {tr : List (Access Λ σ)} {a : α} {b : β}

/-- An execution of two programs one after the other. -/
theorem ends_bind {p : Prog Λ σ α} {f : α → Prog Λ σ β} (h : (p >>= f).Ends E s tr b s') :
    ∃ tr₁ a s₁ tr₂, p.Ends E s tr₁ a s₁ ∧ (f a).Ends E s₁ tr₂ b s' ∧ tr = tr₁ ++ tr₂ := by
  induction p generalizing s tr with
  | ret a => exact ⟨[], a, s, tr, ⟨rfl, rfl, rfl⟩, h, rfl⟩
  | step l upd next ih =>
    obtain ⟨s₀, tr₀, hs₀, rfl, h⟩ := h
    obtain ⟨tr₁, a, s₁, tr₂, hp, hf, rfl⟩ := ih s₀ h
    exact ⟨⟨l, s₀, upd s₀⟩ :: tr₁, a, s₁, tr₂, ⟨s₀, tr₁, hs₀, rfl, hp⟩, hf, rfl⟩
  | hang l => exact h.elim

/-- An execution that begins with a read. -/
theorem ends_read {l : Λ} {f : σ → β} {k : β → Prog Λ σ α} (h : (read l f >>= k).Ends E s tr a s') :
    ∃ s₁ tr', ReflTransGen (E l) s s₁ ∧ tr = ⟨l, s₁, s₁⟩ :: tr' ∧ (k (f s₁)).Ends E s₁ tr' a s' := h

/-- An execution that begins with a write. -/
theorem ends_write {l : Λ} {f : σ → σ} {k : Unit → Prog Λ σ α}
    (h : (write l f >>= k).Ends E s tr a s') :
    ∃ s₁ tr', ReflTransGen (E l) s s₁ ∧ tr = ⟨l, s₁, f s₁⟩ :: tr' ∧
      (k ()).Ends E (f s₁) tr' a s' := h

/-- `ends_read` for a program on a part of the store. -/
theorem ends_on_read (Q : Part σ τ) {lab : Λ' → Λ} {l : Λ'} {f : τ → β} {k : β → Prog Λ' τ α}
    (h : ((read l f >>= k).on Q lab).Ends E s tr a s') :
    ∃ s₁ tr', ReflTransGen (E (lab l)) s s₁ ∧ tr = ⟨lab l, s₁, s₁⟩ :: tr' ∧
      ((k (f (Q.get s₁))).on Q lab).Ends E s₁ tr' a s' := by
  obtain ⟨s₁, tr', hs₁, htr, hrest⟩ := h
  have hset : Q.set (id (Q.get s₁)) s₁ = s₁ := Q.set_get s₁
  have htr' : tr = ⟨lab l, s₁, Q.set (id (Q.get s₁)) s₁⟩ :: tr' := htr
  have hrest' : ((k (f (Q.get s₁))).on Q lab).Ends E (Q.set (id (Q.get s₁)) s₁) tr' a s' := hrest
  rw [hset] at htr' hrest'
  exact ⟨s₁, tr', hs₁, htr', hrest'⟩

/-- Environment steps before the first access belong to the execution. -/
theorem Ends.of_env {l : Λ} {upd : σ → σ} {next : σ → Prog Λ σ α} {s₀ : σ} (he : E l s₀ s)
    (h : (step l upd next).Ends E s tr a s') : (step l upd next).Ends E s₀ tr a s' := by
  obtain ⟨s₁, tr', hs₁, rfl, h⟩ := h
  exact ⟨s₁, tr', .head he hs₁, rfl, h⟩

/-- What a safe program has brought about when it ends. -/
theorem Safe.ends {T I : Λ → σ → Prop} {post : α → σ → Prop} {p : Prog Λ σ α}
    (hp : p.Safe E T I post s) (h : p.Ends E s tr a s') (hT : ∀ x ∈ tr, T x.point x.found) :
    post a s' := by
  induction p generalizing s tr with
  | ret a =>
    obtain ⟨-, rfl, rfl⟩ := h
    exact hp
  | step l upd next ih =>
    obtain ⟨s₁, tr', hs₁, rfl, h⟩ := h
    exact ih s₁ ((hp s₁ hs₁).2 (hT _ (.head _))) h fun x hx ↦ hT x (.tail _ hx)
  | hang l => exact h.elim

/-- The accesses of a program stand where it says, and keep what it keeps. -/
theorem Keeps.ends {Q : Λ → Prop} {f : σ → γ} {p : Prog Λ σ α} (hp : p.Keeps Q f)
    (h : p.Ends E s tr a s') : ∀ x ∈ tr, Q x.point ∧ f x.left = f x.found := by
  induction p generalizing s tr with
  | ret a =>
    obtain ⟨rfl, -⟩ := h
    exact nofun
  | step l upd next ih =>
    obtain ⟨s₁, tr', -, rfl, h⟩ := h
    exact List.forall_mem_cons.2 ⟨⟨hp.1, hp.2.1 s₁⟩, ih s₁ (hp.2.2 s₁) h⟩
  | hang l => exact h.elim

/-- The accesses of a program stand where it says. -/
theorem Keeps.labels {Q : Λ → Prop} {f : σ → γ} {p : Prog Λ σ α} (hp : p.Keeps Q f)
    (h : p.Ends E s tr a s') : ∀ x ∈ tr, Q x.point :=
  fun x hx ↦ (hp.ends h x hx).1

/-! ### What every access keeps -/

/-- From a store with `P`, every access stands where `C` admits it and keeps `P`. -/
def Stable (C : Λ → σ → Prop) (P : σ → Prop) : Prog Λ σ α → Prop
  | ret _ => True
  | step l upd next => ∀ s, P s → C l s ∧ P (upd s) ∧ (next s).Stable C P
  | hang l => ∀ s, P s → C l s

variable {C : Λ → σ → Prop} {P : σ → Prop} {l : Λ}

/-- A program that makes no access. -/
theorem stable_ret (a : α) : (ret a : Prog Λ σ α).Stable C P := trivial

/-- A program that waits for ever, where it is admitted. -/
theorem stable_hang (hC : ∀ s, P s → C l s) : (hang l : Prog Λ σ α).Stable C P := hC

/-- A read, where it is admitted. -/
theorem stable_read (hC : ∀ s, P s → C l s) (f : σ → α) : (read l f).Stable C P :=
  fun s hs ↦ ⟨hC s hs, hs, trivial⟩

/-- A write that keeps the assertion. -/
theorem stable_write (hC : ∀ s, P s → C l s) {f : σ → σ} (h : ∀ s, P s → P (f s)) :
    (write l f).Stable C P :=
  fun s hs ↦ ⟨hC s hs, h s hs, trivial⟩

/-- **Sequencing**, where the second program is stable whatever the first one returned. -/
theorem Stable.bind {p : Prog Λ σ α} (hp : p.Stable C P) {f : α → Prog Λ σ β}
    (hf : ∀ a, (f a).Stable C P) : (p >>= f).Stable C P := by
  induction p with
  | ret a => exact hf a
  | step l upd next ih =>
    intro s hs
    obtain ⟨hC, hupd, hnext⟩ := hp s hs
    exact ⟨hC, hupd, ih s hnext⟩
  | hang l => exact hp

/-- `Stable.bind`, where the rest depends on what the first access found. -/
theorem Stable.read_bind (hC : ∀ s, P s → C l s) {f : σ → β} {k : β → Prog Λ σ α}
    (h : ∀ s, P s → (k (f s)).Stable C P) : (read l f >>= k).Stable C P :=
  fun s hs ↦ ⟨hC s hs, hs, h s hs⟩

/-- What does not depend on what a program changes is stable. -/
theorem Keeps.stable {Q : Λ → Prop} {f : σ → γ} (hC : ∀ l s, Q l → P s → C l s)
    (hP : ∀ s s', P s → f s' = f s → P s') {p : Prog Λ σ α} (hp : p.Keeps Q f) : p.Stable C P := by
  induction p with
  | ret a => trivial
  | step l upd next ih =>
    exact fun s hs ↦ ⟨hC l s hp.1 hs, hP _ _ hs (hp.2.1 s), ih s (hp.2.2 s)⟩
  | hang l => exact fun s hs ↦ hC l s hp hs

/-- A program on a part of the store. -/
theorem Stable.on (R : Part σ τ) {lab : Λ' → Λ} {D : Λ' → τ → Prop} {F : τ → Prop}
    {p : Prog Λ' τ α} (hp : p.Stable D F) (hC : ∀ l s, P s → D l (R.get s) → C (lab l) s)
    (hF : ∀ s, P s → F (R.get s)) (hP : ∀ t s, P s → F t → P (R.set t s)) :
    (p.on R lab).Stable C P := by
  induction p with
  | ret a => trivial
  | step l upd next ih =>
    intro s hs
    obtain ⟨hD, hupd, hnext⟩ := hp _ (hF s hs)
    exact ⟨hC l s hs hD, hP _ s hs hupd, ih _ hnext⟩
  | hang l => exact fun s hs ↦ hC l s hs (hp _ (hF s hs))

/-- A stable assertion that the environment keeps holds throughout. -/
theorem Stable.safe {T I : Λ → σ → Prop} (hE : ∀ l s s', P s → E l s s' → P s')
    (hI : ∀ l s, P s → C l s → I l s) {p : Prog Λ σ α} (hp : p.Stable C P) (hs : P s) :
    p.Safe E T I (fun _ s ↦ P s) s := by
  induction p generalizing s with
  | ret a => exact hs
  | step l upd next ih =>
    refine .access (hE l) hs (fun s hs ↦ hI l s hs (hp s hs).1) fun s hs _ ↦ ?_
    obtain ⟨-, hupd, hnext⟩ := hp s hs
    exact ih s hnext hupd
  | hang l =>
    intro s' hs'
    have hP := of_reflTransGen (hE l) hs hs'
    exact hI l s' hP (hp s' hP)

/-- It holds at the end. -/
theorem Stable.ends (hE : ∀ l s s', P s → E l s s' → P s') {p : Prog Λ σ α} (hp : p.Stable C P)
    (hs : P s) (h : p.Ends E s tr a s') : P s' :=
  (hp.safe (T := fun _ _ ↦ True) (I := fun _ _ ↦ True) hE (fun _ _ _ _ ↦ trivial) hs).ends h
    fun _ _ ↦ trivial

/-- Every access found it, where `C` admits the access. -/
theorem Stable.found (hE : ∀ l s s', P s → E l s s' → P s') {p : Prog Λ σ α} (hp : p.Stable C P)
    (hs : P s) (h : p.Ends E s tr a s') : ∀ x ∈ tr, C x.point x.found ∧ P x.found := by
  induction p generalizing s tr with
  | ret a =>
    obtain ⟨rfl, -⟩ := h
    exact List.forall_mem_nil _
  | step l upd next ih =>
    obtain ⟨s₁, tr', hs₁, rfl, h⟩ := h
    have hP := of_reflTransGen (hE l) hs hs₁
    obtain ⟨hC, hupd, hnext⟩ := hp s₁ hP
    exact List.forall_mem_cons.2 ⟨⟨hC, hP⟩, ih s₁ hnext hupd h⟩
  | hang l => exact h.elim

/-- It holds after a run alone. -/
theorem Stable.run {p : Prog Λ σ α} (hp : p.Stable C P) (hs : P s) {r : α × σ}
    (hr : p.run s = some r) : P r.2 := by
  induction p generalizing s with
  | ret a =>
    obtain rfl := Option.some.inj hr
    exact hs
  | step l upd next ih =>
    obtain ⟨-, hupd, hnext⟩ := hp s hs
    exact ih s hnext hupd hr
  | hang l => exact absurd hr (by simp)

/-- Every access of a run alone stands where `C` admits it. -/
def Meets (C : Λ → σ → Prop) : Prog Λ σ α → σ → Prop
  | ret _, _ => True
  | step l upd next, s => C l s ∧ (next s).Meets C (upd s)
  | hang l, s => C l s

instance Meets.decidable (C : Λ → σ → Prop) [∀ l s, Decidable (C l s)] :
    ∀ (p : Prog Λ σ α) (s : σ), Decidable (p.Meets C s)
  | ret _, _ => .isTrue trivial
  | step l upd next, s =>
    have := Meets.decidable C (next s) (upd s)
    inferInstanceAs (Decidable (C l s ∧ (next s).Meets C (upd s)))
  | hang l, s => inferInstanceAs (Decidable (C l s))

/-- Run alone, a stable program stands where it is admitted. -/
theorem Stable.meets {p : Prog Λ σ α} (hp : p.Stable C P) (hs : P s) : p.Meets C s := by
  induction p generalizing s with
  | ret a => trivial
  | step l upd next ih =>
    obtain ⟨hC, hupd, hnext⟩ := hp s hs
    exact ⟨hC, ih s hnext hupd⟩
  | hang l => exact hp s hs

theorem meets_true (p : Prog Λ σ α) (s : σ) : p.Meets (fun _ _ ↦ True) s := by
  induction p generalizing s with
  | ret a => trivial
  | step l upd next ih => exact ⟨trivial, ih s _⟩
  | hang l => trivial

/-- What a safe program brings about alone. -/
theorem Safe.run {T I : Λ → σ → Prop} {post : α → σ → Prop} {p : Prog Λ σ α}
    (hp : p.Safe E T I post s) (hT : p.Meets T s) {r : α × σ} (hr : p.run s = some r) :
    post r.1 r.2 := by
  induction p generalizing s with
  | ret a =>
    obtain rfl := Option.some.inj hr
    exact hp
  | step l upd next ih => exact ih s ((hp s .refl).2 hT.1) hT.2 hr
  | hang l => exact absurd hr (by simp)

/-! ### What a program alone keeps -/

/-- Run alone from a store with `P`, the program ends in one, and meets `C` on the way. -/
def Holds (C : Λ → σ → Prop) (P : σ → Prop) (p : Prog Λ σ α) : Prop :=
  ∀ s, P s → p.Meets C s ∧ ∀ r, p.run s = some r → P r.2

/-- What holds throughout holds at the end. -/
theorem Stable.holds {p : Prog Λ σ α} (hp : p.Stable C P) : p.Holds C P :=
  fun _ hs ↦ ⟨hp.meets hs, fun _ hr ↦ hp.run hs hr⟩

/-- A run of two programs stands where both are admitted. -/
theorem meets_bind {p : Prog Λ σ α} {f : α → Prog Λ σ β} (hp : p.Meets C s)
    (hf : ∀ r, p.run s = some r → (f r.1).Meets C r.2) : (p >>= f).Meets C s := by
  induction p generalizing s with
  | ret a => exact hf _ rfl
  | step l upd next ih => exact ⟨hp.1, ih s hp.2 fun r hr ↦ hf r hr⟩
  | hang l => exact hp

/-- Sequencing, where the second program may use what the first one returned and left. -/
theorem Holds.bind_of {p : Prog Λ σ α} (hp : p.Holds C P) {f : α → Prog Λ σ β}
    (hf : ∀ s r, P s → p.run s = some r → (f r.1).Meets C r.2 ∧
      ∀ r', (f r.1).run r.2 = some r' → P r'.2) : (p >>= f).Holds C P := by
  intro s hs
  refine ⟨meets_bind (hp s hs).1 fun r hr ↦ (hf s r hs hr).1, fun r' hr' ↦ ?_⟩
  rw [run_bind, Option.bind_eq_some_iff] at hr'
  obtain ⟨r, hr, hr'⟩ := hr'
  exact (hf s r hs hr).2 r' hr'

/-- Sequencing, where the second program does not need to know what the first one returned. -/
theorem Holds.bind {p : Prog Λ σ α} (hp : p.Holds C P) {f : α → Prog Λ σ β}
    (hf : ∀ a, (f a).Holds C P) : (p >>= f).Holds C P :=
  hp.bind_of fun s r hs hr ↦ hf r.1 r.2 ((hp s hs).2 r hr)

/-- Sequencing after a read, where the second program may use that the assertion holds. -/
theorem Holds.read_bind (hC : ∀ s, P s → C l s) {f : σ → β} {k : β → Prog Λ σ α}
    (h : ∀ s, P s → (k (f s)).Holds C P) : (read l f >>= k).Holds C P :=
  fun s hs ↦ ⟨⟨hC s hs, (h s hs s hs).1⟩, (h s hs s hs).2⟩

/-- Where nothing is asked on the way, the result alone matters. -/
theorem holds_of_run {p : Prog Λ σ α} (h : ∀ s r, P s → p.run s = some r → P r.2) :
    p.Holds (fun _ _ ↦ True) P :=
  fun s hs ↦ ⟨meets_true p s, fun r hr ↦ h s r hs hr⟩

end Prog

namespace Machine

variable {Λ σ κ ρ ε : Type} {M : Machine Λ σ κ ρ ε} {G : Guard Λ σ κ ε}

/-- A condition on the accesses. -/
def AtTicks (T : Λ → σ → Prop) : Guard Λ σ κ ε
  | some l, s, .tick => T l s
  | _, _, _ => True

instance (T : Λ → σ → Prop) [∀ l s, Decidable (T l s)] (l : Option Λ) (s : σ) (e : Event κ ε) :
    Decidable (AtTicks T l s e) :=
  match l, e with
  | some l, .tick => inferInstanceAs (Decidable (T l s))
  | some _, .call _ | some _, .env _ | none, .call _ | none, .env _ | none, .tick => .isTrue trivial

/-- The accesses of a run. -/
def accesses (M : Machine Λ σ κ ρ ε) : Config Λ σ κ ρ → List (Event κ ε) → List (Access Λ σ)
  | _, [] => []
  | c, e :: evs =>
    match c.cur, e with
    | some (_, .step l upd _), .tick => ⟨l, c.mem, upd c.mem⟩ :: accesses M (M.step c e) evs
    | _, _ => accesses M (M.step c e) evs

/-- The environment steps that a guard admits between calls. -/
def Idles (M : Machine Λ σ κ ρ ε) (G : Guard Λ σ κ ε) (s s' : σ) : Prop :=
  ∃ e, G none s (.env e) ∧ s' = M.env e s

/-- Without a call, only the environment moves. -/
theorem idles_of_exec (hG : ∀ l s k, ¬G l s (.call k)) {s : σ} {done : List (κ × ρ)}
    {evs : List (Event κ ε)} (hadm : M.Admits G ⟨s, none, done⟩ evs) :
    ∃ s', M.exec ⟨s, none, done⟩ evs = ⟨s', none, done⟩ ∧ ReflTransGen (M.Idles G) s s' ∧
      M.accesses ⟨s, none, done⟩ evs = [] ∧
      ∀ T : Λ → σ → Prop, M.Admits (AtTicks T) ⟨s, none, done⟩ evs := by
  induction evs generalizing s with
  | nil => exact ⟨s, rfl, .refl, rfl, fun _ ↦ trivial⟩
  | cons e evs ih =>
    cases e with
    | call k => exact absurd hadm.1 (hG _ _ _)
    | tick =>
      obtain ⟨s', hexec, hs', haccesses, hT⟩ := ih hadm.2
      exact ⟨s', hexec, hs', haccesses, fun T ↦ ⟨trivial, hT T⟩⟩
    | env e =>
      obtain ⟨s', hexec, hs', haccesses, hT⟩ := ih hadm.2
      exact ⟨s', hexec, .head ⟨e, hadm.1, rfl⟩ hs', haccesses, fun T ↦ ⟨trivial, hT T⟩⟩

/-- **The execution of a call.** In a run in which the call in progress returns and no other one is
made, the call has an execution, whose accesses are those of the run, and the environment may have
moved since. -/
theorem ends_of_exec (hG : ∀ l s k, ¬G l s (.call k)) {k : κ} {p : Prog Λ σ ρ} {s : σ}
    {done : List (κ × ρ)} {evs : List (Event κ ε)} (hadm : M.Admits G (resume k s done p) evs)
    (hcur : (M.exec (resume k s done p) evs).cur = none) :
    ∃ a s₁, p.Ends (M.Interferes G) s (M.accesses (resume k s done p) evs) a s₁ ∧
      ReflTransGen (M.Idles G) s₁ (M.exec (resume k s done p) evs).mem ∧
      (M.exec (resume k s done p) evs).done = done ++ [(k, a)] ∧
      ∀ T : Λ → σ → Prop, M.Admits (AtTicks T) (resume k s done p) evs ↔
        ∀ x ∈ M.accesses (resume k s done p) evs, T x.point x.found := by
  induction evs generalizing p s with
  | nil =>
    cases p with
    | ret a => exact ⟨a, s, ⟨rfl, rfl, rfl⟩, .refl, rfl, fun T ↦ ⟨fun _ x hx ↦ absurd hx List.not_mem_nil, fun _ ↦ trivial⟩⟩
    | step l upd next => exact absurd hcur (by simp [resume])
    | hang l => exact absurd hcur (by simp [resume])
  | cons e evs ih =>
    cases p with
    | ret a =>
      obtain ⟨s', hexec, hs', haccesses, hT⟩ := idles_of_exec hG hadm
      rw [resume, hexec, haccesses]
      exact ⟨a, s, ⟨rfl, rfl, rfl⟩, hs', rfl, fun T ↦ ⟨fun _ x hx ↦ absurd hx List.not_mem_nil, fun _ ↦ hT T⟩⟩
    | step l upd next =>
      cases e with
      | call k => exact absurd hadm.1 (hG _ _ _)
      | tick =>
        -- an access of the call
        obtain ⟨a, s₁, hends, hidle, hdone, hT⟩ := ih (p := next s) (s := upd s) hadm.2 hcur
        refine ⟨a, s₁, ⟨s, _, .refl, rfl, hends⟩, hidle, hdone, fun T ↦ ?_⟩
        show T l s ∧ M.Admits (AtTicks T) (resume k (upd s) done (next s)) evs ↔
          ∀ x ∈ (⟨l, s, upd s⟩ : Access Λ σ) :: M.accesses (resume k (upd s) done (next s)) evs,
            T x.point x.found
        rw [List.forall_mem_cons, ← hT T]
      | env e =>
        -- what the environment does belongs to the access that comes next
        obtain ⟨a, s₁, hends, hidle, hdone, hT⟩ :=
          ih (p := .step l upd next) (s := M.env e s) hadm.2 hcur
        refine ⟨a, s₁, hends.of_env ⟨e, hadm.1, rfl⟩, hidle, hdone, fun T ↦ ?_⟩
        exact ⟨fun h ↦ (hT T).1 h.2, fun h ↦ ⟨trivial, (hT T).2 h⟩⟩
    | hang l =>
      cases e with
      | call k => exact absurd hadm.1 (hG _ _ _)
      | tick =>
        obtain ⟨a, s₁, hends, -⟩ := ih (p := .hang l) (s := s) hadm.2 hcur
        exact hends.elim
      | env e =>
        obtain ⟨a, s₁, hends, -⟩ := ih (p := .hang l) (s := M.env e s) hadm.2 hcur
        exact hends.elim

/-- **What every step keeps**, calls and environment alike, holds throughout. -/
theorem stable_exec {C : Λ → σ → Prop} {P : σ → Prop}
    (hcall : ∀ k, (∃ l s, G l s (.call k)) → (M.start k).Stable C P)
    (henv : ∀ l s e, P s → G l s (.env e) → P (M.env e s)) {c c' : Config Λ σ κ ρ}
    (hmem : P c.mem) (hcur : c.cur = none) (h : M.Reaches G c c') : P c'.mem := by
  have hok : M.Ok G (fun s _ ↦ P s) (fun _ _ s _ ↦ P s) c := by
    rw [Ok, hcur]
    exact hmem
  have hok' := ok_of_reaches ?_ (fun s _ e hs he ↦ henv _ s e hs he) hok h
  · exact hok'.elim (fun _ _ hs ↦ hs) fun _ _ _ _ hs ↦ hs
  · intro s done k hs hk
    refine (hcall k ⟨_, _, hk⟩).safe ?_ (fun _ _ hs _ ↦ hs) hs
    rintro l s s' hs ⟨e, he, rfl⟩
    exact henv _ s e hs he

/-- **Guards met.** A run that keeps `Ok` meets every guard that what holds at its steps implies. -/
theorem admits_of_ok {J : σ → List (κ × ρ) → Prop} {I : κ → Λ → σ → List (κ × ρ) → Prop}
    {H : Guard Λ σ κ ε}
    (hcall : ∀ s done k, J s done → G none s (.call k) → M.CallSafe G J I k done (M.start k) s)
    (henv : ∀ s done e, J s done → G none s (.env e) → J (M.env e s) done)
    (hpoint : ∀ k l s done e, I k l s done → G (some l) s e → H (some l) s e)
    (hidle : ∀ s done e, J s done → G none s e → H none s e)
    {c : Config Λ σ κ ρ} (hc : M.Ok G J I c) {evs : List (Event κ ε)} (h : M.Admits G c evs) :
    M.Admits H c evs := by
  induction evs generalizing c with
  | nil => trivial
  | cons e evs ih =>
    refine ⟨?_, ih (ok_step hcall henv hc h.1) h.2⟩
    obtain ⟨s, cur, done⟩ := c
    have he := h.1
    rcases cur with _ | ⟨k, p⟩
    · exact hidle s done e hc he
    cases p with
    | ret a => exact False.elim hc
    | step l upd next =>
      have hp : M.CallSafe G J I k done (.step l upd next) s := hc
      exact hpoint k l s done e (hp s .refl).1 he
    | hang l =>
      have hp : M.CallSafe G J I k done (.hang l) s := hc
      exact hpoint k l s done e (hp s .refl) he

end Machine
