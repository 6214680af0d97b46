import Mathlib.Data.List.Basic
import Mathlib.Data.List.Infix

/-!
# FlagPlane.Machine

**Runs of a machine.** A machine is its step function `σ → α → Option σ`: what an
action does in a state, `none` when the state does not allow it. An action says
which party moves and carries whatever the environment chooses, so an
interleaving of any number of parties is a list of actions, and a statement
about every interleaving quantifies over lists.

Everything here is over an arbitrary machine. The rules come in two forms: facts
about the state a run ends in (`exec_preserves`, `exec_history`)
and facts about each single step of a run (`transitions_preserves`,
`transitions_iff`). `exec_simulates` matches the runs of one machine with those of another.
-/

namespace FlagPlane

variable {σ α : Type*}

/-- Run a list of actions; `none` when one of them is not enabled. -/
def exec (step : σ → α → Option σ) : σ → List α → Option σ
  | s, [] => some s
  | s, a :: as => (step s a).bind (exec step · as)

/-- One step of a run: the state it was taken in, the action, the state after it. -/
structure Transition (σ α : Type*) where
  pre : σ
  act : α
  post : σ

/-- The steps of a run, in order (up to the first action that is not enabled). -/
def transitions (step : σ → α → Option σ) : σ → List α → List (Transition σ α)
  | _, [] => []
  | s, a :: as =>
    match step s a with
    | some s' => ⟨s, a, s'⟩ :: transitions step s' as
    | none => []

variable {step : σ → α → Option σ} {s s' : σ} {a : α} {as bs : List α}

@[simp] theorem exec_nil (s : σ) : exec step s [] = some s := rfl

theorem exec_cons_eq_some :
    exec step s (a :: as) = some s' ↔ ∃ s₁, step s a = some s₁ ∧ exec step s₁ as = some s' := by
  rw [exec, Option.bind_eq_some_iff]

theorem exec_append_eq_some :
    exec step s (as ++ bs) = some s' ↔
      ∃ s₁, exec step s as = some s₁ ∧ exec step s₁ bs = some s' := by
  induction as generalizing s with
  | nil => simp
  | cons a as ih =>
      rw [List.cons_append, exec_cons_eq_some]
      constructor
      · intro h
        obtain ⟨s₁, ha, h⟩ := h
        obtain ⟨s₂, has, hbs⟩ := ih.mp h
        exact ⟨s₂, exec_cons_eq_some.mpr ⟨s₁, ha, has⟩, hbs⟩
      · intro h
        obtain ⟨s₂, h, hbs⟩ := h
        obtain ⟨s₁, ha, has⟩ := exec_cons_eq_some.mp h
        exact ⟨s₁, ha, ih.mpr ⟨s₂, has, hbs⟩⟩

theorem transitions_cons (h : step s a = some s') :
    transitions step s (a :: as) = ⟨s, a, s'⟩ :: transitions step s' as := by
  rw [transitions, h]

theorem transitions_append {s₁ : σ} (h : exec step s as = some s₁) :
    transitions step s (as ++ bs) = transitions step s as ++ transitions step s₁ bs := by
  induction as generalizing s with
  | nil =>
      obtain rfl : s = s₁ := by simpa using h
      rfl
  | cons a as ih =>
      obtain ⟨s₂, ha, has⟩ := exec_cons_eq_some.mp h
      rw [List.cons_append, transitions_cons ha, transitions_cons ha, ih has, List.cons_append]

/-- Every listed transition is a step of the machine. -/
theorem step_of_mem_transitions {tr : Transition σ α} (h : tr ∈ transitions step s as) :
    step tr.pre tr.act = some tr.post := by
  induction as generalizing s with
  | nil => cases h
  | cons a as ih =>
      rw [transitions] at h
      split at h
      · rename_i s' ha
        rcases List.mem_cons.mp h with rfl | h
        · exact ha
        · exact ih h
      · cases h

/-- The steps of a run take its actions. -/
theorem act_mem_of_mem_transitions {tr : Transition σ α} (h : tr ∈ transitions step s as) :
    tr.act ∈ as := by
  induction as generalizing s with
  | nil => cases h
  | cons a as ih =>
      rw [transitions] at h
      split at h
      · rcases List.mem_cons.mp h with rfl | h
        · exact List.mem_cons_self
        · exact List.mem_cons_of_mem _ (ih h)
      · cases h

/-- A run goes on from each of its steps. -/
theorem exec_of_mem_transitions {tr : Transition σ α} (h : tr ∈ transitions step s as)
    (hs : exec step s as = some s') : ∃ bs, exec step tr.post bs = some s' := by
  induction as generalizing s with
  | nil => cases h
  | cons a as ih =>
      obtain ⟨s₁, ha, has⟩ := exec_cons_eq_some.mp hs
      rw [transitions_cons ha] at h
      rcases List.mem_cons.mp h with rfl | h
      · exact ⟨as, has⟩
      · exact ih h has

/-- A run gets to each of its steps. -/
theorem exists_prefix_of_mem_transitions {tr : Transition σ α} (h : tr ∈ transitions step s as) :
    ∃ bs, bs <+: as ∧ exec step s bs = some tr.post := by
  induction as generalizing s with
  | nil => cases h
  | cons a as ih =>
      cases hstep : step s a with
      | none =>
          rw [transitions, hstep] at h
          cases h
      | some s₁ =>
          rw [transitions_cons hstep] at h
          rcases List.mem_cons.mp h with rfl | h
          · exact ⟨[a], ⟨as, rfl⟩, exec_cons_eq_some.mpr ⟨s₁, hstep, rfl⟩⟩
          · obtain ⟨bs, hprefix, hrun⟩ := ih h
            exact ⟨a :: bs, List.cons_prefix_cons.mpr ⟨rfl, hprefix⟩,
              exec_cons_eq_some.mpr ⟨s₁, hstep, hrun⟩⟩

/-- The step that a run takes at a given place. -/
theorem mem_transitions_of_split (h : exec step s (as ++ a :: bs) = some s') :
    ∃ s₁ s₂, exec step s as = some s₁ ∧ ⟨s₁, a, s₂⟩ ∈ transitions step s (as ++ a :: bs) := by
  obtain ⟨s₁, hbefore, hrest⟩ := exec_append_eq_some.mp h
  obtain ⟨s₂, hstep, -⟩ := exec_cons_eq_some.mp hrest
  refine ⟨s₁, s₂, hbefore, ?_⟩
  rw [transitions_append hbefore, transitions_cons hstep]
  simp

/-! ### Invariants of runs -/

/-- What every step that meets a condition keeps, a run whose steps all meet it keeps. -/
theorem exec_preserves_of {I : σ → Prop} {C : σ → α → Prop}
    (hstep : ∀ {s a s'}, I s → C s a → step s a = some s' → I s') (h₀ : I s)
    (hC : ∀ tr ∈ transitions step s as, C tr.pre tr.act) (h : exec step s as = some s') :
    I s' := by
  induction as generalizing s with
  | nil =>
      obtain rfl : s = s' := by simpa using h
      exact h₀
  | cons a as ih =>
      obtain ⟨s₁, ha, has⟩ := exec_cons_eq_some.mp h
      rw [transitions_cons ha, List.forall_mem_cons] at hC
      exact ih (hstep h₀ hC.1 ha) hC.2 has

/-- What every step keeps, a run keeps. -/
theorem exec_preserves {I : σ → Prop}
    (hstep : ∀ {s a s'}, I s → step s a = some s' → I s')
    (h₀ : I s) (h : exec step s as = some s') : I s' :=
  exec_preserves_of (C := fun _ _ => True) (fun hs _ => hstep hs) h₀ (fun _ _ => trivial) h

/-- Induction over a run together with its history: `P` speaks of the steps taken
so far and the state they lead to. -/
theorem exec_history {P : List (Transition σ α) → σ → Prop}
    (hstep : ∀ {l s a s'}, P l s → step s a = some s' → P (l ++ [⟨s, a, s'⟩]) s')
    (h₀ : P [] s) (h : exec step s as = some s') : P (transitions step s as) s' := by
  suffices H : ∀ (as : List α) (l : List (Transition σ α)) (s : σ), P l s →
      exec step s as = some s' → P (l ++ transitions step s as) s' by
    simpa using H as [] s h₀ h
  intro as
  induction as with
  | nil =>
      intro l s hP h
      obtain rfl : s = s' := by simpa using h
      simpa [transitions] using hP
  | cons a as ih =>
      intro l s hP h
      obtain ⟨s₁, ha, has⟩ := exec_cons_eq_some.mp h
      rw [transitions_cons ha, List.append_cons]
      exact ih (l ++ [⟨s, a, s₁⟩]) s₁ (hstep hP ha) has

/-! ### Facts about each step of a run -/

/-- A machine that keeps an account of another one makes its runs. -/
theorem transitions_map {τ : Type*} {abstr : τ → α → Option τ} {f : τ → σ}
    (hstep : ∀ t a, (abstr t a).map f = step (f t) a) (t : τ) (as : List α) :
    transitions step (f t) as =
      (transitions abstr t as).map fun tr => ⟨f tr.pre, tr.act, f tr.post⟩ := by
  induction as generalizing t with
  | nil => rfl
  | cons a as ih =>
      have ha := hstep t a
      cases hnext : abstr t a with
      | none =>
          rw [hnext, Option.map_none] at ha
          rw [transitions, transitions, ← ha, hnext]
          rfl
      | some t' =>
          rw [hnext, Option.map_some] at ha
          rw [transitions_cons ha.symm, transitions_cons hnext, ih t', List.map_cons]

/-- An invariant that the listed actions keep holds on both sides of every step of a run. -/
theorem transitions_preserves_of {I : σ → Prop} {C : α → Prop}
    (hstep : ∀ {s a s'}, I s → C a → step s a = some s' → I s') (h₀ : I s)
    (hC : ∀ a ∈ as, C a) {tr : Transition σ α} (h : tr ∈ transitions step s as) :
    I tr.pre ∧ I tr.post := by
  induction as generalizing s with
  | nil => cases h
  | cons a as ih =>
      rw [List.forall_mem_cons] at hC
      rw [transitions] at h
      split at h
      · rename_i s' ha
        rcases List.mem_cons.mp h with rfl | h
        · exact ⟨h₀, hstep h₀ hC.1 ha⟩
        · exact ih (hstep h₀ hC.1 ha) hC.2 h
      · cases h

/-- An invariant holds on both sides of every step of a run. -/
theorem transitions_preserves {I : σ → Prop}
    (hstep : ∀ {s a s'}, I s → step s a = some s' → I s') (h₀ : I s)
    {tr : Transition σ α} (h : tr ∈ transitions step s as) : I tr.pre ∧ I tr.post :=
  transitions_preserves_of (C := fun _ => True) (fun hs _ => hstep hs) h₀ (fun _ _ => trivial) h

/-- **Exact conditions on runs.** Suppose that, from a state where `P` holds, a step
satisfies `Q` exactly when the condition `C` holds before it, and that a step taken
under `C` keeps `P`. Then every step of a run satisfies `Q` exactly when every
step of it is taken under `C`. The listed actions keep the invariant `I`. -/
theorem transitions_iff_of {A : α → Prop} {I P : σ → Prop} {Q : σ → α → σ → Prop}
    {C : σ → α → Prop}
    (hI : ∀ {s a s'}, I s → A a → step s a = some s' → I s')
    (hiff : ∀ {s a s'}, I s → P s → step s a = some s' → (Q s a s' ↔ C s a))
    (hP : ∀ {s a s'}, I s → P s → step s a = some s' → C s a → P s')
    (hA : ∀ a ∈ as, A a) (h₀ : I s) (hP₀ : P s) :
    (∀ tr ∈ transitions step s as, Q tr.pre tr.act tr.post) ↔
      ∀ tr ∈ transitions step s as, C tr.pre tr.act := by
  induction as generalizing s with
  | nil => simp [transitions]
  | cons a as ih =>
      rw [List.forall_mem_cons] at hA
      rw [transitions]
      split
      · rename_i s' ha
        rw [List.forall_mem_cons, List.forall_mem_cons, hiff h₀ hP₀ ha]
        refine and_congr_right fun hC => ?_
        exact ih hA.2 (hI h₀ hA.1 ha) (hP h₀ hP₀ ha hC)
      · simp

/-- Exact conditions on all runs. -/
theorem transitions_iff {I P : σ → Prop} {Q : σ → α → σ → Prop} {C : σ → α → Prop}
    (hI : ∀ {s a s'}, I s → step s a = some s' → I s')
    (hiff : ∀ {s a s'}, I s → P s → step s a = some s' → (Q s a s' ↔ C s a))
    (hP : ∀ {s a s'}, I s → P s → step s a = some s' → C s a → P s')
    (h₀ : I s) (hP₀ : P s) :
    (∀ tr ∈ transitions step s as, Q tr.pre tr.act tr.post) ↔
      ∀ tr ∈ transitions step s as, C tr.pre tr.act :=
  transitions_iff_of (A := fun _ => True) (fun h _ hs => hI h hs) hiff hP (fun _ _ => trivial) h₀
    hP₀

/-! ### Bounded runs -/

/-- **A measure bounds runs.** When each listed action keeps an invariant and takes a measure down,
a run of them is no longer than what the measure has lost. -/
theorem exec_length_le_of {I : σ → Prop} {C : α → Prop} {μ : σ → ℕ}
    (hstep : ∀ {s a s'}, I s → C a → step s a = some s' → I s' ∧ μ s' < μ s) (h₀ : I s)
    (hC : ∀ a ∈ as, C a) (h : exec step s as = some s') : as.length + μ s' ≤ μ s := by
  induction as generalizing s with
  | nil =>
      obtain rfl : s = s' := by simpa using h
      simp
  | cons a as ih =>
      obtain ⟨s₁, ha, has⟩ := exec_cons_eq_some.mp h
      rw [List.forall_mem_cons] at hC
      obtain ⟨h₁, hlt⟩ := hstep h₀ hC.1 ha
      have hle := ih h₁ hC.2 has
      rw [List.length_cons]
      omega

/-! ### Two machines side by side -/

section Simulation

variable {τ β : Type*} {abstr : τ → β → Option τ} {R : σ → τ → Prop} {B : α → List β → Prop}

/-- **Forward simulation.** Suppose each step of a machine that meets a condition is matched, from
a related state, by a list of steps of another machine. Then so is each run of such steps,
and the two stay related after every step of it. -/
theorem exec_simulates_of {C : σ → α → Prop}
    (hstep : ∀ {s a s' t}, R s t → C s a → step s a = some s' →
      ∃ bs t', B a bs ∧ exec abstr t bs = some t' ∧ R s' t')
    {t : τ} (h₀ : R s t) (hC : ∀ tr ∈ transitions step s as, C tr.pre tr.act)
    (h : exec step s as = some s') :
    ∃ bss, List.Forall₂ B as bss ∧ ∀ k s₁, exec step s (as.take k) = some s₁ →
      ∃ t₁, exec abstr t (bss.take k).flatten = some t₁ ∧ R s₁ t₁ := by
  induction as generalizing s t with
  | nil =>
      refine ⟨[], .nil, fun k s₁ hs₁ => ⟨t, by simp, ?_⟩⟩
      obtain rfl : s = s₁ := by simpa using hs₁
      exact h₀
  | cons a as ih =>
      obtain ⟨s₂, ha, has⟩ := exec_cons_eq_some.mp h
      rw [transitions_cons ha, List.forall_mem_cons] at hC
      obtain ⟨bs, t₂, hB, hbs, hR⟩ := hstep h₀ hC.1 ha
      obtain ⟨bss, hall, hrun⟩ := ih hR hC.2 has
      refine ⟨bs :: bss, .cons hB hall, fun k s₁ hs₁ => ?_⟩
      cases k with
      | zero =>
          obtain rfl : s = s₁ := by simpa using hs₁
          exact ⟨t, by simp, h₀⟩
      | succ k =>
          rw [List.take_succ_cons, exec_cons_eq_some] at hs₁
          obtain ⟨s₃, ha', hs₁⟩ := hs₁
          obtain rfl : s₂ = s₃ := Option.some.inj (ha.symm.trans ha')
          obtain ⟨t₁, ht₁, hR₁⟩ := hrun k s₁ hs₁
          refine ⟨t₁, ?_, hR₁⟩
          rw [List.take_succ_cons, List.flatten_cons]
          exact exec_append_eq_some.mpr ⟨t₂, hbs, ht₁⟩

/-- Forward simulation without a condition on the steps. -/
theorem exec_simulates
    (hstep : ∀ {s a s' t}, R s t → step s a = some s' →
      ∃ bs t', B a bs ∧ exec abstr t bs = some t' ∧ R s' t')
    {t : τ} (h₀ : R s t) (h : exec step s as = some s') :
    ∃ bss, List.Forall₂ B as bss ∧ ∀ k s₁, exec step s (as.take k) = some s₁ →
      ∃ t₁, exec abstr t (bss.take k).flatten = some t₁ ∧ R s₁ t₁ :=
  exec_simulates_of (C := fun _ _ => True) (fun hR _ hs => hstep hR hs) h₀ (fun _ _ => trivial) h

end Simulation

section Respond

variable {τ β : Type*}

/-- The run of a machine that answers every action: the state it ends in, and the answers. -/
def respond (step : σ → α → σ × β) : σ → List α → σ × List β
  | s, [] => (s, [])
  | s, a :: as => ((respond step (step s a).1 as).1, (step s a).2 :: (respond step (step s a).1 as).2)

/-- **Machines that answer alike.** When related states answer each of the listed actions alike
and stay related, so they do over a run. -/
theorem respond_related {R : σ → τ → Prop} {C : α → Prop} {f : σ → α → σ × β} {g : τ → α → τ × β}
    (hstep : ∀ {s t a}, R s t → C a → R (f s a).1 (g t a).1 ∧ (f s a).2 = (g t a).2) {t : τ}
    (h : R s t) (hC : ∀ a ∈ as, C a) :
    R (respond f s as).1 (respond g t as).1 ∧ (respond f s as).2 = (respond g t as).2 := by
  induction as generalizing s t with
  | nil => exact ⟨h, rfl⟩
  | cons a as ih =>
      rw [List.forall_mem_cons] at hC
      obtain ⟨hnext, hanswer⟩ := hstep h hC.1
      obtain ⟨hend, hanswers⟩ := ih hnext hC.2
      exact ⟨hend, List.cons_eq_cons.mpr ⟨hanswer, hanswers⟩⟩

end Respond

end FlagPlane
