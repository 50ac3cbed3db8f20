import Mathlib.Data.List.Basic
import Mathlib.Data.List.Induction
import Mathlib.Logic.Relation

/-!
# Runs of a labelled step relation

A program is taken as a step relation `step s a t` between states, labelled by the call that was
made. A **run** is a finite sequence of such steps, indexed by the list of its labels, latest last.
Everything a development needs to say about "every run" or "every reachable state" goes through the
rules below, so the induction on runs is written once:

* `Run.invariant` — what each step preserves holds at the end of every run;
* `Run.invariant_of_end` — the same under a condition that is only known of the last state;
* `Run.traced` — the same with the labels of the run so far as a parameter;
* `Run.simulates` — a step-by-step simulation lifts to runs with the same labels; the relation may
  mention the number of steps taken so far, and need only hold up to a bounded number of calls;
* `Run.related` — a relation between two runs whose labels are related one by one;
* `Run.settles` — a call that lowers a measure cannot be repeated for ever.

`Guarded G step` is the step relation restricted to the steps whose label and starting state meet
`G`; a run of it is a run all of whose steps meet the condition.
-/

namespace Transition

variable {σ τ ι : Type*}

/-- A finite run from `s` to `t`; the labels are listed in the order in which they were taken. -/
inductive Run (step : σ → ι → σ → Prop) : σ → List ι → σ → Prop
  | nil (s : σ) : Run step s [] s
  | snoc {s t u : σ} {as : List ι} {a : ι} :
      Run step s as t → step t a u → Run step s (as ++ [a]) u

/-- The steps of `step` that start in a state, and carry a label, meeting `G`. -/
def Guarded (G : σ → ι → Prop) (step : σ → ι → σ → Prop) (s : σ) (a : ι) (t : σ) : Prop :=
  G s a ∧ step s a t

namespace Run

variable {step : σ → ι → σ → Prop}

theorem single {s t : σ} {a : ι} (h : step s a t) : Run step s [a] t :=
  (Run.nil s).snoc h

theorem append {s t u : σ} {as bs : List ι} (h₁ : Run step s as t) (h₂ : Run step t bs u) :
    Run step s (as ++ bs) u := by
  induction h₂ with
  | nil => simpa using h₁
  | snoc _ hstep ih =>
    rw [← List.append_assoc]
    exact ih.snoc hstep

theorem cons {s t u : σ} {a : ι} {as : List ι} (h : step s a t) (hrun : Run step t as u) :
    Run step s (a :: as) u :=
  (single h).append hrun

theorem nil_iff {s t : σ} : Run step s [] t ↔ t = s := by
  constructor
  · intro hrun
    generalize hbs : ([] : List ι) = bs at hrun
    cases hrun with
    | nil => rfl
    | snoc =>
      exact absurd hbs.symm (List.append_ne_nil_of_right_ne_nil _ (List.cons_ne_nil _ []))
  · rintro rfl
    exact Run.nil t

/-- The last step of a run. -/
theorem snoc_iff {s u : σ} {as : List ι} {a : ι} :
    Run step s (as ++ [a]) u ↔ ∃ t, Run step s as t ∧ step t a u := by
  constructor
  · intro hrun
    generalize hbs : as ++ [a] = bs at hrun
    cases hrun with
    | nil => exact absurd hbs (List.append_ne_nil_of_right_ne_nil as (List.cons_ne_nil a []))
    | snoc hfront hstep =>
      obtain ⟨rfl, hlast⟩ := List.append_inj' hbs rfl
      obtain rfl := List.head_eq_of_cons_eq hlast
      exact ⟨_, hfront, hstep⟩
  · rintro ⟨t, hfront, hstep⟩
    exact hfront.snoc hstep

/-- The first step of a run. -/
theorem cons_iff {s u : σ} {a : ι} {as : List ι} :
    Run step s (a :: as) u ↔ ∃ t, step s a t ∧ Run step t as u := by
  refine ⟨fun hrun ↦ ?_, fun ⟨t, hstep, hrun⟩ ↦ cons hstep hrun⟩
  induction as using List.reverseRecOn generalizing u with
  | nil =>
    obtain ⟨t, hnil, hstep⟩ := snoc_iff.1 (by rwa [List.nil_append] : Run step s ([] ++ [a]) u)
    exact ⟨u, nil_iff.1 hnil ▸ hstep, Run.nil u⟩
  | append_singleton as b ih =>
    obtain ⟨t, hfront, hstep⟩ := snoc_iff.1 (by rwa [← List.cons_append] at hrun)
    obtain ⟨v, hfirst, hrest⟩ := ih hfront
    exact ⟨v, hfirst, hrest.snoc hstep⟩

/-- Where a step has one outcome, so has a run. -/
theorem unique {s t t' : σ} {as : List ι} (hrun : Run step s as t) (hrun' : Run step s as t')
    (hstep : ∀ {s a t t'}, step s a t → step s a t' → t = t') : t = t' := by
  induction hrun generalizing t' with
  | nil => exact (nil_iff.1 hrun').symm
  | snoc _ h ih =>
    obtain ⟨u, hfront, hlast⟩ := snoc_iff.1 hrun'
    exact hstep h (ih hfront ▸ hlast)

/-- A step function, run as a fold. -/
theorem of_foldlM {f : σ → ι → Option σ} {as : List ι} {s t : σ} (h : as.foldlM f s = some t) :
    Run (fun s a t ↦ f s a = some t) s as t := by
  induction as generalizing s with
  | nil => exact Option.some.inj h ▸ nil _
  | cons a as ih =>
    rw [List.foldlM_cons] at h
    obtain ⟨u, hu, h⟩ := Option.bind_eq_some_iff.1 h
    exact cons hu (ih h)

/-- **The invariant rule.** -/
theorem invariant {I : σ → Prop} (hstep : ∀ {s a t}, I s → step s a t → I t) {s t : σ}
    {as : List ι} (hrun : Run step s as t) (hs : I s) : I t := by
  induction hrun with
  | nil => exact hs
  | snoc _ h ih => exact hstep ih h

/-- **The hindsight rule**: an invariant that a step preserves only if its outcome meets `Q`. When
`Q` cannot become true again once it is false, it is enough that it holds at the end of the run. -/
theorem invariant_of_end {I Q : σ → Prop} (hback : ∀ {s a t}, step s a t → Q t → Q s)
    (hstep : ∀ {s a t}, I s → step s a t → Q t → I t) {s t : σ} {as : List ι}
    (hrun : Run step s as t) (hs : I s) (ht : Q t) : I t := by
  induction hrun with
  | nil => exact hs
  | snoc _ h ih => exact hstep (ih (hback h ht)) h ht

/-- **The history rule**: an invariant that may mention what has been done so far. -/
theorem traced {I : List ι → σ → Prop} (hstep : ∀ {as s a t}, I as s → step s a t → I (as ++ [a]) t)
    {s t : σ} {as : List ι} (hrun : Run step s as t) (hs : I [] s) : I as t := by
  induction hrun with
  | nil => exact hs
  | snoc _ h ih => exact hstep ih h

/-- **The simulation rule**: a relation preserved by matching steps is preserved by runs with the
same labels. It may mention how many steps have been taken, and need only be preserved below the
bound `n`. -/
theorem simulates (step' : τ → ι → τ → Prop) {R : ℕ → σ → τ → Prop} {n : ℕ}
    (hstep : ∀ {k s a t s'}, k < n → R k s s' → step s a t → ∃ t', step' s' a t' ∧ R (k + 1) t t')
    {s t : σ} {as : List ι} (hrun : Run step s as t) {s' : τ} (hs : R 0 s s')
    (hn : as.length ≤ n) : ∃ t', Run step' s' as t' ∧ R as.length t t' := by
  induction hrun with
  | nil => exact ⟨s', Run.nil s', hs⟩
  | snoc _ h ih =>
    rw [List.length_append, List.length_singleton] at hn ⊢
    obtain ⟨t', hrun', ht⟩ := ih (by omega)
    obtain ⟨u', hu', hu⟩ := hstep (by omega) ht h
    exact ⟨u', hrun'.snoc hu', hu⟩

/-- **The rule for two runs**: a relation preserved by steps with related labels holds at the end of
two runs whose labels are related one by one. -/
theorem related {κ : Type*} {step' : τ → κ → τ → Prop} {R : σ → τ → Prop} {L : ι → κ → Prop}
    (hstep : ∀ {s a t s' b t'}, R s s' → L a b → step s a t → step' s' b t' → R t t')
    {s t : σ} {s' t' : τ} {as : List ι} {bs : List κ} (hlabels : List.Forall₂ L as bs)
    (hrun : Run step s as t) (hrun' : Run step' s' bs t') (hs : R s s') : R t t' := by
  induction hlabels generalizing s s' with
  | nil => exact nil_iff.1 hrun ▸ nil_iff.1 hrun' ▸ hs
  | cons hab _ ih =>
    obtain ⟨u, hfirst, hrest⟩ := cons_iff.1 hrun
    obtain ⟨u', hfirst', hrest'⟩ := cons_iff.1 hrun'
    exact ih hrest hrest' (hstep hs hab hfirst hfirst')

/-- **The measure rule**: a call that lowers a measure is at last no step, after no more repetitions
than the measure is. -/
theorem settles {I : σ → Prop} (measure : σ → ℕ) {a : ι}
    (hstep : ∀ {s t}, I s → step s a t → I t ∧ measure t < measure s) {s : σ} (hs : I s) :
    ∃ n ≤ measure s, ∃ t, Run step s (List.replicate n a) t ∧ I t ∧ ∀ u, ¬step t a u := by
  induction hmeasure : measure s using Nat.strongRecOn generalizing s with
  | _ bound ih =>
    rcases em (∃ t, step s a t) with ⟨t, ht⟩ | hstuck
    · obtain ⟨hinv, hless⟩ := hstep hs ht
      obtain ⟨n, hn, u, hrun, hu⟩ := ih (measure t) (hmeasure ▸ hless) hinv rfl
      exact ⟨n + 1, by omega, u, cons ht hrun, hu⟩
    · exact ⟨0, Nat.zero_le _, s, nil s, hs, fun u hu ↦ hstuck ⟨u, hu⟩⟩

/-- Where every call is a step, there is a run with any calls. -/
theorem exists_of_total (hstep : ∀ s a, ∃ t, step s a t) (s : σ) (as : List ι) :
    ∃ t, Run step s as t := by
  induction as generalizing s with
  | nil => exact ⟨s, nil s⟩
  | cons a as ih =>
    obtain ⟨t, hfirst⟩ := hstep s a
    obtain ⟨u, hrest⟩ := ih t
    exact ⟨u, cons hfirst hrest⟩

/-- A run of steps that are steps of another relation. -/
theorem mono {step' : σ → ι → σ → Prop} (hstep : ∀ {s a t}, step s a t → step' s a t) {s t : σ}
    {as : List ι} (hrun : Run step s as t) : Run step' s as t := by
  induction hrun with
  | nil => exact Run.nil s
  | snoc _ h ih => exact ih.snoc (hstep h)

/-- Forgetting the guard of a run. -/
theorem of_guarded {G : σ → ι → Prop} {s t : σ} {as : List ι}
    (hrun : Run (Guarded G step) s as t) : Run step s as t :=
  hrun.mono fun h ↦ h.2

end Run

end Transition
