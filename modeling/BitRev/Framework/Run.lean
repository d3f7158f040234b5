import Mathlib

/-!
# Runs of a guarded step function

A system is an executable step function `step : σ → α → Option σ`: `step s a` is the state after
the step `a`, or `none` where `a` cannot be taken. `Run step ok s as s'` says that the steps `as`
lead from `s` to `s'` and that each of them meets `ok` in the state it is taken in; `anyStep` is
the guard every step meets. A property of the last state of every run is a property of every state
reached, since a run may stop anywhere.

* `Run.inv`: what holds at the start and every guarded step keeps holds at the end.
* `Run.inv_log`: the same for what is said of the state and the steps taken so far.
* `Run.mono`: a run under a guard is a run under every weaker one.
* `Run.append`, `Run.snoc`: runs compose.
* `Run.of_exec`, `Run.of_isSome`: what `exec` computes is a run, so a run can be evaluated.
-/

namespace BitRev

variable {σ α : Type*} {step : σ → α → Option σ} {ok ok' : σ → α → Prop}

/-- The steps `as` lead from `s` to `s'`, each meeting `ok` in the state it is taken in. -/
inductive Run (step : σ → α → Option σ) (ok : σ → α → Prop) : σ → List α → σ → Prop
  | nil (s : σ) : Run step ok s [] s
  | cons {s s₁ s' : σ} {a : α} {as : List α} :
    ok s a → step s a = some s₁ → Run step ok s₁ as s' → Run step ok s (a :: as) s'

/-- The guard that every step meets. -/
def anyStep (_ : σ) (_ : α) : Prop := True

/-- An invariant of the guarded steps holds wherever a guarded run leads. -/
lemma Run.inv {I : σ → Prop} (hstep : ∀ {s a s'}, I s → ok s a → step s a = some s' → I s')
    {s s' : σ} {as : List α} (h : Run step ok s as s') (hs : I s) : I s' := by
  induction h with
  | nil => exact hs
  | cons hok he _ ih => exact ih (hstep hs hok he)

/-- What relates the state to the steps taken so far and is kept by each guarded step. -/
lemma Run.inv_log {I : List α → σ → Prop}
    (hstep : ∀ {log s a s'}, I log s → ok s a → step s a = some s' → I (log ++ [a]) s')
    {log as : List α} {s s' : σ} (h : Run step ok s as s') (hs : I log s) : I (log ++ as) s' := by
  induction h generalizing log with
  | nil => rwa [List.append_nil]
  | cons hok he _ ih =>
    rw [List.append_cons]
    exact ih (hstep hs hok he)

lemma Run.mono (himp : ∀ s a, ok s a → ok' s a) {s s' : σ} {as : List α}
    (h : Run step ok s as s') : Run step ok' s as s' := by
  induction h with
  | nil => exact .nil _
  | cons hok he _ ih => exact .cons (himp _ _ hok) he ih

lemma Run.append {s s₁ s' : σ} {as bs : List α} (h : Run step ok s as s₁)
    (h' : Run step ok s₁ bs s') : Run step ok s (as ++ bs) s' := by
  induction h with
  | nil => exact h'
  | cons hok he _ ih => exact .cons hok he (ih h')

lemma Run.snoc {s s₁ s' : σ} {a : α} {as : List α} (h : Run step ok s as s₁)
    (hok : ok s₁ a) (he : step s₁ a = some s') : Run step ok s (as ++ [a]) s' :=
  h.append (.cons hok he (.nil _))

/-- The state after the steps `as`, if each is enabled and meets `ok`. -/
def exec (step : σ → α → Option σ) (ok : σ → α → Prop) [∀ s a, Decidable (ok s a)] (s : σ) :
    List α → Option σ
  | [] => some s
  | a :: as =>
    if ok s a then
      match step s a with
      | some s₁ => exec step ok s₁ as
      | none => none
    else none

instance : ∀ (s : σ) (a : α), Decidable (anyStep s a) := fun _ _ => isTrue trivial

lemma Run.of_exec [∀ s a, Decidable (ok s a)] {s s' : σ} {as : List α}
    (h : exec step ok s as = some s') : Run step ok s as s' := by
  induction as generalizing s with
  | nil =>
    cases h
    exact .nil _
  | cons a as ih =>
    simp only [exec] at h
    split_ifs at h with hok
    split at h
    · rename_i s₁ he
      exact .cons hok he (ih h)
    · cases h

/-- Steps that are all enabled and meet `ok` lead somewhere. -/
lemma Run.of_isSome [∀ s a, Decidable (ok s a)] {s : σ} {as : List α}
    (h : (exec step ok s as).isSome = true := by decide +kernel) :
    Run step ok s as ((exec step ok s as).get h) :=
  .of_exec (Option.some_get h).symm

/-- What is evaluated to something is that. -/
lemma eq_some_get {o : Option α} (h : o.isSome = true := by decide +kernel) : o = some (o.get h) :=
  (Option.some_get h).symm

end BitRev
