import Mathlib

/-!
# Programs that make calls to a shared device

A `Prog E R α` makes calls `e : E`, each answered by an `R e`, and at the end returns an `α`. A
device answers a call by `perform s e o`: the answer and the state after it, where the outcome `o`
is the device's choice. `Prog.run` runs a program alone.

Where several programs share the device, each is reasoned about under a `Setting`: what the others
may do to the state between two of its calls (`rely`), and what it promises its own calls do
(`guar`). `Prog.wp` is the weakest precondition of a program in a setting:

* `wp_ret`, `wp_bind`, `wp_mono`: the rules by which a program is proved;
* `wp_stable`: what the others do keeps it;
* `wp_step`: the program's own next call keeps it, and meets the promise;
* `run_wp`: a program that runs alone ends in its postcondition.

`Prog.All P` says of a program that all it calls is in `P`, whatever the answers are.
-/

namespace BitRev

variable {E : Type} {R : E → Type} {α β S O : Type}

inductive Prog (E : Type) (R : E → Type) (α : Type) where
  | ret (a : α)
  | call (e : E) (k : R e → Prog E R α)

namespace Prog

def bind : Prog E R α → (α → Prog E R β) → Prog E R β
  | .ret a, f => f a
  | .call e k, f => .call e fun r => (k r).bind f

/-- The result of a program that runs alone, and the state it leaves. The `n`-th call has the
outcome `os n`. -/
def run (perform : S → (e : E) → O → R e × S) : Prog E R α → (Nat → O) → S → α × S
  | .ret a, _, s => (a, s)
  | .call e k, os, s =>
    let (r, s') := perform s e (os 0)
    (k r).run perform (fun n => os (n + 1)) s'

/-- Every call of the program satisfies `P`, whatever the answers. -/
def All (P : E → Prop) : Prog E R α → Prop
  | .ret _ => True
  | .call e k => P e ∧ ∀ r, (k r).All P

lemma All.bind {P : E → Prop} {p : Prog E R α} {f : α → Prog E R β} (hp : p.All P)
    (hf : ∀ a, (f a).All P) : (p.bind f).All P := by
  induction p with
  | ret a => exact hf a
  | call e k ih => exact ⟨hp.1, fun r => ih r (hp.2 r)⟩

end Prog

/-- A device, the outcomes it may choose, and what a program and those around it do to its state. -/
structure Setting (E : Type) (R : E → Type) (S O : Type) where
  perform : S → (e : E) → O → R e × S
  allowed : O → Prop
  rely : S → S → Prop
  guar : S → S → Prop
  rely_refl : ∀ s, rely s s
  rely_trans : ∀ {s s' s''}, rely s s' → rely s' s'' → rely s s''

namespace Prog

variable {C : Setting E R S O} {Q Q' : α → S → Prop} {s s' : S}

/-- From the state `s` on, however the others interfere, every call meets the promise of the
setting and the result satisfies `Q`. -/
def wp (C : Setting E R S O) : Prog E R α → (α → S → Prop) → S → Prop
  | .ret a, Q, s => ∀ s', C.rely s s' → Q a s'
  | .call e k, Q, s => ∀ s', C.rely s s' → ∀ o, C.allowed o →
      C.guar s' (C.perform s' e o).2 ∧ (k (C.perform s' e o).1).wp C Q (C.perform s' e o).2

lemma wp_ret {a : α} (h : ∀ s', C.rely s s' → Q a s') : (Prog.ret a : Prog E R α).wp C Q s := h

/-- A program whose precondition survives interference need only be proved to make its next call
well. -/
lemma wp_call {e : E} {k : R e → Prog E R α} {I : S → Prop} (hs : I s)
    (hI : ∀ s s', I s → C.rely s s' → I s')
    (h : ∀ s, I s → ∀ o, C.allowed o →
      C.guar s (C.perform s e o).2 ∧ (k (C.perform s e o).1).wp C Q (C.perform s e o).2) :
    (Prog.call e k).wp C Q s :=
  fun s' hr => h s' (hI s s' hs hr)

variable {p : Prog E R α}

lemma wp_stable (h : p.wp C Q s) (hr : C.rely s s') : p.wp C Q s' := by
  cases p with
  | ret a | call e k => exact fun s'' h' => h s'' (C.rely_trans hr h')

lemma wp_mono (hQ : ∀ a s, Q a s → Q' a s) (h : p.wp C Q s) : p.wp C Q' s := by
  induction p generalizing s with
  | ret a => exact fun s' hr => hQ a s' (h s' hr)
  | call e k ih =>
    intro s' hr o ho
    exact ⟨(h s' hr o ho).1, ih _ (h s' hr o ho).2⟩

lemma wp_bind {f : α → Prog E R β} {Q : β → S → Prop} (h : p.wp C (fun a s => (f a).wp C Q s) s) :
    (p.bind f).wp C Q s := by
  induction p generalizing s with
  | ret a => exact h s (C.rely_refl s)
  | call e k ih =>
    intro s' hr o ho
    exact ⟨(h s' hr o ho).1, ih _ (h s' hr o ho).2⟩

lemma wp_done {a : α} (h : (Prog.ret a : Prog E R α).wp C Q s) : Q a s := h s (C.rely_refl s)

lemma wp_step {e : E} {k : R e → Prog E R α} (h : (Prog.call e k).wp C Q s) {o : O}
    (ho : C.allowed o) :
    C.guar s (C.perform s e o).2 ∧ (k (C.perform s e o).1).wp C Q (C.perform s e o).2 :=
  h s (C.rely_refl s) o ho

/-- Alone, a program ends in its postcondition, and all it did is what its calls promise. -/
lemma run_wp {G : S → S → Prop} (hrefl : ∀ s, G s s)
    (htrans : ∀ {s s' s''}, C.guar s s' → G s' s'' → G s s'') {os : Nat → O}
    (hos : ∀ n, C.allowed (os n)) (h : p.wp C Q s) :
    Q (p.run C.perform os s).1 (p.run C.perform os s).2 ∧ G s (p.run C.perform os s).2 := by
  induction p generalizing s os with
  | ret a => exact ⟨wp_done h, hrefl s⟩
  | call e k ih =>
    have hstep := wp_step h (hos 0)
    have hrest := ih (C.perform s e (os 0)).1 (fun n => hos (n + 1)) hstep.2
    exact ⟨hrest.1, htrans hstep.1 hrest.2⟩

end Prog

end BitRev
