import Mathlib

/-!
# A window of requests with a changing depth

A sender may have as many requests open as its window is deep. The window is a semaphore: a permit
is taken for every request (`take`), the request is then sent (`spend`) or not (`giveBack`), and
the permit returns when the request is done (`finish`). The depth may change at any time; when it
shrinks, permits that are out cannot be taken back, so the difference becomes a debt that swallows
the next permits to return (`refill`). While the window is not armed there are no permits.

`Credits.Balanced` is the law of conservation, and each operation keeps it:

* `Balanced.arm`, `Balanced.disarm`, `Balanced.take`, `Balanced.spend`, `Balanced.giveBack`,
  `Balanced.finish`, `Balanced.shrink`, `Balanced.growFinish`;
* `Balanced.used_le`, `Balanced.permits_pos`: what it is for.
-/

namespace BitRev

structure Credits where
  permits : Nat
  /-- The requests that have been sent and are not done. -/
  used : Nat
  /-- The permits taken for requests that have not been sent. -/
  held : Nat
  depth : Nat
  debt : Nat
  armed : Bool
  /-- The largest depth so far. -/
  largest : Nat

namespace Credits

section

variable (c : Credits)

def arm : Credits :=
  if c.armed then c else { c with armed := true, permits := c.permits + max c.depth 1 }

/-- All requests are given up. -/
def disarm : Credits :=
  { c with armed := false, debt := 0, permits := 0, used := 0 }

def refill : Credits :=
  if c.debt = 0 then { c with permits := c.permits + 1 } else { c with debt := c.debt - 1 }

def resize (depth : Nat) : Credits :=
  let c' := { c with depth, largest := max c.largest depth }
  if depth = c.depth then c'
  else if depth > c.depth then
    if c.armed then { c' with permits := c.permits + (depth - c.depth) } else c'
  else { c' with debt := c.debt + (c.depth - depth) }

def take : Credits := { c with permits := c.permits - 1, held := c.held + 1 }

def spend : Credits := { c with held := c.held - 1, used := c.used + 1 }

def giveBack : Credits := { c with held := c.held - 1 }.refill

def finish : Credits := { c with used := c.used - 1 }.refill

end

structure Balanced (c : Credits) : Prop where
  armed : c.armed → c.permits + c.used + c.held = c.depth + c.debt
  idle : c.armed = false → c.permits = 0 ∧ c.used = 0 ∧ c.held = 0 ∧ c.debt = 0
  largest : c.depth + c.debt ≤ c.largest
  deep : 2 ≤ c.depth

namespace Balanced

variable {c : Credits}

variable (h : c.Balanced)
include h

/-- No more requests are open than the window was ever deep. -/
lemma used_le : c.used ≤ c.largest := by
  have hl := h.largest
  cases ha : c.armed with
  | true =>
    have hsum := h.armed ha
    omega
  | false =>
    have hnone := h.idle ha
    omega

/-- Without an open request there is a permit. -/
lemma permits_pos (ha : c.armed) (hu : c.used = 0) (hh : c.held ≤ 1) : 0 < c.permits := by
  have hsum := h.armed ha
  have hdeep := h.deep
  omega

lemma armed_of_pos (hpos : 0 < c.permits ∨ 0 < c.used ∨ 0 < c.held) : c.armed := by
  cases ha : c.armed with
  | true => rfl
  | false =>
    have hnone := h.idle ha
    omega

lemma arm : c.arm.Balanced := by
  unfold Credits.arm
  split_ifs with hna
  · exact h
  · have hnone := h.idle (by simpa using hna)
    have hdeep := h.deep
    have hmax : max c.depth 1 = c.depth := by omega
    refine ⟨fun _ => ?_, nofun, h.largest, hdeep⟩
    simp only [hmax]
    omega

lemma disarm (hh : c.held = 0) : c.disarm.Balanced := by
  have hl := h.largest
  refine ⟨nofun, fun _ => ⟨rfl, rfl, hh, rfl⟩, ?_, h.deep⟩
  simp only [Credits.disarm]
  omega

lemma take (hpos : 0 < c.permits) : c.take.Balanced := by
  have ha := h.armed_of_pos (.inl hpos)
  have hsum := h.armed ha
  refine ⟨fun _ => ?_, fun hna => ?_, h.largest, h.deep⟩
  · simp only [Credits.take]
    omega
  · exact absurd (ha.symm.trans hna) nofun

lemma spend (hpos : 0 < c.held) : c.spend.Balanced := by
  have ha := h.armed_of_pos (.inr (.inr hpos))
  have hsum := h.armed ha
  refine ⟨fun _ => ?_, fun hna => ?_, h.largest, h.deep⟩
  · simp only [Credits.spend]
    omega
  · exact absurd (ha.symm.trans hna) nofun

/-- A permit returns for a request that is no longer counted. -/
lemma refill {c' : Credits} (ha : c.armed)
    (hsum : c'.permits + c'.used + c'.held + 1 = c.permits + c.used + c.held)
    (hd : c'.depth = c.depth) (hb : c'.debt = c.debt) (ha' : c'.armed = c.armed)
    (hl : c'.largest = c.largest) : c'.refill.Balanced := by
  have hbal := h.armed ha
  have hlarge := h.largest
  have hdeep := h.deep
  unfold Credits.refill
  split
  · refine ⟨fun _ => ?_, fun hna => ?_, ?_, ?_⟩
    · simp only
      omega
    · exact absurd ((ha'.trans ha).symm.trans hna) nofun
    · simp only [hd, hb, hl]
      exact hlarge
    · exact hd ▸ hdeep
  · refine ⟨fun _ => ?_, fun hna => ?_, ?_, ?_⟩
    · simp only
      omega
    · exact absurd ((ha'.trans ha).symm.trans hna) nofun
    · simp only [hd, hb, hl]
      omega
    · exact hd ▸ hdeep

lemma giveBack (hpos : 0 < c.held) : c.giveBack.Balanced :=
  h.refill (h.armed_of_pos (.inr (.inr hpos))) (by simp only; omega) rfl rfl rfl rfl

lemma finish (hpos : 0 < c.used) : c.finish.Balanced :=
  h.refill (h.armed_of_pos (.inr (.inl hpos))) (by simp only; omega) rfl rfl rfl rfl

lemma shrink {depth : Nat} (hle : depth ≤ c.depth) (hdeep : 2 ≤ depth)
    (ha : depth = c.depth ∨ c.armed) : (c.resize depth).Balanced := by
  have hlarge := h.largest
  unfold Credits.resize
  simp only
  split
  · rename_i he
    refine ⟨fun ha => ?_, h.idle, ?_, hdeep⟩
    · have hsum := h.armed ha
      simp only
      omega
    · simp only
      omega
  · rename_i hne
    have ha := ha.resolve_left hne
    have hsum := h.armed ha
    rw [if_neg (by omega)]
    refine ⟨fun _ => ?_, fun hna => ?_, ?_, hdeep⟩
    · simp only
      omega
    · exact absurd (ha.symm.trans hna) nofun
    · simp only
      omega

/-- A request is done and the window gets deeper by one. Only both together keep the window from
holding more than it was ever deep: the permit that returns pays off what the depth adds. -/
lemma growFinish (hpos : 0 < c.used) :
    ({ c with used := c.used - 1 }.resize (c.depth + 1)).refill.Balanced := by
  have ha := h.armed_of_pos (.inr (.inl hpos))
  have hsum := h.armed ha
  have hlarge := h.largest
  have hdeep := h.deep
  unfold Credits.resize
  simp only [if_neg (show ¬ c.depth + 1 = c.depth by omega),
    if_pos (show c.depth + 1 > c.depth by omega), ha, if_true]
  unfold Credits.refill
  split_ifs with hz
  · simp only at hz
    refine ⟨fun _ => ?_, nofun, ?_, ?_⟩
    · simp only
      omega
    · simp only
      omega
    · simp only
      omega
  · simp only at hz
    refine ⟨fun _ => ?_, nofun, ?_, ?_⟩
    · simp only
      omega
    · simp only
      omega
    · simp only
      omega

end Balanced

end Credits

end BitRev
