import BitRev.Framework.Run
import BitRev.Swarm.IpFilter

/-!
# Reloading the blocklist

`open`, `reload` and `poll_mtime` of `ip_filter.rs`, each under the lock of the handle, with
rewrites of the file between their calls to the file system. `load_file` asks for the modification
time after it has read the file, so a rewrite between the two leaves the old list under the new time
(`poll_stale`). Where there is none, a poll after the last rewrite ends with the list of the file
(`poll_current`). The file is always there; the hits and `loaded_at` are left out.
-/

namespace BitRev.IpFilterHandle

open List Option

/-- The text of the file, `none` if it is not UTF-8. -/
abbrev Contents := Option (List Char)

/-- Where the call that holds the lock is in `load_file`. -/
inductive Pc where
  | idle
  | reading
  /-- Before it asks for the modification time. -/
  | stat (read : Contents)
  deriving DecidableEq

structure Watch where
  contents : Contents
  mtime : Nat
  /-- The modification times that the file has had. -/
  used : List Nat
  filter : IpFilter := {}
  loaded : Option Nat := none
  pc : Pc := .reading
  /-- What the calls so far have read, the last first. -/
  reads : List Contents := []

inductive Act where
  | rewrite (contents : Contents) (mtime : Nat)
  | reload
  | pollMtime
  /-- The next call to the file system of the call that holds the lock. -/
  | resume

def Act.rewrites : Act → Bool
  | .rewrite .. => true
  | _ => false

variable (readV6 : List Char → Option (BitVec 128))

def parseContents (contents : Contents) : Option IpFilter :=
  contents.bind fun text => (IpFilter.parse readV6 text).toOption

def step (s : Watch) : Act → Option Watch
  | .rewrite contents mtime =>
    if mtime ∈ s.used then none else some { s with contents, mtime, used := mtime :: s.used }
  | .reload => if s.pc = .idle then some { s with pc := .reading } else none
  | .pollMtime =>
    if s.pc = .idle then some (if s.loaded = some s.mtime then s else { s with pc := .reading })
    else none
  | .resume =>
    match s.pc with
    | .idle => none
    | .reading => some { s with pc := .stat s.contents }
    | .stat read =>
      let s := { s with pc := .idle, reads := read :: s.reads }
      match parseContents readV6 read with
      | some filter => some { s with filter, loaded := some s.mtime }
      -- the previous list is kept, and the next poll tries again
      | none => some s

structure Inv (s : Watch) : Prop where
  used : s.mtime ∈ s.used
  loaded : ∀ m ∈ s.loaded, m ∈ s.used
  current : s.loaded = some s.mtime → parseContents readV6 s.contents = some s.filter
  last : s.filter = (s.reads.findSome? (parseContents readV6)).getD {}
  stat : ∀ read, s.pc = .stat read → read = s.contents

/-- If no call is in progress, the list is the one of the file, or the file does not parse. -/
def Polled (s : Watch) : Prop :=
  s.pc = .idle → s.loaded = some s.mtime ∨ parseContents readV6 s.contents = none

variable {readV6} {s s' : Watch} {a : Act}

lemma Inv.next (h : Inv readV6 s) (hok : a.rewrites → s.pc = .idle ∨ s.pc = .reading)
    (hs : step readV6 s a = some s') :
    Inv readV6 s' ∧ (a.rewrites = false → Polled readV6 s → Polled readV6 s') := by
  cases a with
  | rewrite contents mtime =>
    obtain ⟨hnew, hs⟩ := ite_none_left_eq_some.1 hs
    cases hs
    refine ⟨⟨mem_cons_self, fun m hm => mem_cons_of_mem _ (h.loaded m hm), fun hl => ?_, h.last,
      fun read hpc => ?_⟩, nofun⟩
    · exact absurd (h.loaded _ hl) hnew
    · simp [show s.pc = .stat read from hpc, Act.rewrites] at hok
  | reload =>
    obtain ⟨-, hs⟩ := ite_none_right_eq_some.1 hs
    cases hs
    exact ⟨{ h with stat := nofun }, fun _ _ => nofun⟩
  | pollMtime =>
    obtain ⟨-, hs⟩ := ite_none_right_eq_some.1 hs
    cases hs
    split_ifs
    · exact ⟨h, fun _ => id⟩
    · exact ⟨{ h with stat := nofun }, fun _ _ => nofun⟩
  | resume =>
    simp only [step] at hs
    split at hs
    · cases hs
    · cases hs
      exact ⟨{ h with stat := fun read hpc => (Pc.stat.inj hpc).symm }, fun _ _ => nofun⟩
    · rename_i read hpc
      obtain rfl := h.stat read hpc
      split at hs <;> rename_i hp <;> cases hs
      · exact ⟨⟨h.used, by simp [h.used], fun _ => hp, by simp [hp], nofun⟩, fun _ _ _ => .inl rfl⟩
      · exact ⟨⟨h.used, h.loaded, h.current, by simpa [hp] using h.last, nofun⟩,
          fun _ _ _ => .inr hp⟩

/-- If no rewrite falls between the two calls of a `load_file`, then once the file is not rewritten
any more and a poll has ended, the filter is the one of the file, or of the last contents read that
parsed if the file does not. -/
theorem poll_current (readV6 : List Char → Option (BitVec 128)) (contents : Contents) (mtime : Nat)
    (as bs : List Act) (s s' : Watch)
    (hrun : Run (step readV6) (fun s a => a.rewrites → s.pc = .idle ∨ s.pc = .reading)
      { contents, mtime, used := [mtime] } as s)
    (hpoll : Run (step readV6) (fun _ a => a.rewrites = false) s (.pollMtime :: bs) s')
    (hdone : s'.pc = .idle) :
    s'.filter = ((parseContents readV6 s'.contents).or
      (s'.reads.findSome? (parseContents readV6))).getD {} := by
  have hinv : Inv readV6 s := hrun.inv (fun h hok hs => (h.next hok hs).1)
    ⟨mem_cons_self, nofun, nofun, rfl, nofun⟩
  cases hpoll with
  | @cons _ s₁ _ _ _ _ hs hrest =>
  have hpolled : Polled readV6 s₁ := by
    obtain ⟨-, hs⟩ := ite_none_right_eq_some.1 hs
    cases hs
    split_ifs with hl
    · exact fun _ => .inl hl
    · exact nofun
  obtain ⟨hinv', hend⟩ := hrest.inv (I := fun s => Inv readV6 s ∧ Polled readV6 s)
    (fun ⟨hi, hp⟩ ha hs => (hi.next (by simp [ha]) hs).imp_right fun hnext => hnext ha hp)
    ⟨(hinv.next (by simp [Act.rewrites]) hs).1, hpolled⟩
  rcases hend hdone with hl | hnone
  · rw [hinv'.current hl]
    rfl
  · rw [hnone]
    exact hinv'.last

/-- A list of one address. -/
def oneAddress : Contents := some "10.0.0.1".toList

theorem poll_current_rewritten : ∃ s s', Run (step fun _ => none)
      (fun s a => a.rewrites → s.pc = .idle ∨ s.pc = .reading)
      { contents := some [], mtime := 0, used := [0] } [.resume, .resume, .rewrite oneAddress 1] s ∧
    Run (step fun _ => none) (fun _ a => a.rewrites = false) s [.pollMtime, .resume, .resume] s' ∧
    s'.filter = ((parseContents (fun _ => none) s'.contents).or
      (s'.reads.findSome? (parseContents fun _ => none))).getD {} :=
  have hrun := Run.of_isSome
  have hpoll := Run.of_isSome
  ⟨_, _, hrun, hpoll, poll_current _ _ _ _ _ _ _ hrun hpoll (by decide)⟩

/-- The file is rewritten between the two calls of a `reload`: no later poll reads it. -/
theorem poll_stale : ∃ s, Run (step fun _ => none) anyStep
      { contents := some [], mtime := 0, used := [0] }
      [.resume, .resume, .reload, .resume, .rewrite oneAddress 1, .resume, .pollMtime] s ∧
    s.pc = .idle ∧ s.filter = {} ∧
    parseContents (fun _ => none) s.contents = some { v4 := [(0x0a000001, 0x0a000001)] } :=
  ⟨_, .of_isSome, by decide, by decide, by decide⟩

end BitRev.IpFilterHandle
