import BitRev.Framework.Run
import BitRev.Metainfo.Magnet

/-!
# The port mappings of the router

`run` of `nat.rs` adds a mapping for each target, renews those it has each half lease and deletes
them when it is cancelled.
-/

namespace BitRev

open List

inductive MapProto
  | tcp
  | udp
  deriving DecidableEq

structure Mapping where
  protocol : MapProto
  externalPort : UInt16
  externalIp : Option IpAddr
  deriving DecidableEq

def externalAddr (mapped : List Mapping) : Option SocketAddr := do
  let mapping ← (mapped.find? (·.protocol = .tcp)).or mapped.head?
  some ⟨← mapping.externalIp, mapping.externalPort⟩

/-- Mappings, each with the number of its target. -/
abbrev Mapped := List (Nat × Mapping)

/-- Where `run` stands. -/
inductive MapperAt
  | adding (targets : List (MapProto × UInt16)) (n : Nat) (mapped : Mapped)
  | probing (mapped : Mapped)
  | waiting (mapped : Mapped)
  | renewing (renewed mapped : Mapped)
  | deleting (mapped : Mapped)
  | done

structure Mapper where
  pos : MapperAt
  external : Option SocketAddr := none
  portOpen : Option Bool := none

/-- A call of the port mapper, with the number of the target it is for and what it returns, or what
else `run` waits for; `next` is the end of a loop. -/
inductive MapperEvent
  | add (n : Nat) (r : Option Mapping)
  | renew (n : Nat) (mapping : Mapping) (r : Option Mapping)
  | delete (n : Nat) (mapping : Mapping)
  | cancelled
  | probed (isOpen : Bool)
  | slept
  | next

namespace Mapper

def step (s : Mapper) (e : MapperEvent) : Option Mapper :=
  match s.pos, e with
  | .adding (_ :: targets) n mapped, .add n' r =>
    if n' = n then
      some { s with pos := .adding targets (n + 1) (mapped ++ (r.map (n, ·)).toList) }
    else none
  | .adding [] _ mapped, .next =>
    if mapped.isEmpty then some { s with pos := .done }
    else match externalAddr (mapped.map Prod.snd) with
      | some addr => some { s with external := some addr, pos := .probing mapped }
      | none => some { s with pos := .waiting mapped }
  | .probing mapped, .probed isOpen =>
    some { s with portOpen := some isOpen, pos := .waiting mapped }
  | .probing mapped, .cancelled => some { s with pos := .deleting mapped }
  | .waiting mapped, .cancelled => some { s with pos := .deleting mapped }
  | .waiting mapped, .slept => some { s with pos := .renewing [] mapped }
  | .renewing renewed (m :: mapped), .renew n mapping r =>
    if m = (n, mapping) then
      some { s with pos := .renewing (renewed ++ [(n, r.getD mapping)]) mapped }
    else none
  | .renewing renewed [], .next =>
    some { s with
      external := (externalAddr (renewed.map Prod.snd)).or s.external
      pos := .waiting renewed }
  | .deleting (m :: mapped), .delete n mapping =>
    if m = (n, mapping) then some { s with pos := .deleting mapped } else none
  | .deleting [], .next => some { s with pos := .done }
  | _, _ => none

/-! ## What the calls leave behind -/

/-- The mapping of the latest successful `add` or `renew` of a target. -/
def latest (n : Nat) (es : List MapperEvent) : Option Mapping :=
  es.foldl (fun old e => match e with
    | .add n' r | .renew n' _ r => if n' = n then r.or old else old
    | _ => old) none

/-- What `delete` was called with for a target. -/
def deletes (n : Nat) (es : List MapperEvent) : List Mapping :=
  es.flatMap fun
    | .delete n' mapping => if n' = n then [mapping] else []
    | _ => []

end Mapper

/-- The mappings `run` has to delete. -/
@[simp]
def MapperAt.held : MapperAt → Mapped
  | adding _ _ mapped | probing mapped | waiting mapped | deleting mapped => mapped
  | renewing renewed mapped => renewed ++ mapped
  | done => []

namespace Mapper

/-- Of each target the latest mapping is held or has been deleted, once. -/
structure Inv (es : List MapperEvent) (s : Mapper) : Prop where
  holds : ∀ n, deletes n es ++ (s.pos.held.filter (·.1 = n)).map (·.2) = (latest n es).toList
  added : ∀ {targets k mapped}, s.pos = .adding targets k mapped → ∀ n ≥ k, latest n es = none
  renewed : ∀ es₁ n mapping r es₂, es = es₁ ++ .renew n mapping r :: es₂ →
    latest n es₁ = some mapping

variable {es : List MapperEvent} {s s' : Mapper} {e : MapperEvent}

/-- What is at hand of a target is its latest mapping. -/
lemma Inv.latest_of_mem (hi : s.Inv es) {n : Nat} {mapping : Mapping}
    (h : (n, mapping) ∈ s.pos.held) : latest n es = some mapping := by
  have hmem : mapping ∈ deletes n es ++ (s.pos.held.filter (·.1 = n)).map (·.2) :=
    mem_append_right _ (mem_map.2 ⟨_, mem_filter.2 ⟨h, by simp⟩, rfl⟩)
  rw [hi.holds] at hmem
  exact Option.mem_toList.1 hmem

/-- An event after which `run` holds what it held before, with `old` of target `n` renewed to what
the event makes of it. -/
lemma Inv.holds_snoc (hi : s.Inv es) {n : Nat} {r old : Option Mapping} (l l' : Mapped)
    (hold : latest n es = old) (hheld : s.pos.held = l ++ (old.map (n, ·)).toList ++ l')
    (hl : ∀ k, latest k (es ++ [e]) = if n = k then r.or (latest k es) else latest k es)
    (hd : ∀ k, deletes k (es ++ [e]) = deletes k es) (k : Nat) :
    deletes k (es ++ [e]) ++
        ((l ++ ((r.or old).map (n, ·)).toList ++ l').filter (·.1 = k)).map (·.2) =
      (latest k (es ++ [e])).toList := by
  have hk := hi.holds k
  rw [hheld] at hk
  rw [hl, hd]
  split_ifs with hnk
  · subst hnk
    rw [hold] at hk ⊢
    cases r <;> cases old <;> simp_all [append_eq_singleton_iff, -filter_eq_nil_iff]
  · cases r <;> cases old <;> simp_all

lemma Inv.step (hi : s.Inv es) (_ : anyStep s e) (he : s.step e = some s') :
    s'.Inv (es ++ [e]) := by
  have hrenewed : (∀ n mapping r, e = .renew n mapping r → (n, mapping) ∈ s.pos.held) →
      ∀ es₁ n mapping r es₂, es ++ [e] = es₁ ++ .renew n mapping r :: es₂ →
        latest n es₁ = some mapping := by
    intro hlast es₁ n mapping r es₂ heq
    rcases es₂.eq_nil_or_concat with rfl | ⟨es₂, e', rfl⟩
    · obtain ⟨rfl, he⟩ := append_inj' heq rfl
      exact hi.latest_of_mem (hlast n mapping r (by simpa using he))
    · rw [concat_eq_append, ← cons_append, ← append_assoc] at heq
      exact hi.renewed _ _ _ _ _ (append_inj' heq rfl).1
  unfold Mapper.step at he
  split at he
  case h_1 targets n mapped k r hpos _ =>
    split_ifs at he with hk
    cases he
    subst hk
    have hn := hi.added hpos
    refine ⟨?_, fun hp j hj => ?_, hrenewed (by simp)⟩
    · simpa using hi.holds_snoc (e := .add k r) (r := r) mapped [] (hn k le_rfl) (by simp [hpos])
        (by simp [latest]) (by simp [deletes])
    · cases hp
      have hkj : k ≠ j := by omega
      simpa [latest, hkj] using hn j (by omega)
  case h_2 hpos _ =>
    have hh := hi.holds
    rw [hpos] at hh
    split at he
    · cases he
      exact ⟨by simp_all [latest, deletes], nofun, hrenewed (by simp)⟩
    · split at he <;> cases he <;>
        exact ⟨by simpa [latest, deletes] using hh, nofun, hrenewed (by simp)⟩
  case h_7 renewed m mapped n mapping r hpos _ =>
    split_ifs at he with hm
    cases he
    have hmem : (n, mapping) ∈ s.pos.held := by simp [hpos, hm]
    refine ⟨?_, nofun, hrenewed ?_⟩
    · simpa using hi.holds_snoc (e := .renew n mapping r) (r := r) renewed mapped
        (hi.latest_of_mem hmem) (by simp [hpos, hm]) (by simp [latest]) (by simp [deletes])
    · rintro _ _ _ ⟨⟩
      exact hmem
  case h_9 m mapped n mapping hpos _ =>
    split_ifs at he with hm
    cases he
    have hh := hi.holds
    refine ⟨fun k => ?_, nofun, hrenewed (by simp)⟩
    have hk := hh k
    rw [hpos, hm] at hk
    by_cases hnk : n = k <;> simp_all [latest, deletes]
  case h_11 => cases he
  all_goals
    cases he
    have hh := hi.holds
    exact ⟨by simpa [*, latest, deletes] using hh, nofun, hrenewed (by simp)⟩

/-- When `run` ends, `delete` has been called once for each target whose `add` succeeded, with the
mapping of its latest successful `add` or `renew`, and for no other mapping; and `renew` is called
with the latest mapping of its target. -/
theorem run_deletes {targets : List (MapProto × UInt16)}
    (hrun : Run Mapper.step anyStep { pos := .adding targets 0 [] } es s) (hs : s.pos = .done) :
    (∀ n, deletes n es = (latest n es).toList) ∧
      ((∀ n, deletes n es = []) → ∀ n, latest n es = none) ∧
      ∀ es₁ n mapping r es₂, es = es₁ ++ .renew n mapping r :: es₂ →
        latest n es₁ = some mapping := by
  have hstart : Inv [] { pos := .adding targets 0 [] } :=
    ⟨fun _ => rfl, fun _ _ _ => rfl, by simp⟩
  have hi : s.Inv es := hrun.inv_log Inv.step hstart
  have hdel : ∀ n, deletes n es = (latest n es).toList := fun n => by
    simpa [hs] using hi.holds n
  refine ⟨hdel, fun hnil n => ?_, hi.renewed⟩
  simpa [hnil] using (hdel n).symm

def renewedOnce : List MapperEvent :=
  [.add 0 (some ⟨.tcp, 1, none⟩), .next, .slept, .renew 0 ⟨.tcp, 1, none⟩ (some ⟨.tcp, 2, none⟩),
    .next, .cancelled, .delete 0 ⟨.tcp, 2, none⟩, .next]

theorem run_deletes_renewed :
    ∃ s, Run Mapper.step anyStep { pos := .adding [(.tcp, 1)] 0 [] } renewedOnce s ∧
      s.pos = .done ∧ ∀ n, deletes n renewedOnce = (latest n renewedOnce).toList :=
  have hrun := Run.of_isSome
  ⟨_, hrun, rfl, (run_deletes hrun rfl).1⟩

end Mapper

end BitRev
