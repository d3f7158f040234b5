import BitRev.Dht.Actor

/-!
# Tokens of announcers

What `token.rs` gives `announce_peer`: a token that was issued to an address is accepted from that
address for `TOKEN_ROTATE` and from no other address, and from nobody after two rotations
(`token_window`). Secrets are 16 random bytes; they are assumed to be distinct and the hash to tell
apart what is hashed with them (`Secure`).
-/

namespace BitRev.Dht

open List

namespace AnnounceStore

/-- A peer is stored for a hash. -/
def Has (s : AnnounceStore) (h : NodeId) (p : PeerEntry) : Prop := ∃ x ∈ s.peers, x.1 = h ∧ p ∈ x.2

variable {s : AnnounceStore} {h h' : NodeId} {p : PeerEntry} {addr : SocketAddr} {now : Int}

lemma mem_addPeer {list : List PeerEntry} (hp : p ∈ addPeer list addr now) :
    p ∈ list ∨ p.addr = addr := by
  unfold addPeer at hp
  split at hp
  · rename_i hm
    refine (modifyFirst_mem hm p hp).imp_right ?_
    rintro ⟨q, -, hq, rfl⟩
    exact of_decide_eq_true hq
  · refine (mem_append.1 hp).imp (fun hmem => ?_) fun hmem => by rw [mem_singleton.1 hmem]
    split_ifs at hmem
    · exact (mem_insertionSort _).1 (mem_of_mem_tail hmem)
    · exact hmem

lemma Has.of_expire (hp : (s.expire now).Has h p) : s.Has h p := by
  obtain ⟨x, hx, rfl, hp⟩ := hp
  obtain ⟨y, hy, rfl⟩ := mem_map.1 (mem_filter.1 hx).1
  exact ⟨y, hy, rfl, (mem_filter.1 hp).1⟩

lemma Has.of_evict (hp : (s.evict now).Has h p) : s.Has h p := by
  unfold evict at hp
  split at hp
  · obtain ⟨x, hx, hp⟩ := hp
    exact ⟨x, (mem_filter.1 hx).1, hp⟩
  · exact hp

/-- What an announce stores has the address that is announced. -/
lemma Has.of_announce (hp : (s.announce h addr now).Has h' p) : s.Has h' p ∨ p.addr = addr := by
  unfold announce at hp
  split at hp
  · exact .inl hp
  extract_lets s₀ known s₁ at hp
  have hold : ∀ {h' p}, s₁.Has h' p → s.Has h' p := fun {h' p} hp => by
    have hcases : s₁ = s₀.evict now ∨ s₁ = s₀ := ite_eq_or_eq ..
    rcases hcases with h | h <;> rw [h] at hp
    · exact hp.of_evict.of_expire
    · exact hp.of_expire
  split at hp
  · rename_i hm
    obtain ⟨x, hx, rfl, hp⟩ := hp
    rcases modifyFirst_mem hm x hx with hx | ⟨y, hy, -, rfl⟩
    · exact .inl (hold ⟨x, hx, rfl, hp⟩)
    · exact (mem_addPeer hp).imp_left fun hmem => hold ⟨y, hy, rfl, hmem⟩
  · obtain ⟨x, hx, rfl, hp⟩ := hp
    rcases mem_append.1 hx with hx | hx
    · exact .inl (hold ⟨x, hx, rfl, hp⟩)
    · rw [mem_singleton.1 hx] at hp
      exact .inr ((mem_addPeer hp).resolve_left not_mem_nil)

end AnnounceStore

namespace TokenSecrets

/-- Calls of `maybe_rotate`, each with its time and the secret it would draw. -/
def rotateAll (s : TokenSecrets) (calls : List (Int × Bytes)) : TokenSecrets :=
  calls.foldl (fun s c => s.maybeRotate c.1 c.2) s

/-- How many of the calls rotate. -/
def rotations (s : TokenSecrets) : List (Int × Bytes) → Nat
  | [] => 0
  | c :: calls =>
    (if tokenRotate ≤ since c.1 s.rotatedAt then 1 else 0) +
      rotations (s.maybeRotate c.1 c.2) calls

/-- What is hashed are the secrets with the addresses in `ips`. -/
structure Secure (sha1 : Bytes → Digest) (secrets : List Bytes) (ips : Set IpAddr) : Prop where
  length : ∀ k ∈ secrets, k.length = 16
  nodup : secrets.Nodup
  inj : ∀ k ∈ secrets, ∀ k' ∈ secrets, ∀ ip ∈ ips, ∀ ip' ∈ ips,
    sha1 (k ++ octets ip) = sha1 (k' ++ octets ip') → k ++ octets ip = k' ++ octets ip'

/-- Which calls the secrets come from, and when these were made. -/
lemma rotateAll_cases {all calls : List (Int × Bytes)} (s : TokenSecrets) (hsub : calls ⊆ all) :
    (s.rotations calls = 0 ∧ s.rotateAll calls = s) ∨
    (s.rotations calls = 1 ∧ (s.rotateAll calls).previous = s.current ∧
      ∃ c ∈ all, (s.rotateAll calls).current = c.2 ∧ s.rotatedAt + tokenRotate ≤ c.1) ∨
    ∃ c ∈ all, ∃ c' ∈ all, (s.rotateAll calls).previous = c.2 ∧
      (s.rotateAll calls).current = c'.2 ∧ c.1 + tokenRotate ≤ c'.1 := by
  induction calls generalizing s with
  | nil => exact .inl ⟨rfl, rfl⟩
  | cons c calls ih =>
    obtain ⟨hc, hsub⟩ := cons_subset.1 hsub
    have hstep : s.rotateAll (c :: calls) = (s.maybeRotate c.1 c.2).rotateAll calls := rfl
    rw [hstep, rotations]
    by_cases hr : tokenRotate ≤ since c.1 s.rotatedAt
    · have htime : s.rotatedAt + tokenRotate ≤ c.1 := by
        simp only [since, tokenRotate] at hr ⊢
        omega
      rw [if_pos hr, maybeRotate, if_pos hr]
      rcases ih ⟨c.2, s.current, c.1⟩ hsub with ⟨h0, he⟩ | ⟨-, hp, c', hc', hcur, ht⟩ | h
      · rw [h0, he]
        exact .inr (.inl ⟨rfl, rfl, c, hc, rfl, htime⟩)
      · exact .inr (.inr ⟨c, hc, c', hc', hp, hcur, ht⟩)
      · exact .inr (.inr h)
    · rw [if_neg hr, maybeRotate, if_neg hr, zero_add]
      exact ih s hsub

lemma toBe_inj {n x y : Nat} (hx : x < 256 ^ n) (hy : y < 256 ^ n) (h : toBe n x = toBe n y) :
    x = y := by
  rw [← beToNat_toBe hx, h, beToNat_toBe hy]

lemma octets_inj {ip ip' : IpAddr} (h : octets ip = octets ip') : ip = ip' := by
  have hlen := congrArg length h
  cases ip <;> cases ip' <;> simp only [octets, length_toBe] at h hlen
  · rw [BitVec.eq_of_toNat_eq (toBe_inj (BitVec.isLt _) (BitVec.isLt _) h)]
  · cases hlen
  · cases hlen
  · rw [BitVec.eq_of_toNat_eq (toBe_inj (BitVec.isLt _) (BitVec.isLt _) h)]

variable {sha1 : Bytes → Digest} {secrets : List Bytes} {ips : Set IpAddr} {k k' : Bytes}
  {ip ip' : IpAddr}

lemma Secure.hashToken_inj (h : Secure sha1 secrets ips) (hk : k ∈ secrets) (hk' : k' ∈ secrets)
    (hip : ip ∈ ips) (hip' : ip' ∈ ips)
    (heq : hashToken sha1 k ip = hashToken sha1 k' ip') : k' = k ∧ ip' = ip := by
  have hsha := BitVec.eq_of_toNat_eq (toBe_inj (BitVec.isLt _) (BitVec.isLt _) heq)
  obtain ⟨hsecret, hoctets⟩ := append_inj (h.inj k hk k' hk' ip hip ip' hip' hsha)
    ((h.length k hk).trans (h.length k' hk').symm)
  exact ⟨hsecret.symm, (octets_inj hoctets).symm⟩

lemma validate_iff {s : TokenSecrets} : s.validate sha1 ip' (hashToken sha1 k ip) ↔
    hashToken sha1 k ip = hashToken sha1 s.current ip' ∨
      hashToken sha1 k ip = hashToken sha1 s.previous ip' := by
  rw [validate, Bool.or_eq_true, decide_eq_true_iff, decide_eq_true_iff]

end TokenSecrets

open TokenSecrets

/-- A token that is issued to an address, while `maybe_rotate` is called: within `TOKEN_ROTATE` it is
accepted from that address; it never is from another one, or after two rotations; and an
`announce_peer` with it changes the store for no other address, and stores no other address. -/
theorem token_window (sha1 : Bytes → Digest) (s : TokenSecrets) (calls : List (Int × Bytes))
    (ips : Set IpAddr) (hsecure : Secure sha1 (s.current :: s.previous :: calls.map (·.2)) ips)
    (ip : IpAddr) (hip : ip ∈ ips) (t : Int) :
    ((∀ c ∈ calls, t ≤ c.1 ∧ c.1 < t + tokenRotate) →
      (s.rotateAll calls).validate sha1 ip (s.issue sha1 ip)) ∧
    (∀ ip' ∈ ips, (s.rotateAll calls).validate sha1 ip' (s.issue sha1 ip) →
      ip' = ip ∧ s.rotations calls < 2) ∧
    ∀ (a : DhtActor), a.tokens = s.rotateAll calls → ∀ now src id h port implied, src.ip ∈ ips →
      ∀ store, store = (a.answer sha1 now src
        (.announcePeer id h port (s.issue sha1 ip) implied)).1 →
      (store ≠ a.store → src.ip = ip) ∧
        ∀ h' p, store.Has h' p → a.store.Has h' p ∨ p.addr.ip = ip := by
  have hcases := s.rotateAll_cases (Subset.refl calls)
  have honly : ∀ ip' ∈ ips, (s.rotateAll calls).validate sha1 ip' (s.issue sha1 ip) →
      ip' = ip ∧ s.rotations calls < 2 := by
    intro ip' hip' hv
    have hsame {k : Bytes} (hk : k ∈ s.current :: s.previous :: calls.map (·.2))
        (h : hashToken sha1 s.current ip = hashToken sha1 k ip') : k = s.current ∧ ip' = ip :=
      hsecure.hashToken_inj mem_cons_self hk hip hip' h
    -- a secret that was drawn later is not the one of the token
    have hlater {c : Int × Bytes} (hc : c ∈ calls) :
        hashToken sha1 s.current ip ≠ hashToken sha1 c.2 ip' := fun h => by
      have hmem := mem_cons_of_mem s.previous (mem_map_of_mem (f := (·.2)) hc)
      exact (nodup_cons.1 hsecure.nodup).1 ((hsame (mem_cons_of_mem _ hmem) h).1 ▸ hmem)
    rw [issue, validate_iff] at hv
    rcases hcases with ⟨h0, he⟩ | ⟨h1, hp, c, hc, hcur, -⟩ | ⟨c, hc, c', hc', hp, hcur, -⟩
    · rw [he] at hv
      refine ⟨?_, by omega⟩
      rcases hv with hv | hv
      · exact (hsame mem_cons_self hv).2
      · exact (hsame (mem_cons_of_mem _ mem_cons_self) hv).2
    · rw [hp, hcur] at hv
      exact ⟨(hsame mem_cons_self (hv.resolve_left (hlater hc))).2, by omega⟩
    · rw [hp, hcur] at hv
      exact absurd hv (not_or.2 ⟨hlater hc', hlater hc⟩)
  refine ⟨fun hclock => ?_, honly, fun a ha now src id h port implied hsrc store hstore => ?_⟩
  · rw [issue, validate_iff]
    rcases hcases with ⟨-, he⟩ | ⟨-, hp, -⟩ | ⟨c, hc, c', hc', -, -, htime⟩
    · exact .inl (by rw [he])
    · exact .inr (by rw [hp])
    · have := hclock c hc
      have := hclock c' hc'
      omega
  · rw [DhtActor.answer, ha] at hstore
    split at hstore
    · rename_i hv
      have hsrc := (honly _ hsrc hv).1
      refine ⟨fun _ => hsrc, fun h' p hp => ?_⟩
      rw [hstore] at hp
      exact hp.of_announce.imp_right fun haddr => by rw [haddr, ← hsrc]
    · subst hstore
      exact ⟨fun hne => absurd rfl hne, fun h' p hp => .inl hp⟩

def firstSecrets : TokenSecrets := ⟨toBe 16 1, toBe 16 2, 0⟩

/-- A token that is accepted after a rotation. -/
theorem token_window_rotated :
    (firstSecrets.rotateAll [(tokenRotate, toBe 16 3)]).validate .ofBytes (.v4 7)
      (firstSecrets.issue .ofBytes (.v4 7)) :=
  (token_window .ofBytes firstSecrets [(tokenRotate, toBe 16 3)] { ip | ip ∈ [.v4 7, .v6 7] }
    ⟨by decide, by decide, by simp only [Set.mem_ofPred_eq]; decide +kernel⟩ (.v4 7) (by decide)
    1).1 (by decide)

end BitRev.Dht
