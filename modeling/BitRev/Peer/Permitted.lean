import BitRev.Peer.Steps

/-!
# What is requested may be requested

The requester looks at the choke, at the pieces we have and at the allowed-fast set when it chooses
the blocks of a piece, and then requests them one by one, each after two awaits. In between it looks
again at whether the piece is wanted, but not at the choke and not at whether we have the piece.

`Download.requests_permitted` is about runs whose steps all meet `Download.Permitting`, which names
the steps that break it: a choke while blocks are still to be requested, a piece that another peer
completes while its blocks are still to be requested, and endgame under a choke, where the blocks
are chosen from all pieces the peer has.
-/

namespace BitRev

open TorrentDownloadedState List Option Function

namespace TorrentDownloadedState

/-- The pieces stay what they are, and only those in `gained` may become downloaded. -/
def Gains (gained : Nat → Prop) (t t' : TorrentDownloadedState) : Prop :=
  ∀ j, ∃ g : PieceFlags → PieceFlags, t'.flagsAt j = (t.flagsAt j).map g ∧
    ∀ f, (g f).work = f.work ∧ ((g f).downloaded → f.downloaded ∨ gained j)

namespace Gains

variable {t t' t'' : TorrentDownloadedState} {gained : Nat → Prop}

lemma of_sameFlags (h : SameFlags t t') : Gains gained t t' := fun j =>
  ⟨id, by rw [h.flags, Option.map_id, id_eq], fun _ => ⟨rfl, .inl⟩⟩

section

variable (h : Gains gained t t')
include h

lemma trans (h' : Gains gained t' t'') : Gains gained t t'' := by
  intro j
  obtain ⟨g, hg, hw⟩ := h j
  obtain ⟨g', hg', hw'⟩ := h' j
  refine ⟨g' ∘ g, by rw [hg', hg, Option.map_map], fun f => ⟨?_, fun hd => ?_⟩⟩
  · exact (hw' (g f)).1.trans (hw f).1
  · rcases (hw' (g f)).2 hd with hd | hj
    · exact (hw f).2 hd
    · exact .inr hj

lemma indexed (hi : t.Indexed) : t'.Indexed := by
  intro j f' hf'
  obtain ⟨g, hg, hw⟩ := h j
  rw [hg] at hf'
  obtain ⟨f, hf, rfl⟩ := map_eq_some_iff.1 hf'
  rw [(hw f).1]
  exact hi j f hf

lemma onGrid {req : BlockRequest} (hr : t.OnGrid req) : t'.OnGrid req := by
  obtain ⟨hs, hl, f, hf, hle⟩ := hr
  obtain ⟨g, hg, hw⟩ := h req.index
  refine ⟨hs, hl, g f, by rw [hg, hf]; rfl, ?_⟩
  rw [(hw f).1]
  exact hle

lemma hasPiece {j : Nat} (hj : ¬ gained j) (hm : t.hasPiece j = false) : t'.hasPiece j = false := by
  obtain ⟨g, hg, hw⟩ := h j
  rw [hasPiece_eq] at hm ⊢
  rw [hg]
  cases hf : t.flagsAt j with
  | none => rfl
  | some f =>
    rw [hf] at hm
    have hdown : f.downloaded = false := hm
    simp only [map_some, getD_some]
    by_contra hd
    rcases (hw f).2 (by simpa using hd) with hd' | hj'
    · rw [hdown] at hd'
      cases hd'
    · exact hj hj'

end

lemma modify {f : PieceWorkState → PieceWorkState} {i : Nat} (g : PieceFlags → PieceFlags)
    (hf : ∀ pw, (f pw).flags = g pw.flags)
    (hg : ∀ x, (g x).work = x.work ∧ ((g x).downloaded → x.downloaded))
    (ht : t'.pieces = t.pieces.modify i f) : Gains gained t t' := by
  intro j
  refine ⟨fun x => if i = j then g x else x, ?_, fun x => ?_⟩
  · rw [flagsAt, ht]
    exact flagsAt_modify t i j f g hf
  · split
    · exact ⟨(hg x).1, fun hd => .inl ((hg x).2 hd)⟩
    · exact ⟨rfl, .inl⟩

variable (t : TorrentDownloadedState)

lemma removeDownloaded (i : Nat) : Gains gained t (t.removeDownloaded i) := fun j =>
  ⟨_, removeDownloaded_flagsAt t i j, fun f => by
    split
    · exact ⟨rfl, nofun⟩
    · exact ⟨rfl, .inl⟩⟩

lemma unwantPiece (cancels : List (PeerAddr × BlockRequest)) (i : Nat) :
    Gains gained t (t.unwantPiece cancels i).1 := by
  unfold TorrentDownloadedState.unwantPiece
  split
  · exact of_sameFlags (.refl t)
  · split
    · exact of_sameFlags (.refl t)
    · exact modify (fun x => { x with writeClaimed := false }) (fun _ => rfl)
        (fun _ => ⟨rfl, id⟩) rfl

lemma applyFilePriorities (prios : List FilePriority) :
    Gains gained t (t.applyFilePriorities prios).1 := by
  refine applyFilePriorities_inv (P := fun t' _ => Gains gained t t') t prios (fun _ j =>
    ⟨id, ?_, fun _ => ⟨rfl, .inl⟩⟩) fun t' cancels i h => h.trans (unwantPiece t' cancels i)
  rw [Option.map_id]
  rfl

end Gains

end TorrentDownloadedState

structure ConnState.Permitted (c : ConnState) (t : TorrentDownloadedState) (req : BlockRequest) :
    Prop where
  wanted : t.wanted req.index
  missing : t.hasPiece req.index = false
  onGrid : t.OnGrid req
  unchoked : c.chocked = false ∨ (c.fastExtension ∧ req.index ∈ c.peerAllowedFast)

/-- The blocks still to be requested are blocks of pieces we do not have, and may be requested. -/
structure ConnState.Permits (c : ConnState) (t : TorrentDownloadedState) : Prop where
  onGrid : ∀ req ∈ c.requester.pending, t.OnGrid req
  missing : ∀ req ∈ c.requester.pending, t.hasPiece req.index = false
  allowed : ∀ req ∈ c.requester.pending, c.chocked → req.index ∈ c.peerAllowedFast
  fast : ∀ i ∈ c.peerAllowedFast, c.fastExtension

/-- The rule for all steps that choose no blocks. -/
lemma ConnState.Permits.mono {c c' : ConnState} {t t' : TorrentDownloadedState}
    {gained : Nat → Prop} (hp : c.Permits t) (hg : Gains gained t t')
    (hpend : ∀ req ∈ c'.requester.pending, req ∈ c.requester.pending)
    (hno : ∀ req ∈ c'.requester.pending, ¬ gained req.index)
    (hallow : ∀ req ∈ c'.requester.pending, c'.chocked → req.index ∈ c'.peerAllowedFast)
    (hfast : ∀ i ∈ c'.peerAllowedFast, c'.fastExtension) : c'.Permits t' where
  onGrid req hreq := hg.onGrid (hp.onGrid req (hpend req hreq))
  missing req hreq := hg.hasPiece (hno req hreq) (hp.missing req (hpend req hreq))
  allowed := hallow
  fast := hfast

/-- The requester of the connection is left alone. -/
lemma ConnState.Permits.passive {c : ConnState} {t t' : TorrentDownloadedState}
    {gained : Nat → Prop} (hp : c.Permits t) (hg : Gains gained t t')
    (hno : ∀ req ∈ c.requester.pending, ¬ gained req.index) : c.Permits t' :=
  hp.mono hg (fun _ h => h) hno hp.allowed hp.fast

namespace Handler

variable {h h' : Handler}

/-! ## Messages -/

lemma gains_message (h : Handler) (m : PeerMessage) :
    Gains (fun j => ∃ start data, m = .piece j start data ∧ h.Completes j start data) h.table
      (h.onReceivedMessage m).table := by
  intro j
  rcases (Handles.onReceivedMessage h m).flags j with hsame | ⟨start, data, hm, hc, hset⟩
  · exact ⟨id, by rw [hsame, Option.map_id, id_eq], fun _ => ⟨rfl, .inl⟩⟩
  · exact ⟨_, hset, fun _ => ⟨rfl, fun _ => .inr ⟨start, data, hm, hc⟩⟩⟩

lemma gains_verified (h : Handler) (v : Verification) (ok banned : Bool) :
    Gains (fun _ => False) h.table (h.onVerified v ok banned).table := by
  have hclaim : Gains (fun _ => False) h.table (h.table.claimWrite v.index).1 :=
    .modify (fun x => { x with writeClaimed := true }) (fun _ => rfl) (fun _ => ⟨rfl, id⟩) rfl
  have hrelease : Gains (fun _ => False) h.table
      ((h.table.removeDownloaded v.index).releasePiece v.index) :=
    (Gains.removeDownloaded h.table v.index).trans
      (.of_sameFlags ⟨fun j => releasePiece_flagsAt _ _ j, rfl⟩)
  unfold onVerified
  simp only
  split
  · rw [table_refreshInterest]
    simp only
    split
    · exact hclaim.trans (.of_sameFlags ⟨fun j => clearPieceChunks_flagsAt _ _ j, rfl⟩)
    · exact hclaim
  · split
    · exact hrelease
    · rw [table_refreshInterest]
      exact hrelease

/-- A choke comes while what is still to be requested is allowed. -/
def PermittingChoke (h : Handler) (m : PeerMessage) : Prop :=
  m = .choke → ∀ req ∈ h.requester.pending, req.index ∈ h.peerAllowedFast

instance (h : Handler) : DecidablePred h.PermittingChoke := fun _ =>
  inferInstanceAs (Decidable (_ → _))

lemma permits_message {m : PeerMessage} (hp : h.Permits h.table) (hm : h.PermittingChoke m)
    (hno : ∀ index start data, m = .piece index start data → h.Completes index start data →
      ∀ req ∈ h.requester.pending, req.index ≠ index) :
    (h.onReceivedMessage m).Permits (h.onReceivedMessage m).table := by
  have hh := Handles.onReceivedMessage h m
  have hpend : ∀ req ∈ (h.onReceivedMessage m).requester.pending, req ∈ h.requester.pending := by
    rw [hh.requester]
    exact fun _ h => h
  refine hp.mono (gains_message h m) hpend ?_ (fun req hreq hc => ?_) fun i hi => ?_
  · rintro req hreq ⟨start, data, hm, hc⟩
    exact hno _ start data hm hc req (hpend req hreq) rfl
  · refine hh.kept _ ?_
    rcases hh.chocked hc with hc | hc
    · exact hp.allowed req (hpend req hreq) hc
    · exact hm hc req (hpend req hreq)
  · rw [hh.fast]
    exact (hh.allowed i hi).elim (hp.fast i) id

lemma permits_verified (hp : h.Permits h.table) (v : Verification) (ok banned : Bool) :
    (h.onVerified v ok banned).Permits (h.onVerified v ok banned).table := by
  obtain ⟨-, hfast, hchoke, hallow, hreq⟩ := onVerified_same h v ok banned
  refine hp.mono (gains_verified h v ok banned) ?_ (fun _ _ hf => hf) ?_ ?_
  · rw [hreq]
    exact fun _ h => h
  · rw [hreq, hchoke, hallow]
    exact hp.allowed
  · rw [hfast, hallow]
    exact hp.fast

/-! ## The requester -/

def PermittingChoice (h : Handler) : Prop :=
  h.requester.Choosing → h.chocked → h.table.inEndgame →
    ∀ i ∈ List.range h.table.pieces.length, h.needs i → i ∈ h.peerAllowedFast

instance (h : Handler) : Decidable h.PermittingChoice := inferInstanceAs (Decidable (_ → _))

section

variable (hi : h.table.Indexed)
include hi

lemma permits_chosen {h₁ : Handler} {req : BlockRequest} (hm : h.PermittingChoice)
    (hcan : h.requester.Choosing) (hr : Readied h h₁) (hc : h₁.Chosen req) :
    h.table.OnGrid req ∧ h.table.hasPiece req.index = false ∧
      (h.chocked → req.index ∈ h.peerAllowedFast) := by
  have hup := hr.toUpkeep
  have hblock : ∀ {i : Nat} {f : PieceFlags}, h₁.table.flagsAt i = some f → f.downloaded = false →
      req ∈ blocksOf f.work.index f.work.length → req.index = i ∧ h.table.OnGrid req ∧
        h.table.hasPiece req.index = false ∧ f.work.index = i := by
    intro i f hf hd hreq
    rw [hup.flags.flags] at hf
    obtain ⟨hindex, hs, hl, hle⟩ := mem_blocksOf hreq
    have hfi := hi i f hf
    have hri : req.index = i := hindex.trans hfi
    refine ⟨hri, ⟨hs, hl, f, by rw [hri]; exact hf, hle⟩, ?_, hfi⟩
    rw [hasPiece_eq, hri, hf]
    exact hd
  cases hc with
  | picked i f hf hd hreq hallow =>
    obtain ⟨hri, hg, hm, -⟩ := hblock hf hd hreq
    refine ⟨hg, hm, fun hc => ?_⟩
    rw [hri, ← hup.allowed]
    exact hallow (hup.chocked.trans hc)
  | endgame i f hf hd hreq hend hwant hbit =>
    obtain ⟨hri, hg, hmiss, hfi⟩ := hblock hf hd hreq
    refine ⟨hg, hmiss, fun hc => ?_⟩
    rw [hfi, hup.flags.wanted] at hwant
    rw [hfi, hasBit, hup.bits] at hbit
    rw [hri] at hmiss ⊢
    refine hm hcan hc (hup.flags.inEndgame hend) i ?_ ?_
    · rw [TorrentDownloadedState.wanted, Bool.and_eq_true, decide_eq_true_eq] at hwant
      exact mem_range.2 hwant.1
    · rw [needs, hmiss, hwant, hasBit, hbit]
      rfl

variable (hp : h.Permits h.table)
include hp

variable (hm : h.PermittingChoice)
include hm

lemma permits_moves (hmoves : Moves h h') : h'.Permits h'.table := by
  have hl := hmoves.leaves
  obtain @⟨h₁, t, r, hr, hflags, -, -, hpend⟩ := hmoves
  have hkey : ∀ req ∈ r.pending, h.table.OnGrid req ∧ h.table.hasPiece req.index = false ∧
      (h.chocked → req.index ∈ h.peerAllowedFast) := by
    intro req hreq
    rcases hpend req hreq with hold | ⟨hcan, hc⟩
    · exact ⟨hp.onGrid req hold, hp.missing req hold, hp.allowed req hold⟩
    · exact permits_chosen hi hm hcan hr hc
  refine ⟨fun req hreq => hl.flags.onGrid (hkey req hreq).1, fun req hreq => ?_,
    fun req hreq hc => ?_, fun i hmem => ?_⟩
  · rw [hl.flags.hasPiece]
    exact (hkey req hreq).2.1
  · rw [hl.allowed]
    exact (hkey req hreq).2.2 (hl.chocked.symm.trans hc)
  · rw [hl.fast]
    exact hp.fast i (hl.allowed ▸ hmem)

lemma permits_request {choice : Nat} (hr : h.request choice = some h') : h'.Permits h'.table := by
  have hl := request_leaves hr
  have hnext : (∀ req ∈ h'.requester.pending, req ∈ h.requester.pending) → h'.Permits h'.table := by
    intro hpend
    have hgains : Gains (fun _ => False) h.table h'.table := .of_sameFlags hl.flags
    refine hp.mono hgains hpend (fun _ _ hf => hf) ?_ ?_
    · rw [hl.chocked, hl.allowed]
      exact fun req hreq => hp.allowed req (hpend req hreq)
    · rw [hl.allowed, hl.fast]
      exact hp.fast
  cases request_cases hr with
  | moves _ hmoves => exact permits_moves hi hp hm hmoves
  | take loop req todo since hreq _ =>
    refine hnext ?_
    rw [hreq]
    exact fun _ h => h
  | giveBack loop req todo r hreq hcase =>
    refine hnext ?_
    rw [hreq]
    rcases hcase with rfl | rfl
    · exact fun _ h => mem_cons_of_mem _ h
    · exact nofun
  | handOver loop req todo table hreq _ _ =>
    refine hnext ?_
    rw [hreq]
    exact fun _ h => mem_cons_of_mem _ h

lemma permits_timeout (hr : h.timeout = some h') : h'.Permits h'.table := by
  cases timeout_cases hr with
  | snubbed since _ hmoves => exact permits_moves hi hp hm hmoves
  | slot loop req todo since hreq hmoves =>
    have hup := Upkeep.halved h
    have hgains : Gains (fun _ => False) h.table h.halvePipeline.expireStaleRequests.table :=
      .of_sameFlags hup.flags.toSameFlags
    refine permits_moves (hgains.indexed hi) ?_ (fun hcan => ?_) hmoves
    · refine hp.mono hgains ?_ (fun _ _ hf => hf) ?_ ?_
      · rw [hup.requester]
        exact fun _ h => h
      · rw [hup.requester, hup.chocked, hup.allowed]
        exact hp.allowed
      · rw [hup.allowed, hup.fast]
        exact hp.fast
    · rw [hup.requester, hreq] at hcan
      exact hcan.elim

end

/-! ## What is handed over -/

lemma readied_requests {h₁ : Handler} (hr : Readied h h₁) (b : BlockRequest) :
    h₁.sent.count (.request b) = h.sent.count (.request b) := by
  induction hr with
  | same => rfl
  | interest _ ih => exact ((Cancels.sameRequests (.refreshInterest _)).request b).trans ih
  | upkeep =>
    have hc := ((((Cancels.sameRequests (.maybeSnub h)).trans (.expireStaleRequests _)).trans
      (.drain _)).trans (.cancelUnwantedOutstanding _)).trans (.sameRequests (.refreshInterest _))
    exact hc.request b
  | await =>
    exact ((Cancels.expireStaleRequests h).trans (.sameRequests (.maybeSnub _))).request b

lemma moves_requests (hm : Moves h h') (b : BlockRequest) :
    h'.sent.count (.request b) = h.sent.count (.request b) := by
  obtain @⟨h₁, t, r, hr, -, -, -, -⟩ := hm
  exact readied_requests hr b

/-- A request goes to the writer only with a slot, when the piece is wanted. -/
lemma request_sent {choice : Nat} (hr : h.request choice = some h') {req : BlockRequest}
    (hlt : h.sent.count (.request req) < h'.sent.count (.request req)) :
    req ∈ h.requester.pending ∧ h.table.wanted req.index := by
  cases request_cases hr with
  | moves _ hm => exact absurd (moves_requests hm req) hlt.ne'
  | take => exact absurd hlt (Nat.lt_irrefl _)
  | giveBack =>
    exact absurd ((Cancels.sameRequests (.refill h)).request req) hlt.ne'
  | handOver loop req' todo table hreq hwant _ =>
    simp only [handOver, send, count_append, count_singleton] at hlt
    have heq : req' = req := by
      by_contra hne
      rw [if_neg (by simpa using hne)] at hlt
      exact Nat.lt_irrefl _ hlt
    subst heq
    rw [hreq]
    exact ⟨mem_cons_self, hwant⟩

lemma timeout_sent (hr : h.timeout = some h') (b : BlockRequest) :
    h'.sent.count (.request b) = h.sent.count (.request b) := by
  cases timeout_cases hr with
  | snubbed _ _ hm => exact moves_requests hm b
  | slot loop req todo since _ hm =>
    have hc := (Cancels.sameRequests (.setPipelineDepth h (max (h.pipelineDepth / 2) 1))).trans
      (.expireStaleRequests _)
    exact (moves_requests hm b).trans (hc.request b)

end Handler

/-! ## Runs -/

namespace Download

variable {p : PeerAddr} {d d' : Download} {a : DownloadAct}

/-- The steps after which the blocks still to be requested from `p` may still be requested. -/
def Permitting (p : PeerAddr) (d : Download) : DownloadAct → Prop
  | .message q m => ∀ h ∈ d.live q, (q = p → h.PermittingChoke m) ∧
    match m with
    | .piece index start data => h.Completes index start data →
      ∀ c ∈ d.conns p, ∀ req ∈ c.requester.pending, req.index ≠ index
    | _ => True
  | .request q _ => q = p → ∀ h ∈ d.live p, h.PermittingChoice
  | .timeout q => q = p → ∀ h ∈ d.live p, h.PermittingChoice
  | .pieces pieces => ∀ c ∈ d.conns p, ∀ req ∈ c.requester.pending,
    ∀ pw ∈ pieces[req.index]?, pw.downloaded = false
  | _ => True

instance (p : PeerAddr) (d : Download) : DecidablePred (d.Permitting p) := by
  intro a
  rcases a with _ | _ | ⟨q, m⟩ | _ | _ | _ | _ | _ | _ | _
  case message => rcases m <;> unfold Permitting <;> infer_instance
  all_goals unfold Permitting; infer_instance

/-- The blocks still to be requested from `p` may be requested. -/
structure Lawful (p : PeerAddr) (d : Download) : Prop where
  indexed : d.table.Indexed
  permits : ∀ c, d.conns p = some c → c.Permits d.table

/-- Code of the connection of `p` itself. -/
lemma Lawful.own {h h' : Handler} (hi : d.Lawful h.peer) (hl : d.live h.peer = some h)
    (hok : d.Permitting h.peer a) (ha : d.Acts h a h') : h'.Permits h'.table := by
  obtain ⟨-, hc, -, htable, -⟩ := live_eq hl
  have hp : h.Permits h.table := htable ▸ hi.permits _ hc
  have hindexed : h.table.Indexed := htable ▸ hi.indexed
  cases ha with
  | message m hv =>
    obtain ⟨hchoke, hpiece⟩ := hok h hl
    refine Handler.permits_message hp (hchoke rfl) fun index start data hm => ?_
    subst hm
    exact fun hcomp => hpiece hcomp _ hc
  | verified v ok hv => exact Handler.permits_verified hp v ok _
  | request hr => exact Handler.permits_request hindexed hp (hok rfl h hl) hr
  | timeout hr => exact Handler.permits_timeout hindexed hp (hok rfl h hl) hr

/-- A permitting step gains no piece of which a block is still to be requested from `p`. -/
lemma step_gains (hok : d.Permitting p a) (he : d.step a = some d') :
    ∃ gained, Gains gained d.table d'.table ∧
      ∀ c ∈ d.conns p, ∀ req ∈ c.requester.pending, ¬ gained req.index := by
  have hplain : Gains (fun _ => False) d.table d'.table → ∃ gained, Gains gained d.table d'.table ∧
      ∀ c ∈ d.conns p, ∀ req ∈ c.requester.pending, ¬ gained req.index :=
    fun hg => ⟨_, hg, fun _ _ _ _ => id⟩
  cases step_cases he with
  | acts h h' hl ha _ _ ht _ _ =>
    have htable := (live_eq hl).2.2.2.1
    cases ha with
    | message m hv =>
      refine ⟨_, ht ▸ htable ▸ Handler.gains_message h m, fun c hconn req hreq => ?_⟩
      rintro ⟨start, data, rfl, hcomp⟩
      exact (hok h hl).2 hcomp c hconn req hreq rfl
    | verified v ok hv => exact hplain (ht ▸ htable ▸ Handler.gains_verified h v ok _)
    | request hr => exact hplain (ht ▸ htable ▸ .of_sameFlags (Handler.request_leaves hr).flags)
    | timeout hr => exact hplain (ht ▸ htable ▸ .of_sameFlags (Handler.timeout_leaves hr).flags)
  | connect _ _ _ _ hd' | tick _ _ hd' | setDownloading _ _ hd' =>
    subst hd'
    exact hplain (.of_sameFlags (.refl _))
  | disconnect q _ hd' =>
    subst hd'
    exact hplain (.of_sameFlags ((releasePeerReservations_released d.table q true).trans
      (unassignPeerBlocks_released _ q)).toSameFlags)
  | priorities prios _ hd' =>
    subst hd'
    exact hplain (.applyFilePriorities d.table prios)
  | pieces ps ha hworks hd' =>
    subst hd' ha
    have hgains : Gains (fun j => ∃ pw, ps[j]? = some pw ∧ pw.downloaded) d.table
        { d.table with pieces := ps, verified := ps.countP (·.downloaded) } := by
      intro j
      have hwork := congrArg (·[j]?) hworks
      simp only [getElem?_map] at hwork
      cases hpw : ps[j]? with
      | none =>
        rw [hpw] at hwork
        refine ⟨id, ?_, fun _ => ⟨rfl, .inl⟩⟩
        simp only [flagsAt, hpw]
        cases hold : d.table.pieces[j]? with
        | none => rfl
        | some x => simp [hold] at hwork
      | some pw =>
        rw [hpw] at hwork
        obtain ⟨x, hx, hxw⟩ := map_eq_some_iff.1 hwork.symm
        refine ⟨fun f => { pw.flags with work := f.work }, ?_, fun f => ⟨rfl, fun hd => .inr ?_⟩⟩
        · simp only [flagsAt, hpw, hx, map_some, PieceWorkState.flags, hxw]
        · exact ⟨pw, hpw, hd⟩
    refine ⟨_, hgains, fun c hc req hreq => ?_⟩
    rintro ⟨pw, hpw, hd⟩
    have hfalse := hok c hc req hreq pw hpw
    rw [hfalse] at hd
    cases hd

lemma Lawful.step (hi : d.Lawful p) (hok : d.Permitting p a) (he : d.step a = some d') :
    d'.Lawful p := by
  obtain ⟨gained, hg, hno⟩ := step_gains hok he
  refine ⟨hg.indexed hi.indexed, fun c' hc' => ?_⟩
  cases conn_cases he hc' with
  | made fast _ _ h =>
    subst h
    exact ⟨nofun, nofun, nofun, nofun⟩
  | kept h => exact (hi.permits c' h).passive hg (hno c' h)
  | pushed c reqs h heq =>
    subst heq
    have hp := (hi.permits c h).passive hg (hno c h)
    exact { hp with }
  | acts h h' hl hp ha heq ht =>
    subst hp heq
    exact ht ▸ hi.own hl hok ha

lemma request_handed {c c' : ConnState} {req : BlockRequest} (he : d.step a = some d')
    (hc : d.conns p = some c) (hc' : d'.conns p = some c')
    (hlt : c.sent.count (.request req) < c'.sent.count (.request req)) :
    req ∈ c.requester.pending ∧ d.table.wanted req.index := by
  have hsame : c.sent.count (.request req) = c'.sent.count (.request req) → False :=
    fun heq => Nat.lt_irrefl _ (heq ▸ hlt)
  cases conn_cases he hc' with
  | made _ _ hnone => cases hnone.symm.trans hc
  | kept hkept =>
    cases hkept.symm.trans hc
    exact (hsame rfl).elim
  | pushed c₀ reqs h₀ heq =>
    cases h₀.symm.trans hc
    subst heq
    have hzero : (reqs.map WireMessage.cancel).count (.request req) = 0 := by
      refine count_eq_zero.2 fun hm => ?_
      obtain ⟨_, -, heq⟩ := mem_map.1 hm
      cases heq
    refine (hsame ?_).elim
    simp only [pushCancels, count_append, hzero, Nat.add_zero]
  | acts h h' hl hp ha heq =>
    subst hp heq
    obtain ⟨-, hconn, -, htable, -⟩ := live_eq hl
    cases hconn.symm.trans hc
    cases ha with
    | message m _ => exact (hsame ((Handler.Cancels.onReceivedMessage h m).request req).symm).elim
    | verified v ok _ => exact (hsame ((Handler.Cancels.onVerified h v ok _).request req).symm).elim
    | request hr => exact htable ▸ Handler.request_sent hr hlt
    | timeout hr => exact (hsame (Handler.timeout_sent hr req).symm).elim

/-- In a run of permitting steps, a request that goes to the writer may be sent. -/
theorem requests_permitted {d₁ d₂ : Download} {as : List DownloadAct} {c c' : ConnState}
    {req : BlockRequest} (hindexed : d.table.Indexed) (hd : d.conns p = none)
    (hrun : Run Download.step (Permitting p) d as d₁) (he : d₁.step a = some d₂)
    (hc : d₁.conns p = some c) (hc' : d₂.conns p = some c')
    (hsent : c.sent.count (.request req) < c'.sent.count (.request req)) :
    c.Permitted d₁.table req := by
  have hstart : d.Lawful p := ⟨hindexed, fun c hc => absurd (hd.symm.trans hc) nofun⟩
  have hlaw : d₁.Lawful p := hrun.inv Lawful.step hstart
  have hp := hlaw.permits c hc
  obtain ⟨hpend, hwant⟩ := request_handed he hc hc' hsent
  refine ⟨hwant, hp.missing req hpend, hp.onGrid req hpend, ?_⟩
  cases hchoke : c.chocked with
  | false => exact .inl rfl
  | true =>
    have hallow := hp.allowed req hpend hchoke
    exact .inr ⟨hp.fast _ hallow, hallow⟩

/-- The peer chokes us again, but allows a piece, which is then chosen. -/
def allowedAsked : List DownloadAct :=
  [.connect (localPeer 1) true, .message (localPeer 1) (.bitfield [true, true] false),
    .message (localPeer 1) (.allowedFast 1), .message (localPeer 1) .unchoke,
    .message (localPeer 1) .choke, .request (localPeer 1) 0, .request (localPeer 1) 0,
    .request (localPeer 1) 0]

lemma twoPieces_indexed : twoPieces.table.Indexed := by
  intro i f hf
  match i with
  | 0 =>
    cases hf
    rfl
  | 1 =>
    cases hf
    rfl
  | _ + 2 => cases hf

theorem requests_permitted_allowed :
    ∃ d c, Run Download.step (Permitting (localPeer 1)) twoPieces allowedAsked d ∧
      d.conns (localPeer 1) = some c ∧ c.chocked ∧ c.Permitted d.table ⟨1, 0, 2⟩ :=
  have hrun := Run.of_isSome
  have he := eq_some_get
  have hc := eq_some_get
  have hc' := eq_some_get
  ⟨_, _, hrun, hc, by decide +kernel, requests_permitted (a := .request (localPeer 1) 0)
    twoPieces_indexed rfl hrun he hc hc' (by decide +kernel)⟩

def chokedAsked : List DownloadAct :=
  asked false 3 ++ [.message (localPeer 1) .choke]

/-- Without the condition a block is requested from a peer that chokes us. -/
theorem requests_permitted_choked :
    ¬ ∀ (p : PeerAddr) (d d₁ d₂ : Download) (as : List DownloadAct) (a : DownloadAct)
      (c c' : ConnState) (req : BlockRequest), d.table.Indexed → d.conns p = none →
      Run Download.step anyStep d as d₁ → d₁.step a = some d₂ → d₁.conns p = some c →
      d₂.conns p = some c' → c.sent.count (.request req) < c'.sent.count (.request req) →
      c.Permitted d₁.table req := by
  intro h
  have hrun : Run Download.step anyStep twoPieces chokedAsked _ := .of_isSome
  have hper := h (localPeer 1) _ _ _ _ (.request (localPeer 1) 0) _ _ ⟨0, 0, 2⟩ twoPieces_indexed rfl
    hrun eq_some_get eq_some_get eq_some_get (by decide +kernel)
  rcases hper.unchoked with hun | ⟨hf, -⟩
  · exact absurd hun (by decide +kernel)
  · exact absurd hf (by decide +kernel)

end Download

end BitRev
