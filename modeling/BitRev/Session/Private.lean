import BitRev.Session.Changes

/-!
# Private torrents

An info hash is the hash of one `info` dict, so every torrent of a private hash is private. That
holds of the session objects and of those still being added (`PrivateAt`), if it holds of the
metainfos that are added (`AddsPrivate`) and of the `info` dicts that peers deliver.
-/

namespace BitRev

def Ext.PrivateHash (x : Ext) (h : Digest) : Prop :=
  ∀ bytes info, x.sha1 bytes = h → x.decodeInfo bytes = .ok info → info.isPrivate

def Act.AddsPrivate (h : Digest) : Act → Prop
  | .addMeta _ m _ _ => m.infoHash = h → m.torrentFile.info.isPrivate
  | _ => True

instance (h : Digest) (a : Act) : Decidable (a.AddsPrivate h) := by
  rcases a <;> unfold Act.AddsPrivate <;> infer_instance

namespace Session

structure PrivateAt (h : Digest) (s : Session) : Prop where
  sess : ∀ r < s.nextSess, (s.sess r).torrent.infoHash = h → (s.sess r).torrent.isPrivate
  adding : ∀ t ∈ s.tasks, ∀ c, t.adding = some c → c.torrent.infoHash = h →
    c.torrent.isPrivate

variable {x : Ext} {s s' : Session} {e : Env} {a : Act} {h : Digest}

lemma new_privateAt (options categories resumeFiles) :
    (Session.new options categories resumeFiles).PrivateAt h := by
  refine ⟨?_, ?_⟩ <;> simp [Session.new]

/-- `hx` is about the `info` dicts that magnets have got. -/
lemma PrivateAt.stepCase (hp : s.PrivateAt h)
    (hx : ∀ t ∈ s.tasks, ∀ p, t = .promoter p → ∀ bytes, (s.pend p).infoBytes = some bytes →
      x.sha1 bytes = h → ∀ info, x.decodeInfo bytes = .ok info → info.isPrivate)
    (ha : a.AddsPrivate h) (hs : StepCase x s e a s') : s'.PrivateAt h := by
  refine ⟨fun r hr hhash => ?_, fun t ht c hc hhash => ?_⟩
  · rcases Nat.lt_or_ge r s.nextSess with hlt | hge
    · rw [hs.grows.torrent r hlt] at hhash ⊢
      exact hp.sess r hlt hhash
    · obtain ⟨c, ⟨n, io, rfl, ht⟩, hnext, htorrent, -⟩ := hs.opens (hge.trans_lt hr)
      obtain rfl : r = s.nextSess := by omega
      rw [htorrent] at hhash ⊢
      exact hp.adding _ (List.mem_of_getElem? ht) c rfl hhash
  · rcases hs.adding ht hc with ⟨t', ht', hc', -⟩ | ⟨⟨n, io, rfl, ht'⟩, -⟩ | ⟨rfl, hb⟩
    · exact hp.adding t' ht' c hc' hhash
    · exact hp.adding _ (List.mem_of_getElem? ht') c rfl hhash
    · cases hb with
      | addMeta _ hnew =>
        obtain ⟨h₁, h₂, -⟩ := Torrent.new_meta hnew
        exact h₂.trans (ha (h₁.symm.trans hhash))
      | poll ht' hf =>
        cases hf with
        | promoter hb hm hnew =>
          obtain ⟨h₁, h₂, -⟩ := Torrent.new_meta hnew
          refine h₂.trans (hx _ (List.mem_of_getElem? ht') _ rfl _ hb ?_ _
            (Metainfo.fromInfoBytes_info hm))
          rw [← (Metainfo.fromInfoBytes_valid hm).2, ← h₁]
          exact hhash

end Session

end BitRev
