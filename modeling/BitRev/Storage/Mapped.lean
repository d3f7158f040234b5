import BitRev.Storage.Blocks

/-!
# The closures of the storage, one piece at a time

A piece is a window of the array that the files of a torrent make up. The closures get it as a list
of stretches of the files, in order and without gaps (`Tiles`).

They are proved in the setting of one piece: others leave the window of the piece alone, and a
closure that writes leaves everything else alone (`writing`), a closure that reads everything
(`reading`). Each is one induction over the loop of the source:

* `writeAt_wp`, `writeMapped_wp`: when the closure succeeds the window is the buffer;
* `readAt_wp`, `readMapped_wp`: when the closure succeeds it has read a part of the window;
* in both, with `smooth` the closure does succeed: every read and write moves some bytes, and the
  files are as long as the torrent says.
-/

namespace BitRev

open List Function

/-- The read or write moves at least one byte, if there is one. -/
def Outcome.Moves : Outcome → Prop
  | .transfer n => 0 < n
  | .fail _ => False

namespace Contents

def Grows (d d' : Contents) : Prop := ∀ file, (d file).length ≤ (d' file).length

lemma Grows.trans {d d' d'' : Contents} (h : d.Grows d') (h' : d'.Grows d'') : d.Grows d'' :=
  fun file => (h file).trans (h' file)

end Contents

namespace Storage

variable {segs : List (Nat × Nat)} {lo len : Nat} {smooth : Prop} {d : Contents}

/-- The array that the segments make up. -/
abbrev arrayOf (segs : List (Nat × Nat)) (d : Contents) : Bytes := flat 0 d segs

/-- Every file is as long as its segment. -/
def Allocated (segs : List (Nat × Nat)) (d : Contents) : Prop :=
  ∀ seg ∈ segs, seg.1 ≤ (d seg.2).length

instance (segs : List (Nat × Nat)) (d : Contents) : Decidable (Allocated segs d) :=
  inferInstanceAs (Decidable (∀ seg ∈ segs, seg.1 ≤ (d seg.2).length))

lemma Allocated.grows {d' : Contents} (h : Allocated segs d) (hg : d.Grows d') :
    Allocated segs d' := fun seg hseg => (h seg hseg).trans (hg seg.2)

/-- Between its calls, a closure for the window relies on nobody else writing there. -/
def setting (segs : List (Nat × Nat)) (lo len : Nat) (smooth : Prop)
    (guar : Contents → Contents → Prop) : Setting IoOp IoOp.Answer Contents Outcome where
  perform := Contents.perform
  allowed o := smooth → o.Moves
  rely d d' := window (arrayOf segs d) lo len = window (arrayOf segs d') lo len ∧ d.Grows d'
  guar := guar
  rely_refl _ := ⟨rfl, fun _ => le_rfl⟩
  rely_trans h h' := ⟨h.1.trans h'.1, h.2.trans h'.2⟩

/-- Nothing changes outside the window. -/
def SameOutside (segs : List (Nat × Nat)) (lo len : Nat) (d d' : Contents) : Prop :=
  (arrayOf segs d).take lo = (arrayOf segs d').take lo ∧
    (arrayOf segs d).drop (lo + len) = (arrayOf segs d').drop (lo + len) ∧ d.Grows d'

lemma SameOutside.trans {d d' d'' : Contents} (h : SameOutside segs lo len d d')
    (h' : SameOutside segs lo len d' d'') : SameOutside segs lo len d d'' :=
  ⟨h.1.trans h'.1, h.2.1.trans h'.2.1, h.2.2.trans h'.2.2⟩

section

variable (segs : List (Nat × Nat))

abbrev writing (lo len : Nat) (smooth : Prop) :=
  setting segs lo len smooth (SameOutside segs lo len)

abbrev reading (lo len : Nat) (smooth : Prop) :=
  setting segs lo len smooth fun d d' => d = d'

/-! ## Writing -/

def Written (lo len : Nat) (full : Bytes) (n : Nat) (d : Contents) :
    Prop := (window (arrayOf segs d) lo len).take n = full.take n

lemma written_zero (lo len : Nat) (full : Bytes) (d : Contents) :
    Written segs lo len full 0 d := rfl

end

lemma Written.step {full bs : Bytes} {n i slen file offset : Nat}
    (hnd : (segs.map Prod.snd).Nodup) (hlen : lo + len ≤ (segs.map Prod.fst).sum)
    (hi : segs[i]? = some (slen, file)) (hoff : offset + bs.length ≤ slen)
    (hpos : startOf segs i + offset = lo + n) (hhi : n + bs.length ≤ len)
    (hbs : window full n bs.length = bs) (h : Written segs lo len full n d) :
    SameOutside segs lo len d
        (Function.update d file (overwrite 0 (d file) offset bs)) ∧
      Written segs lo len full (n + bs.length)
        (Function.update d file (overwrite 0 (d file) offset bs)) := by
  have hflat : arrayOf segs (update d file (overwrite 0 (d file) offset bs)) =
      splice (arrayOf segs d) (lo + n) bs := hpos ▸ flat_overwrite 0 d hnd hi hoff
  have hl : (arrayOf segs d).length = (segs.map Prod.fst).sum := length_flat 0 d segs
  refine ⟨⟨?_, ?_, ?_⟩, ?_⟩
  · rw [hflat, take_splice (Nat.le_add_right _ _) (by omega)]
  · rw [hflat, drop_splice (by omega) (by omega)]
  · intro file'
    rcases eq_or_ne file' file with rfl | hne
    · rw [update_self]
      exact length_le_overwrite _ _ _ _
    · rw [update_of_ne hne]
  · have hw : (window (arrayOf segs d) lo len).length = len := length_window (by omega)
    have hbn : ((window (arrayOf segs d) lo len).take n ++ bs).length = n + bs.length := by
      rw [length_append, length_take, hw, min_eq_left (by omega)]
    unfold Written at h ⊢
    rw [hflat, window_splice (Nat.le_add_right _ _) (by omega) (by omega),
      Nat.add_sub_cancel_left, splice, take_left' hbn, h, take_add]
    conv_lhs => rw [← hbs]
    rfl

lemma Written.stable {full : Bytes} {n : Nat} {guar : Contents → Contents → Prop}
    {d d' : Contents} (h : Written segs lo len full n d)
    (hr : (setting segs lo len smooth guar).rely d d') : Written segs lo len full n d' := by
  unfold Written at h ⊢
  rw [← hr.1, h]

lemma writeAt_wp (smooth : Prop) {full : Bytes} {i slen file : Nat} (hnd : (segs.map Prod.snd).Nodup)
    (hlen : lo + len ≤ (segs.map Prod.fst).sum) (hi : segs[i]? = some (slen, file))
    (buf : Bytes) (offset : Nat) : ∀ {n : Nat} {d : Contents}, offset + buf.length ≤ slen →
      startOf segs i + offset = lo + n → n + buf.length ≤ len →
      window full n buf.length = buf → Written segs lo len full n d →
      (writeAt file buf offset).wp (writing segs lo len smooth)
        (fun r d' => (r = .ok () → Written segs lo len full (n + buf.length) d') ∧
          (smooth → r = .ok ())) d := by
  fun_induction writeAt file buf offset with
  | case1 offset =>
    intro n d _ _ _ _ hw
    refine Prog.wp_ret fun d' hr => ⟨fun _ => ?_, fun _ => rfl⟩
    exact hw.stable hr
  | case2 buf offset hne ih =>
    intro n d hoff hpos hhi hbuf hw
    refine Prog.wp_call hw (fun _ _ h hr => h.stable hr) fun d hw o ho => ?_
    cases o with
    | fail msg =>
      refine ⟨⟨rfl, rfl, fun _ => le_rfl⟩, ?_⟩
      exact Prog.wp_ret fun d' _ => ⟨by simp, fun hs => (ho hs).elim⟩
    | transfer m =>
      have hlen_bs : (buf.take m).length ≤ buf.length := by simp
      have hbs : window full n (buf.take m).length = buf.take m := by
        conv_rhs => rw [← hbuf]
        rw [window, window, take_take, length_take]
      obtain ⟨hout, hw'⟩ := hw.step hnd hlen hi (by omega) hpos (by omega) hbs
      refine ⟨hout, ?_⟩
      simp only [setting, Contents.perform]
      split_ifs with hz
      · refine Prog.wp_ret fun d' _ => ⟨by simp, fun hs => ?_⟩
        -- a write that moves does not write nothing
        have hm : 0 < m := ho hs
        have hb := length_pos_of_ne_nil hne
        rw [length_take] at hz
        omega
      · have hd := congrArg (drop (buf.take m).length) hbuf
        rw [window, drop_take, drop_drop, ← length_drop] at hd
        have hrest := ih _ hz (by rw [length_drop]; omega)
          (show _ = lo + (n + (buf.take m).length) by omega) (by rw [length_drop]; omega) hd hw'
        rw [length_drop, add_assoc, Nat.add_sub_cancel' hlen_bs] at hrest
        exact hrest

/-- The mappings cut the array into stretches from `pos` to `stop`, each inside its segment. -/
def Tiles (segs : List (Nat × Nat)) : Nat → List PieceFileMapping → Nat → Prop
  | pos, [], stop => pos = stop
  | pos, m :: ms, stop =>
    (∃ seg, segs[m.fileIndex]? = some seg ∧ m.fileOffset + m.length ≤ seg.1 ∧
      startOf segs m.fileIndex + m.fileOffset = pos) ∧ Tiles segs (pos + m.length) ms stop

lemma Tiles.le : ∀ {ms : List PieceFileMapping} {pos stop : Nat}, Tiles segs pos ms stop →
    pos ≤ stop
  | [], _, _, h => Nat.le_of_eq h
  | _ :: _, _, _, h => (Nat.le_add_right _ _).trans h.2.le

def Opens (segs : List (Nat × Nat)) (files : List Nat) : Prop :=
  ∀ (i slen file : Nat), segs[i]? = some (slen, file) → files[i]? = some file

lemma writeMapped_wp (smooth : Prop) (full : Bytes) {files : List Nat} (hnd : (segs.map Prod.snd).Nodup)
    (hlen : lo + len ≤ (segs.map Prod.fst).sum) (hopen : Opens segs files) :
    ∀ (ms : List PieceFileMapping) (buf : Bytes) {n : Nat} (d : Contents),
      Tiles segs (lo + n) ms (lo + (n + buf.length)) → n + buf.length ≤ len →
      window full n buf.length = buf → Written segs lo len full n d →
      (writeMapped files ms buf).wp (writing segs lo len smooth)
        (fun r d' => (r = .ok () → Written segs lo len full (n + buf.length) d') ∧
          (smooth → r = .ok ())) d := by
  intro ms
  induction ms with
  | nil =>
    intro buf n d ht _ _ hw
    have hnil : buf.length = 0 := by
      have heq : lo + n = lo + (n + buf.length) := ht
      omega
    rw [writeMapped, hnil]
    exact Prog.wp_ret fun d' hr => ⟨fun _ => hw.stable hr, fun _ => rfl⟩
  | cons m ms ih =>
    intro buf n d ht hhi hbuf hw
    obtain ⟨⟨⟨slen, file⟩, hi, hoff, hpos⟩, ht⟩ := ht
    have hle := ht.le
    have hfull : window full (n + m.length) (buf.drop m.length).length = buf.drop m.length := by
      have hd := congrArg (drop m.length) hbuf
      rwa [window, drop_take, drop_drop, ← length_drop] at hd
    have hstop : n + m.length + (buf.drop m.length).length = n + buf.length := by
      rw [length_drop]
      omega
    have hrest : ∀ d, Written segs lo len full (n + m.length) d →
        (writeMapped files ms (buf.drop m.length)).wp (writing segs lo len smooth)
          (fun r d' => (r = .ok () → Written segs lo len full (n + buf.length) d') ∧
            (smooth → r = .ok ())) d := by
      intro d hw
      have ih := ih (buf.drop m.length) d (by rw [hstop, ← add_assoc]; exact ht) (by omega)
        hfull hw
      rwa [hstop] at ih
    rw [writeMapped, if_neg (by omega)]
    split_ifs with hz
    · rw [hz, drop_zero] at hrest
      exact hrest d hw
    · rw [hopen _ _ _ hi]
      have htake : (buf.take m.length).length = m.length := by
        rw [length_take]
        omega
      have hfirst := writeAt_wp smooth hnd hlen hi (buf.take m.length) m.fileOffset
        (by rw [htake]; exact hoff) hpos (by omega)
        (by rw [htake]; conv_rhs => rw [← hbuf]
            rw [window, window, take_take, min_eq_left (by omega)]) hw
      rw [htake] at hfirst
      refine Prog.wp_bind (Prog.wp_mono (fun r d' h => ?_) hfirst)
      cases r with
      | error e => exact Prog.wp_ret fun _ _ => ⟨by simp, fun hs => by cases h.2 hs⟩
      | ok u => exact hrest d' (h.1 rfl)

/-! ## Reading -/

structure Holds (segs : List (Nat × Nat)) (lo len : Nat) (smooth : Prop) (c : Bytes)
    (d : Contents) : Prop where
  window_eq : window (arrayOf segs d) lo len = c
  allocated : smooth → Allocated segs d

lemma Holds.stable {c : Bytes} {guar : Contents → Contents → Prop} {d d' : Contents}
    (h : Holds segs lo len smooth c d) (hr : (setting segs lo len smooth guar).rely d d') :
    Holds segs lo len smooth c d' :=
  ⟨hr.1 ▸ h.window_eq, fun hs => (h.allocated hs).grows hr.2⟩

lemma readAt_wp {c : Bytes} {i slen file : Nat} (hi : segs[i]? = some (slen, file))
    (read : Bytes) (m offset : Nat) : ∀ {n : Nat} {d : Contents}, offset + m ≤ slen →
      startOf segs i + offset = lo + n → n + m ≤ len → Holds segs lo len smooth c d →
      (readAt file read m offset).wp (reading segs lo len smooth)
        (fun r d' => Holds segs lo len smooth c d' ∧ (∀ bs, r = .ok bs → bs = read ++ window c n m) ∧
          (smooth → ∃ bs, r = .ok bs)) d := by
  fun_induction readAt file read m offset with
  | case1 read offset =>
    intro n d _ _ _ h
    refine Prog.wp_ret fun d' hr => ⟨h.stable hr, ?_, fun _ => ⟨_, rfl⟩⟩
    rintro bs ⟨⟩
    simp [window]
  | case2 read m offset hne ih =>
    intro n d hoff hpos hhi h
    refine Prog.wp_call h (fun _ _ h hr => h.stable hr) fun d h o ho => ⟨?_, ?_⟩
    · cases o <;> rfl
    cases o with
    | fail msg =>
      exact Prog.wp_ret fun d' hr => ⟨h.stable hr, by simp, fun hs => (ho hs).elim⟩
    | transfer k =>
      simp only [setting, Contents.perform]
      have hlen_bs : (window (d file) offset (min k m)).length ≤ m := by
        rw [window, length_take]
        omega
      split_ifs with hz
      · refine Prog.wp_ret fun d' hr => ⟨h.stable hr, by simp, fun hs => ?_⟩
        -- the file is long enough for one more byte
        have hk : 0 < k := ho hs
        have hfile : slen ≤ (d file).length := h.allocated hs _ (mem_of_getElem? hi)
        rw [window, length_take, length_drop] at hz
        omega
      · have hread := flat_read 0 d hi (show offset + min k m ≤ slen by omega)
        rw [hpos] at hread
        have hbs : window c n (window (d file) offset (min k m)).length =
            window (d file) offset (min k m) := by
          rw [← h.window_eq, window_window (by omega), hread]
        refine Prog.wp_mono (fun r d' hr => ⟨hr.1, fun bs he => ?_, hr.2.2⟩) (ih _ hz (by omega)
          (show _ = lo + (n + (window (d file) offset (min k m)).length) by omega) (by omega) h)
        have hadd := window_add c n (window (d file) offset (min k m)).length
          (m - (window (d file) offset (min k m)).length)
        rw [hbs, Nat.add_sub_cancel' hlen_bs] at hadd
        rw [hr.2.1 bs he, append_assoc, hadd]

def IsRead : IoOp → Prop
  | .write _ _ _ => False
  | .read _ _ _ => True

lemma readAt_all (file : Nat) (read : Bytes) (m offset : Nat) :
    (readAt file read m offset).All IsRead := by
  fun_induction readAt file read m offset with
  | case1 => trivial
  | case2 read m offset hne ih =>
    refine ⟨trivial, fun r => ?_⟩
    cases r with
    | error e => trivial
    | ok bs =>
      simp only
      split_ifs with hz
      · trivial
      · exact ih bs hz

lemma readMapped_all (files : List Nat) (start stop : Nat) :
    ∀ (ms : List PieceFileMapping) (n : Nat) (out : Bytes),
      (readMapped files start stop ms n out).All IsRead
  | [], _, _ => trivial
  | m :: ms, n, out => by
    have ih := readMapped_all files start stop ms
    rw [readMapped]
    split
    · split
      · trivial
      · refine (readAt_all _ _ _ _).bind fun r => ?_
        cases r with
        | error e => trivial
        | ok chunk => exact ih _ _
    · exact ih _ _

/-- The part of a window that has been read after one more stretch of it. -/
lemma window_overlap (c : Bytes) {n l start stop : Nat} (h : max n start < min (n + l) stop) :
    window c start (min n stop - start) ++
        window c (max n start) (min (n + l) stop - max n start) =
      window c start (min (n + l) stop - start) := by
  rcases le_total n start with hns | hns
  · rw [max_eq_right hns, show min n stop - start = 0 by omega, window, take_zero,
      nil_append]
  · have hadd := window_add c start (n - start) (min (n + l) stop - n)
    rw [max_eq_left hns, show min n stop - start = n - start by omega]
    rw [Nat.add_sub_cancel' hns] at hadd
    rw [hadd]
    congr 1
    omega

lemma readMapped_wp {c : Bytes} {files : List Nat} (start : Nat) {stop : Nat}
    (hopen : Opens segs files) (hstop : stop ≤ len) :
    ∀ (ms : List PieceFileMapping) (n : Nat) (d : Contents), Tiles segs (lo + n) ms (lo + len) →
      Holds segs lo len smooth c d →
      (readMapped files start stop ms n (window c start (min n stop - start))).wp
        (reading segs lo len smooth)
        (fun r _ => (∀ bs, r = .ok bs → bs = window c start (stop - start)) ∧
          (smooth → ∃ bs, r = .ok bs)) d
  | [], n, d, ht, _ => by
    have hn : n = len := Nat.add_left_cancel ht
    rw [readMapped, hn, min_eq_right hstop]
    refine Prog.wp_ret fun _ _ => ⟨?_, fun _ => ⟨_, rfl⟩⟩
    rintro bs ⟨⟩
    rfl
  | m :: ms, n, d, ht, h => by
    obtain ⟨⟨⟨slen, file⟩, hi, hoff, hpos⟩, ht⟩ := ht
    have hle := ht.le
    rw [add_assoc] at ht
    rw [readMapped]
    split_ifs with hov
    · rw [hopen _ _ _ hi]
      have hfirst := readAt_wp hi []
        (min (n + m.length) stop - max n start) (m.fileOffset + (max n start - n)) (by omega)
        (show _ = lo + max n start by omega) (by omega) h
      refine Prog.wp_bind (Prog.wp_mono (fun r d' hr => ?_) hfirst)
      cases r with
      | error e => exact Prog.wp_ret fun _ _ => ⟨nofun, fun hs => nomatch hr.2.2 hs⟩
      | ok chunk =>
        simp only [hr.2.1 chunk rfl, nil_append, window_overlap c hov]
        exact readMapped_wp start hopen hstop ms (n + m.length) d' ht hr.1
    · have hsame : min n stop - start = min (n + m.length) stop - start := by omega
      rw [hsame]
      exact readMapped_wp start hopen hstop ms (n + m.length) d ht h

end Storage

end BitRev
