import BitRev.Framework.Assoc
import BitRev.Framework.Bytes

/-!
# Sessions of the web server

`auth.rs` and the login and logout routes of `qbittorrent.rs`: a login issues a random session id,
and a request below `/api/` is let through if its `SID` cookie names a session that has not expired;
every such use puts the expiry off. Bodies are given as what they decode to, and of the answers only
the session id in them is kept. Each request comes with the two readings of the clock that its
handling takes.

`Held sid log t` is the right to use `sid` after the requests `log`, last used at `t`;
`reached_held` is that nothing else lets a request through.
-/

namespace BitRev.Server

def sessionTtl : Nat := 24 * 60 * 60 * 1000

structure ServerConfig where
  username : Bytes
  password : Bytes
  qbittorrentCompat : Bool

structure HttpRequest where
  post : Bool := false
  path : Bytes
  /-- The first `Cookie` header. -/
  cookie : Option Bytes := none
  /-- What the body decodes to. -/
  credentials : Option (Bytes × Bytes) := none
  /-- The session id drawn if this is a login. -/
  sid : Bytes := []
  now : Nat
  again : Nat := now

def constantTimeEq (left right : Bytes) : Bool :=
  (List.range (max left.length right.length)).foldl
    (fun diff i => diff ||| (left.getD i 0 ^^^ right.getD i 0).toNat)
    (left.length ^^^ right.length) = 0

lemma foldl_or_eq_zero (f : Nat → Nat) (l : List Nat) (d : Nat) :
    l.foldl (fun diff i => diff ||| f i) d = 0 ↔ d = 0 ∧ ∀ i ∈ l, f i = 0 := by
  induction l generalizing d with
  | nil => simp
  | cons i l ih => simp [ih, Nat.or_eq_zero_iff, and_assoc]

lemma constantTimeEq_iff {left right : Bytes} : constantTimeEq left right ↔ left = right := by
  rw [constantTimeEq, decide_eq_true_eq, foldl_or_eq_zero, Nat.xor_eq_zero_iff]
  refine ⟨fun ⟨hlen, hbytes⟩ => List.ext_getElem hlen fun i hl hr => ?_, ?_⟩
  · have hxor := hbytes i (List.mem_range.2 (by omega))
    rw [List.getD_eq_getElem _ _ hl, List.getD_eq_getElem _ _ hr] at hxor
    exact UInt8.xor_eq_zero_iff.1 (UInt8.toNat_inj.1 hxor)
  · rintro rfl
    simp

/-- `trim` of a text without other white space than blanks and tabs. -/
def trim (bs : Bytes) : Bytes :=
  let blank (b : UInt8) : Bool := b = 32 || b = 9
  ((bs.dropWhile blank).reverse.dropWhile blank).reverse

/-- A header is read as a text only if it is visible ASCII. -/
def cookieValue (r : HttpRequest) (name : Bytes) : Option Bytes :=
  r.cookie.bind fun header =>
    if header.all fun b => b = 9 || 32 ≤ b && b < 127 then
      (((header.splitOn (chr ';')).map fun part =>
        (splitOnce (chr '=') (trim part)).getD (trim part, [])).find? (·.1 = name)).map (·.2)
    else none

def cookieName : Bytes := ascii "SID"

def isPublicApi (path : Bytes) : Bool :=
  path = ascii "/api/v1/login" || path = ascii "/api/v1/logout" ||
    path = ascii "/api/v2/auth/login" || path = ascii "/api/v2/auth/logout" ||
    path = ascii "/api/v2/app/webapiVersion"

/-- `require_api_auth` asks for a session. -/
def HttpRequest.isProtected (r : HttpRequest) : Bool :=
  (ascii "/api/").isPrefixOf r.path && !isPublicApi r.path

/-- The expiry of each session. -/
abbrev SessionStore := AList fun _ : Bytes => Nat

def touch (s : SessionStore) (sid : Bytes) (now again : Nat) : SessionStore × Bool :=
  match s.lookup sid with
  | none => (s, false)
  | some expiry =>
    if expiry ≤ now then (s.erase sid, false) else (s.insert sid (again + sessionTtl), true)

/-- What has become of a request. -/
structure Event where
  request : HttpRequest
  reached : Bool := false
  issued : Option Bytes := none
  used : Option Bytes := none

section

variable (cfg : ServerConfig)

def ServerConfig.isLogin (r : HttpRequest) : Bool :=
  r.post && (r.path = ascii "/api/v1/login" ||
    cfg.qbittorrentCompat && r.path = ascii "/api/v2/auth/login")

def ServerConfig.isLogout (r : HttpRequest) : Bool :=
  r.post && (r.path = ascii "/api/v1/logout" ||
    cfg.qbittorrentCompat && r.path = ascii "/api/v2/auth/logout")

/-- The handlers, of which only those for logins and logouts touch the sessions. -/
def handler (s : SessionStore) (r : HttpRequest) : SessionStore × Event :=
  let done : Event := { request := r, reached := true }
  if cfg.isLogin r then
    if r.credentials.any fun c =>
        constantTimeEq c.1 cfg.username && constantTimeEq c.2 cfg.password then
      (s.insert r.sid (r.now + sessionTtl), { done with issued := some r.sid })
    else (s, done)
  else if cfg.isLogout r then
    match cookieValue r cookieName with
    | some sid => (s.erase sid, done)
    | none => (s, done)
  else (s, done)

def requireApiAuth (s : SessionStore) (r : HttpRequest) : SessionStore × Event :=
  if !r.isProtected then handler cfg s r
  else
    match cookieValue r cookieName with
    | none => (s, { request := r })
    | some sid =>
      match touch s sid r.now r.again with
      | (s, false) => (s, { request := r })
      | (s, true) =>
        let (s, e) := handler cfg s r
        (s, { e with used := some sid })

/-- The sessions, and what has happened so far, the latest first. -/
structure AppState where
  sessions : SessionStore := ∅
  log : List Event := []

def serve (w : AppState) (r : HttpRequest) : AppState :=
  let (sessions, e) := requireApiAuth cfg w.sessions r
  ⟨sessions, e :: w.log⟩

end

/-- A login with the credentials has issued `sid`, no logout that carries it has come since, and less than `SESSION_TTL`
lies between the login and the accepted uses of `sid`, one after another; the last of them is at the
given time. -/
inductive Held (cfg : ServerConfig) (sid : Bytes) : List Event → Nat → Prop
  | login {e : Event} {log : List Event} : cfg.isLogin e.request →
    e.request.credentials = some (cfg.username, cfg.password) → e.issued = some sid →
    Held cfg sid (e :: log) e.request.now
  | use {e : Event} {log : List Event} {t : Nat} : Held cfg sid log t → e.used = some sid →
    e.request.now < t + sessionTtl → Held cfg sid (e :: log) e.request.again
  | other {e : Event} {log : List Event} {t : Nat} : Held cfg sid log t → e.used ≠ some sid →
    ¬(cfg.isLogout e.request ∧ cookieValue e.request cookieName = some sid) →
    Held cfg sid (e :: log) t

variable {cfg : ServerConfig} {s s' : SessionStore} {r : HttpRequest} {log : List Event}

def Earned (cfg : ServerConfig) (s : SessionStore) (log : List Event) : Prop :=
  ∀ sid expiry, s.lookup sid = some expiry → ∃ t, expiry = t + sessionTtl ∧ Held cfg sid log t

lemma isProtected_route (cfg : ServerConfig) (h : r.isProtected) :
    cfg.isLogin r = false ∧ cfg.isLogout r = false := by
  simp only [HttpRequest.isProtected, isPublicApi, Bool.and_eq_true, Bool.not_eq_true',
    Bool.or_eq_false_iff, decide_eq_false_iff_not] at h
  obtain ⟨-, ⟨⟨⟨hv₁, ho₁⟩, hv₂⟩, ho₂⟩, -⟩ := h
  simp [ServerConfig.isLogin, ServerConfig.isLogout, hv₁, ho₁, hv₂, ho₂]

lemma handler_protected (h : r.isProtected) :
    handler cfg s r = (s, { request := r, reached := true }) := by
  obtain ⟨hin, hout⟩ := isProtected_route cfg h
  simp [handler, hin, hout]

lemma touch_cases (s : SessionStore) (sid : Bytes) (now again : Nat) :
    (touch s sid now again = (s.erase sid, false) ∨ touch s sid now again = (s, false)) ∨
      ∃ expiry, s.lookup sid = some expiry ∧ now < expiry ∧
        touch s sid now again = (s.insert sid (again + sessionTtl), true) := by
  unfold touch
  cases h : s.lookup sid with
  | none => exact .inl (.inr rfl)
  | some expiry =>
    by_cases hle : expiry ≤ now
    · exact .inl (.inl (if_pos hle))
    · exact .inr ⟨expiry, rfl, Nat.lt_of_not_le hle, if_neg hle⟩

/-- A session that is still there after an event that is not about it is still held. -/
lemma Earned.other (h : Earned cfg s log) {e : Event} (hused : e.used = none)
    (hsub : ∀ sid expiry, s'.lookup sid = some expiry → s.lookup sid = some expiry ∧
      ¬(cfg.isLogout e.request ∧ cookieValue e.request cookieName = some sid)) :
    Earned cfg s' (e :: log) := by
  intro sid expiry hl
  obtain ⟨hl, hout⟩ := hsub sid expiry hl
  obtain ⟨t, rfl, hheld⟩ := h sid expiry hl
  exact ⟨t, rfl, hheld.other (by simp [hused]) hout⟩

lemma Earned.handled (h : Earned cfg s log) (r : HttpRequest) :
    Earned cfg (handler cfg s r).1 ((handler cfg s r).2 :: log) := by
  unfold handler
  split
  · rename_i hin
    have hout : cfg.isLogout r = false := by
      simp only [ServerConfig.isLogin, Bool.and_eq_true, Bool.or_eq_true, decide_eq_true_eq] at hin
      rcases hin with ⟨-, hp | ⟨-, hp⟩⟩ <;>
      · rw [ServerConfig.isLogout, hp, decide_eq_false (by decide), decide_eq_false (by decide)]
        simp
    split
    · rename_i hcred
      intro sid expiry hl
      rcases Assoc.lookup_insert_cases hl with ⟨rfl, rfl⟩ | ⟨-, hl⟩
      · obtain ⟨⟨user, pw⟩, hc, heq⟩ := (Option.any_eq_true ..).1 hcred
        rw [Bool.and_eq_true, constantTimeEq_iff, constantTimeEq_iff] at heq
        obtain ⟨rfl, rfl⟩ := heq
        exact ⟨r.now, rfl, .login hin hc rfl⟩
      · obtain ⟨t, rfl, hheld⟩ := h sid expiry hl
        exact ⟨t, rfl, hheld.other (by simp) (by simp [hout])⟩
    · exact h.other rfl fun sid expiry hl => ⟨hl, by simp [hout]⟩
  · split
    · split
      · rename_i sid' hc
        refine h.other rfl fun sid expiry hl => ?_
        obtain ⟨hne, hl⟩ := Assoc.lookup_erase_cases hl
        exact ⟨hl, fun hcar => hne (Option.some.inj (hcar.2.symm.trans hc))⟩
      · rename_i hc
        exact h.other rfl fun sid expiry hl => ⟨hl, by simp [hc]⟩
    · rename_i hout
      exact h.other rfl fun sid expiry hl => ⟨hl, by simp [hout]⟩

lemma Earned.served {w : AppState} (h : Earned cfg w.sessions w.log) (r : HttpRequest) :
    Earned cfg (serve cfg w r).sessions (serve cfg w r).log := by
  simp only [serve, requireApiAuth]
  cases hp : r.isProtected with
  | false => exact h.handled r
  | true =>
    obtain ⟨-, hout⟩ := isProtected_route cfg hp
    simp only [Bool.not_true, Bool.false_eq_true, if_false]
    cases hc : cookieValue r cookieName with
    | none => exact h.other rfl fun sid expiry hl => ⟨hl, by simp [hc]⟩
    | some sid =>
      rcases touch_cases w.sessions sid r.now r.again with
        (ht | ht) | ⟨expiry, hl, hlt, ht⟩
      · simp only [ht]
        exact h.other rfl fun _ _ hl => ⟨(Assoc.lookup_erase_cases hl).2, by simp [hout]⟩
      · simp only [ht]
        exact h.other rfl fun _ _ hl => ⟨hl, by simp [hout]⟩
      · simp only [ht, handler_protected hp]
        intro sid' expiry' hl'
        rcases Assoc.lookup_insert_cases hl' with ⟨rfl, rfl⟩ | ⟨hne, hl'⟩
        · obtain ⟨t, rfl, hheld⟩ := h sid' expiry hl
          exact ⟨r.again, rfl, hheld.use rfl hlt⟩
        · obtain ⟨t, rfl, hheld⟩ := h sid' expiry' hl'
          exact ⟨t, rfl, hheld.other (fun heq => hne (Option.some.inj heq).symm) (by simp [hout])⟩

lemma earned_foldl (rs : List HttpRequest) (w : AppState) (h : Earned cfg w.sessions w.log) :
    Earned cfg (rs.foldl (serve cfg) w).sessions (rs.foldl (serve cfg) w).log := by
  induction rs generalizing w with
  | nil => exact h
  | cons r rs ih => exact ih _ (h.served r)

/-- After any requests, a request below `/api/` that is not for a public path reaches its handler
only with a `SID` cookie that is held, and was last used less than `SESSION_TTL` ago. -/
theorem reached_held (cfg : ServerConfig) (rs : List HttpRequest) (r : HttpRequest)
    (hp : r.isProtected)
    (hreached : (requireApiAuth cfg (rs.foldl (serve cfg) {}).sessions r).2.reached) :
    ∃ sid t, cookieValue r cookieName = some sid ∧
      Held cfg sid (rs.foldl (serve cfg) {}).log t ∧ r.now < t + sessionTtl := by
  have hearned : Earned cfg _ _ := earned_foldl rs {} (fun sid expiry hl => by cases hl)
  generalize rs.foldl (serve cfg) {} = w at hearned hreached ⊢
  simp only [requireApiAuth, hp, Bool.not_true, Bool.false_eq_true, if_false] at hreached
  cases hc : cookieValue r cookieName with
  | none => simp [hc] at hreached
  | some sid =>
    simp only [hc] at hreached
    rcases touch_cases w.sessions sid r.now r.again with
      (ht | ht) | ⟨expiry, hl, hlt, ht⟩
    · simp [ht] at hreached
    · simp [ht] at hreached
    · obtain ⟨t, rfl, hheld⟩ := hearned sid expiry hl
      exact ⟨sid, t, rfl, hheld, hlt⟩

def loginRequest : HttpRequest :=
  { post := true, path := ascii "/api/v1/login", credentials := some (ascii "admin", ascii "pw"),
    sid := ascii "5e55", now := 7 }

def listRequest : HttpRequest :=
  { path := ascii "/api/v2/torrents/info", cookie := some (ascii "a=b; SID=5e55"), now := 1000 }

/-- A request with the id of a login. -/
theorem reached_held_login :
    ∃ sid t, cookieValue listRequest cookieName = some sid ∧
      Held ⟨ascii "admin", ascii "pw", true⟩ sid
        ([loginRequest].foldl (serve ⟨ascii "admin", ascii "pw", true⟩) {}).log t ∧
      1000 < t + sessionTtl :=
  reached_held ⟨ascii "admin", ascii "pw", true⟩ [loginRequest] listRequest (by decide +kernel)
    (by decide +kernel)

end BitRev.Server
