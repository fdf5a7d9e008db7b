import Gurl.Netrc.Lexing

/-! The scanner finds the credentials of the first entry that gives some. -/

namespace Gurl.Netrc

open Strcase

/-- What `netrc_scan` returns after its loop. -/
def finish : Scanner × Code → Code × Option Creds
  | (sc, .ok) => if sc.creds.isSome then (.ok, sc.creds) else (.noMatch, none)
  | (_, rc) => (rc, none)

theorem netrcScan_eq (content host : Bytes) (user : Option Bytes) :
    netrcScan content host user =
      (scanLoop (content.length + 2) (scanInit content host user)).map finish := by
  rw [netrcScan]
  cases scanLoop (content.length + 2) (scanInit content host user) with
  | none => rfl
  | some r =>
    obtain ⟨sc, rc⟩ := r
    cases rc with
    | ok =>
      simp only [finish, Option.map_some]
      change (if _ then _ else _) = _
      split <;> rfl
    | _ => rfl

variable {host : Bytes} {user : Option Bytes} {cur : Option Entry} {sc : Scanner}

/-- The scanner has read the entry `cur` so far, of which it keeps what is about the host. -/
structure Tracks (host : Bytes) (user : Option Bytes) (cur : Option Entry)
    (sc : Scanner) : Prop where
  pushed : sc.lexer.pushed = false
  toobig : sc.lexer.literal.toobig = maxNetrcToken
  hostname : sc.hostname = host
  user_eq : sc.user = user
  creds : sc.creds = none
  found : sc.found = false
  matches_eq : sc.matchesHost = (cur.filter (·.applies host)).isSome
  login : sc.login = (cur.filter (·.applies host)).bind (·.login)
  passwd : sc.passwd = (cur.filter (·.applies host)).bind (·.passwd)
  short : (sc.login.getD []).length < maxNetrcToken ∧ (sc.passwd.getD []).length < maxNetrcToken
  stored : sc.login.isSome ∨ sc.passwd.isSome → sc.lexer.literal.bufr.isSome = true

theorem reset_isSome (literal : Dynbuf) : literal.reset.bufr.isSome = literal.bufr.isSome :=
  Option.isSome_map

/-- A token that is no literal leaves the entry as it is. -/
theorem Tracks.next (h : Tracks host user cur sc) (pos : Bytes) (token : Token) :
    Tracks host user cur { sc with lexer := { sc.lexer with
      pos, literal := sc.lexer.literal.reset, token } } where
  pushed := h.pushed
  toobig := h.toobig
  hostname := h.hostname
  user_eq := h.user_eq
  creds := h.creds
  found := h.found
  matches_eq := h.matches_eq
  login := h.login
  passwd := h.passwd
  short := h.short
  stored hs := (reset_isSome _).trans (h.stored hs)

/-- So does a literal. -/
theorem Tracks.literal {value : Bytes} (h : Tracks host user cur sc) (pos : Bytes)
    {literal : Dynbuf} (hadded : Added sc.lexer.literal.reset literal value) (token : Token) :
    Tracks host user cur { sc with lexer := { sc.lexer with pos, literal, token } } where
  pushed := h.pushed
  toobig := hadded.toobig.trans h.toobig
  hostname := h.hostname
  user_eq := h.user_eq
  creds := h.creds
  found := h.found
  matches_eq := h.matches_eq
  login := h.login
  passwd := h.passwd
  short := h.short
  stored hs := by
    rw [hadded.bufr, reset_isSome, h.stored hs, Bool.true_or]

/-- The value that was read is what the buffer of the literal holds, if it is there at all. -/
theorem Added.bufr_eq {before after : Dynbuf} {value : Bytes}
    (h : Added before.reset after value) :
    after.bufr = if before.bufr.isSome || value ≠ [] then some value else none := by
  have hcontent := h.content
  have hsome := h.bufr
  rw [Dynbuf.content_reset, List.nil_append] at hcontent
  rw [reset_isSome] at hsome
  unfold Dynbuf.content at hcontent
  cases hafter : after.bufr with
  | none =>
    rw [hafter] at hsome
    rw [← hsome]
    rfl
  | some bytes =>
    rw [hafter] at hsome hcontent
    rw [← hsome]
    exact congrArg some hcontent

theorem Tracks.reset (h : Tracks host user cur sc) : Tracks host user none (scanReset sc) where
  pushed := h.pushed
  toobig := h.toobig
  hostname := h.hostname
  user_eq := h.user_eq
  creds := h.creds
  found := h.found
  matches_eq := rfl
  login := rfl
  passwd := rfl
  short := ⟨show 0 < maxNetrcToken by decide, show 0 < maxNetrcToken by decide⟩
  stored hs := by rcases hs with hs | hs <;> cases hs

/-- The entry that gives the credentials, if the one that has begun is it. -/
def decider (host : Bytes) (user : Option Bytes) (cur : Option Entry) : Option Entry :=
  cur.filter fun e => e.applies host && e.decides user

theorem decided_append (es : List Entry) (stop : Stop) :
    decided (cur.toList ++ es) stop host user =
      match decider host user cur with
      | some e => (.ok, some (e.creds user))
      | none => decided es stop host user := by
  unfold decided decider
  cases cur with
  | none => rfl
  | some e =>
    rw [Option.toList_some, List.singleton_append, List.find?_cons, Option.filter_some]
    cases e.applies host && e.decides user <;> rfl

theorem scanCreds_found {sc : Scanner} (hfound : sc.found = true)
    (huser : ((if sc.user.isSome then sc.user else sc.login).getD []).length ≤ curlMaxInputLength)
    (hpasswd : (sc.passwd.getD []).length ≤ curlMaxInputLength)
    (hsome : sc.login.isSome ∨ sc.passwd.isSome) :
    scanCreds sc = ({ sc with
      creds := some (.mk ((if sc.user.isSome then sc.user else sc.login).getD [])
        (sc.passwd.getD [])) }, .ok) := by
  unfold scanCreds credsCreate
  rw [if_pos hfound, if_neg, if_neg (not_or.mpr ⟨Nat.not_lt.mpr huser, Nat.not_lt.mpr hpasswd⟩)]
  rintro ⟨hu, hp⟩
  rcases hsome with hs | hs
  · cases hsc : sc.user with
    | none =>
      rw [hsc] at hu
      have hnone : sc.login = none := hu
      rw [hnone] at hs
      cases hs
    | some u =>
      rw [hsc] at hu
      cases hu
  · rw [hp] at hs
    cases hs

theorem decider_eq : decider host user cur =
    (cur.filter (·.applies host)).filter (·.decides user) := by
  unfold decider
  cases cur with
  | none => rfl
  | some e => cases happly : e.applies host <;> simp [Option.filter, happly]

theorem scanEntry_eq {e : Entry} (hmatches : sc.matchesHost = true) (hfound : sc.found = false)
    (hlogin : sc.login = e.login) (hpasswd : sc.passwd = e.passwd) (huser : sc.user = user) :
    scanEntry sc = if e.decides user then scanCreds { sc with found := true } else (sc, .ok) := by
  obtain ⟨lexer, hostname, user', login, passwd, creds, matchesHost, found⟩ := sc
  obtain ⟨name, login', passwd'⟩ := e
  obtain rfl : login = login' := hlogin
  obtain rfl : passwd = passwd' := hpasswd
  obtain rfl : user' = user := huser
  obtain rfl : matchesHost = true := hmatches
  obtain rfl : found = false := hfound
  cases login with
  | none => cases passwd <;> rfl
  | some login =>
    cases user' with
    | none => rfl
    | some u =>
      by_cases heq : u = login
      · cases passwd <;> simp [scanEntry, Entry.decides, scanCreds, heq]
      · simp [scanEntry, Entry.decides, heq]

/-- The end of an entry that is not about the host, or does not decide. -/
theorem scanEndEntry_undecided (h : Tracks host user cur sc) (hentry : scanEntry sc = (sc, .ok)) :
    ∃ sc', scanEndEntry sc = (sc', .ok) ∧ Tracks host user none sc' ∧ sc'.lexer = sc.lexer := by
  refine ⟨scanReset sc, ?_, h.reset, rfl⟩
  rw [scanEndEntry, hentry]

/-- The end of an entry that gives the credentials. -/
theorem scanEndEntry_decided {e : Entry} (h : Tracks host user cur sc)
    (huser : (user.getD []).length ≤ curlMaxInputLength) (hlogin : sc.login = e.login)
    (hpasswd : sc.passwd = e.passwd) (hsome : sc.login.isSome ∨ sc.passwd.isSome)
    (hentry : scanEntry sc = scanCreds { sc with found := true }) :
    ∃ sc', scanEndEntry sc = (sc', .ok) ∧ sc'.found = true ∧ sc'.creds = some (e.creds user) ∧
      sc.lexer.literal.bufr.isSome = true := by
  obtain ⟨hshort, hshort'⟩ := h.short
  have hcreds := @scanCreds_found { sc with found := true } rfl (by
    simp only [h.user_eq]
    cases user with
    | none => exact (Nat.le_of_lt hshort).trans (by decide)
    | some u => exact huser) ((Nat.le_of_lt hshort').trans (by decide)) hsome
  refine ⟨scanReset (scanCreds { sc with found := true }).1, ?_, ?_, ?_, h.stored hsome⟩
  · rw [scanEndEntry, hentry, hcreds]
  · rw [hcreds]
    rfl
  · rw [hcreds]
    simp only [scanReset, Entry.creds, h.user_eq, hlogin, hpasswd]

theorem scanEndEntry_spec (h : Tracks host user cur sc)
    (huser : (user.getD []).length ≤ curlMaxInputLength) :
    ∃ sc', scanEndEntry sc = (sc', .ok) ∧
      match decider host user cur with
      | some e => sc'.found = true ∧ sc'.creds = some (e.creds user) ∧
          sc.lexer.literal.bufr.isSome = true
      | none => Tracks host user none sc' ∧ sc'.lexer = sc.lexer := by
  rw [decider_eq]
  have hmatches := h.matches_eq
  have hlogin := h.login
  have hpasswd := h.passwd
  cases hcur : cur.filter (·.applies host) with
  | none =>
    rw [hcur] at hmatches
    exact scanEndEntry_undecided h (by rw [scanEntry, hmatches]; rfl)
  | some e =>
    rw [hcur, Option.bind_some] at hlogin hpasswd
    rw [hcur] at hmatches
    have hentry := scanEntry_eq hmatches h.found hlogin hpasswd h.user_eq
    rw [Option.filter_some]
    by_cases hdecides : e.decides user = true
    · rw [if_pos hdecides] at hentry ⊢
      refine scanEndEntry_decided h huser hlogin hpasswd ?_ hentry
      unfold Entry.decides at hdecides
      rw [hlogin, hpasswd]
      cases hl : e.login with
      | some login => exact .inl rfl
      | none =>
        rw [hl] at hdecides
        exact .inr hdecides
    · rw [if_neg hdecides] at hentry ⊢
      exact scanEndEntry_undecided h hentry

end Gurl.Netrc
