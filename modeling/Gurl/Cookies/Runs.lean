import Gurl.Cookies.Jar

/-! The invariants of a jar over whole runs: every call keeps them, unless the creation times run
out or there is no memory for a cookie that replaces another one. -/

namespace Gurl.Cookies

open Strcase Buckets

variable {env : Env} {ci ci' : CookieInfo} {now : Int} {co : Cookie}

/-! ### Jars that are in order -/

/-- Every cookie is in the list of its domain, there is no other one that is the same, and the time
at which it expires is noted. -/
structure Ordered (env : Env) (ci : CookieInfo) : Prop where
  placed : ∀ i, ∀ co ∈ ci.cookielist i, cookiehash env co.domain = i
  unique : Distinct (fun a b => ¬SameCookie a b) ci.cookielist
  noted : ∀ i, Noted ci i

/-- The cookies are counted, and have creation times of their own, up to the last one. -/
structure Numbered (ci : CookieInfo) : Prop where
  count : ci.numcookies = UInt32.ofNat (total ci.cookielist)
  few : total ci.cookielist ≤ ci.lastct.toNat
  stamped : ∀ i, ∀ co ∈ ci.cookielist i, co.creationtime.toNat ≤ ci.lastct.toNat
  created : Distinct (fun a b => a.creationtime ≠ b.creationtime) ci.cookielist

theorem not_same_symm (a b : Cookie) (h : ¬SameCookie a b) : ¬SameCookie b a :=
  fun h' => h h'.symm

/-- A jar with fewer cookies is in order. -/
theorem Ordered.sublist (h : Ordered env ci)
    (hsub : ∀ i, (ci'.cookielist i).Sublist (ci.cookielist i)) (hnoted : ∀ i, Noted ci' i) :
    Ordered env ci' where
  placed := fun i co hco => h.placed i co ((hsub i).subset hco)
  unique := h.unique.sublist hsub
  noted := hnoted

theorem Numbered.sublist (h : Numbered ci)
    (hsub : ∀ i, (ci'.cookielist i).Sublist (ci.cookielist i)) (hcount : Counted ci ci')
    (hlast : ci.lastct.toNat ≤ ci'.lastct.toNat) : Numbered ci' where
  count := by
    have hcount' := h.count
    unfold Counted at hcount
    grind
  few := (total_mono fun i => (hsub i).length_le).trans (h.few.trans hlast)
  stamped := fun i co hco => (h.stamped i co ((hsub i).subset hco)).trans hlast
  created := h.created.sublist hsub

theorem ordered_init : Ordered env cookieInit where
  placed := fun _ _ hco => nomatch hco
  unique := ⟨fun _ => .nil, fun _ _ _ _ ha => nomatch ha⟩
  noted := fun _ _ hco => nomatch hco

theorem numbered_init : Numbered cookieInit where
  count := rfl
  few := Nat.le_refl 0
  stamped := fun _ _ hco => nomatch hco
  created := ⟨fun _ => .nil, fun _ _ _ _ ha => nomatch ha⟩

/-! ### The calls that remove cookies -/

theorem removeExpired_ordered (h : Ordered env ci) (now : Int) :
    Ordered env (removeExpired now ci) := by
  obtain ⟨hlist, -, -, hnoted⟩ := removeExpired_spec now h.noted
  exact h.sublist (fun i => by rw [hlist i]; exact List.filter_sublist) hnoted

theorem removeExpired_numbered (ho : Ordered env ci) (h : Numbered ci) (now : Int) :
    Numbered (removeExpired now ci) := by
  obtain ⟨hlist, hcount, hlast, -⟩ := removeExpired_spec now ho.noted
  exact h.sublist (fun i => by rw [hlist i]; exact List.filter_sublist) hcount (by rw [hlast])

theorem clearsess_spec (ci : CookieInfo) :
    (∀ i, ((cookieClearsess ci).cookielist i).Sublist (ci.cookielist i)) ∧
    Counted ci (cookieClearsess ci) ∧ (cookieClearsess ci).lastct = ci.lastct := by
  obtain ⟨hlist, hcount, hlast⟩ := clearsessList_filters.fold (List.finRange hashSize) ci
  refine ⟨fun i => ?_, hcount, hlast⟩
  rw [cookieClearsess, hlist i, if_pos (mem_all i)]
  exact List.filter_sublist

theorem clearsess_ordered (h : Ordered env ci) : Ordered env (cookieClearsess ci) := by
  obtain ⟨hsub, -, -⟩ := clearsess_spec ci
  refine h.sublist hsub fun i co hco hne => ?_
  rw [cookieClearsess, clearsessFold_next]
  exact h.noted i co ((hsub i).subset hco) hne

theorem clearsess_numbered (h : Numbered ci) : Numbered (cookieClearsess ci) := by
  obtain ⟨hsub, hcount, hlast⟩ := clearsess_spec ci
  exact h.sublist hsub hcount (by rw [hlast])

theorem clearall_ordered (env : Env) (ci : CookieInfo) : Ordered env (cookieClearall ci) where
  placed := fun _ _ hco => nomatch hco
  unique := ⟨fun _ => .nil, fun _ _ _ _ ha => nomatch ha⟩
  noted := fun _ _ hco => nomatch hco

theorem total_nil : total (fun _ : Fin hashSize => ([] : List Cookie)) = 0 := by
  simp [total]

theorem clearall_numbered (ci : CookieInfo) : Numbered (cookieClearall ci) where
  count := by
    rw [cookieClearall, total_nil]
    rfl
  few := by
    rw [cookieClearall, total_nil]
    exact Nat.zero_le _
  stamped := fun _ _ hco => nomatch hco
  created := ⟨fun _ => .nil, fun _ _ _ _ ha => nomatch ha⟩

/-! ### Adding a cookie -/

/-- What `replace_existing` does when it does not refuse. -/
inductive Replaced (env : Env) (co : Cookie) (ci : CookieInfo) :
    Cookie × CookieInfo × Bool → Prop
  | fresh : (∀ i, ∀ old ∈ ci.cookielist i, ¬SameCookie old co) → Replaced env co ci (co, ci, false)
  | replaced {l₁ l₂ : List Cookie} {old : Cookie} :
      ci.cookielist (cookiehash env co.domain) = l₁ ++ old :: l₂ → SameCookie old co →
      Replaced env co ci ({ co with creationtime := old.creationtime },
        ci.setList (cookiehash env co.domain) (l₁ ++ l₂), true)

theorem replaceExisting_spec (h : Ordered env ci) (secure : Bool) {res : Cookie × CookieInfo × Bool}
    (hres : replaceExisting env co ci secure = some res) : Replaced env co ci res := by
  unfold replaceExisting at hres
  obtain ⟨⟨replaceOld, replaceN⟩, hloop, hres⟩ := Option.bind_eq_some_iff.mp hres
  rcases replaceLoop_spec co secure _ 0 hloop with ⟨heq, hnone⟩ | ⟨n, old, heq, hget, hsame⟩
  · cases heq
    cases hres
    refine .fresh fun i old hold hsame => ?_
    have hi : i = cookiehash env co.domain := (h.placed i old hold).symm.trans hsame.hash
    exact hnone old (hi ▸ hold) hsame
  · cases heq
    simp only [Nat.zero_add, hget, Option.bind_eq_bind, Option.bind_some] at hres
    cases hres
    obtain ⟨hlt, hold⟩ := List.getElem?_eq_some_iff.mp hget
    have hcut : ci.cookielist (cookiehash env co.domain) =
        (ci.cookielist (cookiehash env co.domain)).take n ++
          old :: (ci.cookielist (cookiehash env co.domain)).drop (n + 1) := by
      rw [← hold, ← List.drop_eq_getElem_cons hlt, List.take_append_drop]
    rw [List.eraseIdx_eq_take_drop_succ]
    exact .replaced hcut hsame

/-- A new cookie keeps a jar in order. -/
theorem Ordered.append (h : Ordered env ci) (replaces : Bool)
    (hnew : ∀ j, ∀ old ∈ ci.cookielist j, ¬SameCookie old co) :
    Ordered env (ci.append env co replaces) where
  placed := fun i a ha => by
    rcases mem_update_concat ha with hold | ⟨rfl, rfl⟩
    · exact h.placed i a hold
    · rfl
  unique := h.unique.append not_same_symm _ hnew
  noted := fun i a ha hne => by
    have hnext : (ci.append env co replaces).nextExpiration ≤ ci.nextExpiration := by
      unfold CookieInfo.append
      dsimp only
      split <;> omega
    rcases mem_update_concat ha with hold | ⟨-, rfl⟩
    · exact hnext.trans (h.noted i a hold hne)
    · unfold CookieInfo.append
      dsimp only
      split <;> omega

/-- The jar without the cookie that is replaced. -/
theorem Replaced.sub {co' : Cookie} {replaces : Bool}
    (hr : Replaced env co ci (co', ci', replaces)) (j : Fin hashSize) :
    (ci'.cookielist j).Sublist (ci.cookielist j) := by
  cases hr with
  | fresh => exact List.Sublist.refl _
  | @replaced l₁ l₂ old hlist _ =>
    refine sublist_update ?_ j
    rw [hlist]
    exact List.Sublist.append_left (List.sublist_cons_self old l₂) l₁

theorem Replaced.next {co' : Cookie} {replaces : Bool}
    (hr : Replaced env co ci (co', ci', replaces)) :
    ci'.nextExpiration = ci.nextExpiration ∧ ci'.lastct = ci.lastct := by
  cases hr <;> exact ⟨rfl, rfl⟩

/-- The cookie that is added, in the jar without the one that it replaces, is new. -/
theorem Replaced.new {co' : Cookie} {replaces : Bool} (h : Ordered env ci)
    (hr : Replaced env co ci (co', ci', replaces)) :
    Ordered env ci' ∧ ∀ j, ∀ old ∈ ci'.cookielist j, ¬SameCookie old co' := by
  refine ⟨h.sublist hr.sub fun i a ha hne => ?_, ?_⟩
  · rw [hr.next.1]
    exact h.noted i a ((hr.sub i).subset ha) hne
  · cases hr with
    | fresh hnone => exact hnone
    | @replaced l₁ l₂ old hlist hsame =>
      intro j a ha hsame'
      exact h.unique.rest not_same_symm hlist j a ha (SameCookie.trans hsame' hsame.symm)

/-- The jar that is searched for a cookie to replace. -/
theorem prepare_spec (h : Ordered env ci) (c : AddCall) :
    (∀ i, ((ci.prepare c).cookielist i).Sublist (ci.cookielist i)) ∧
    Counted ci (ci.prepare c) ∧ (ci.prepare c).lastct = ci.lastct + 1 ∧
    Ordered env (ci.prepare c) := by
  have hstamped : Ordered env { ci with lastct := ci.lastct + 1 } := ⟨h.placed, h.unique, h.noted⟩
  unfold CookieInfo.prepare
  dsimp only
  split
  · exact ⟨fun i => List.Sublist.refl _, rfl, rfl, hstamped⟩
  · obtain ⟨hlist, hcount, hlast, -⟩ := removeExpired_spec c.now hstamped.noted
    refine ⟨fun i => ?_, hcount, hlast, removeExpired_ordered hstamped c.now⟩
    rw [hlist i]
    exact List.filter_sublist

theorem cookieAdd_ordered (h : Ordered env ci) (c : AddCall) :
    Ordered env (cookieAdd env ci c) := by
  unfold cookieAdd
  cases parseLine env ci c with
  | none => exact h
  | some co =>
    obtain ⟨-, -, -, hprepared⟩ := prepare_spec h c
    dsimp only
    cases hres : replaceExisting env (ci.stamp co) (ci.prepare c) c.secure with
    | none => exact hprepared
    | some res =>
      obtain ⟨co', ci', replaces⟩ := res
      obtain ⟨hordered, hnew⟩ := (replaceExisting_spec hprepared c.secure hres).new hprepared
      dsimp only
      split
      · exact hordered.append replaces hnew
      · exact hordered

/-- Every call keeps a jar in order. -/
theorem step_ordered (h : Ordered env ci) (a : Action) : Ordered env (step env ci a) := by
  cases a with
  | add c => exact cookieAdd_ordered h c
  | removeExpired now => exact removeExpired_ordered h now
  | clearsess => exact clearsess_ordered h
  | clearall => exact clearall_ordered env ci
  | getlist r =>
    unfold step cookieGetlist
    dsimp only
    split
    · exact h
    · exact removeExpired_ordered h r.now
  | load running newsession => exact ⟨h.placed, h.unique, h.noted⟩

theorem run_ordered (env : Env) (actions : List Action) : Ordered env (run env actions) := by
  unfold run
  have hinit : Ordered env cookieInit := ordered_init
  generalize cookieInit = ci at hinit
  induction actions generalizing ci with
  | nil => exact hinit
  | cons a actions ih => exact ih _ (step_ordered hinit a)

/-! ### Counting -/

/-- What the code does not check: the creation times have not run out, and there is memory for the
cookie if it replaces another one. -/
def Allowed (env : Env) (ci : CookieInfo) : Action → Prop
  | .add c => ∀ co, parseLine env ci c = some co →
      ci.lastct.toNat + 1 < 2 ^ 32 ∧
      (c.clone = true ∨ ∀ i, ∀ old ∈ (ci.prepare c).cookielist i, ¬SameCookie old co)
  | _ => True

/-- A cookie with a creation time of its own, when it is counted. -/
theorem append_numbered {replaces : Bool}
    (hcount : (if replaces then ci.numcookies else ci.numcookies + 1) =
      UInt32.ofNat (total ci.cookielist + 1))
    (hfew : total ci.cookielist + 1 ≤ ci.lastct.toNat)
    (hstamped : ∀ i, ∀ co ∈ ci.cookielist i, co.creationtime.toNat ≤ ci.lastct.toNat)
    (hcreated : Distinct (fun a b => a.creationtime ≠ b.creationtime) ci.cookielist)
    (hstamp : co.creationtime.toNat ≤ ci.lastct.toNat)
    (hnew : ∀ j, ∀ old ∈ ci.cookielist j, old.creationtime ≠ co.creationtime) :
    Numbered (ci.append env co replaces) := by
  have htotal : total (ci.append env co replaces).cookielist = total ci.cookielist + 1 := by
    have hupdate := total_update ci.cookielist (cookiehash env co.domain)
      (ci.cookielist (cookiehash env co.domain) ++ [co])
    rw [List.length_append, List.length_singleton] at hupdate
    change total (Function.update ci.cookielist (cookiehash env co.domain)
      (ci.cookielist (cookiehash env co.domain) ++ [co])) = _
    omega
  refine ⟨?_, ?_, fun i a ha => ?_, hcreated.append (fun _ _ h => h.symm) _ hnew⟩
  · rw [htotal, ← hcount]
    rfl
  · rw [htotal]
    exact hfew
  · rcases mem_update_concat ha with hold | ⟨-, rfl⟩
    · exact hstamped i a hold
    · exact hstamp

theorem cookieAdd_numbered (ho : Ordered env ci) (h : Numbered ci) {c : AddCall}
    (hallowed : Allowed env ci (.add c)) : Numbered (cookieAdd env ci c) := by
  unfold cookieAdd
  cases hparse : parseLine env ci c with
  | none => exact h
  | some co =>
    obtain ⟨hmore, hclone⟩ := hallowed co hparse
    obtain ⟨hsub, hcounted, hlast, hprepared⟩ := prepare_spec ho c
    have hnext : (ci.lastct + 1).toNat = ci.lastct.toNat + 1 := by
      rw [UInt32.toNat_add]
      exact Nat.mod_eq_of_lt hmore
    have hnumbered : Numbered (ci.prepare c) :=
      h.sublist hsub hcounted (by rw [hlast, hnext]; omega)
    -- the new creation time is behind all others
    have hbehind : ∀ j, ∀ old ∈ (ci.prepare c).cookielist j,
        old.creationtime.toNat ≤ ci.lastct.toNat :=
      fun j old hold => h.stamped j old ((hsub j).subset hold)
    have hfew : total (ci.prepare c).cookielist ≤ ci.lastct.toNat :=
      (total_mono fun i => (hsub i).length_le).trans h.few
    dsimp only
    cases hres : replaceExisting env (ci.stamp co) (ci.prepare c) c.secure with
    | none => exact hnumbered
    | some res =>
      obtain ⟨co', ci', replaces⟩ := res
      dsimp only
      cases replaceExisting_spec hprepared c.secure hres with
      | fresh hnone =>
        split
        · refine append_numbered ?_ ?_ hnumbered.stamped hnumbered.created ?_ ?_
          · rw [if_neg (by simp), hnumbered.count, UInt32.ofNat_add]
            rfl
          · rw [hlast, hnext]
            omega
          · rw [hlast]
            exact Nat.le_refl _
          · intro j old hold heq
            have hle := hbehind j old hold
            rw [heq] at hle
            change (ci.lastct + 1).toNat ≤ _ at hle
            omega
        · exact hnumbered
      | @replaced l₁ l₂ old hlist hsame =>
        have hold : old ∈ (ci.prepare c).cookielist (cookiehash env (ci.stamp co).domain) := by
          simp [hlist]
        have hclone' : c.clone = true := by
          refine hclone.resolve_right fun hnone => hnone _ old hold ?_
          exact hsame
        rw [if_pos hclone']
        have hr : Replaced env (ci.stamp co) (ci.prepare c) (_, _, _) := .replaced hlist hsame
        have hupdate := total_update (ci.prepare c).cookielist
          (cookiehash env (ci.stamp co).domain) (l₁ ++ l₂)
        rw [hlist, List.length_append, List.length_append, List.length_cons] at hupdate
        have htotal : total (Function.update (ci.prepare c).cookielist
            (cookiehash env (ci.stamp co).domain) (l₁ ++ l₂)) + 1 =
            total (ci.prepare c).cookielist := by omega
        refine append_numbered ?_ ?_ ?_ (hnumbered.created.sublist hr.sub) ?_ ?_
        · change _ = UInt32.ofNat (total (Function.update _ _ _) + 1)
          rw [htotal, if_pos rfl]
          exact hnumbered.count
        · change total (Function.update _ _ _) + 1 ≤ (ci.prepare c).lastct.toNat
          rw [htotal]
          exact hnumbered.few
        · exact fun i a ha => hnumbered.stamped i a ((hr.sub i).subset ha)
        · exact hnumbered.stamped _ old hold
        · intro j a ha
          have hne := hnumbered.created.rest (fun _ _ h => h.symm) hlist j a ha
          exact hne

/-- An allowed call keeps the count and the creation times. -/
theorem step_numbered (ho : Ordered env ci) (h : Numbered ci) (a : Action)
    (hallowed : Allowed env ci a) : Numbered (step env ci a) := by
  cases a with
  | add c => exact cookieAdd_numbered ho h hallowed
  | removeExpired now => exact removeExpired_numbered ho h now
  | clearsess => exact clearsess_numbered h
  | clearall => exact clearall_numbered ci
  | getlist r =>
    unfold step cookieGetlist
    dsimp only
    split
    · exact h
    · exact removeExpired_numbered ho h r.now
  | load running newsession => exact ⟨h.count, h.few, h.stamped, h.created⟩

/-- All calls are allowed, one after the other. -/
def Admissible (env : Env) : CookieInfo → List Action → Prop
  | _, [] => True
  | ci, a :: actions => Allowed env ci a ∧ Admissible env (step env ci a) actions

theorem run_numbered {actions : List Action} (h : Admissible env cookieInit actions) :
    Numbered (run env actions) := by
  unfold run
  have hinit : Ordered env cookieInit := ordered_init
  have hnum := numbered_init
  generalize cookieInit = ci at h hinit hnum
  induction actions generalizing ci with
  | nil => exact hnum
  | cons a actions ih => exact ih _ h.2 (step_ordered hinit a) (step_numbered hinit hnum a h.1)

/-! ### What a jar promises -/

/-- The cookies have the same name, domain, tail match flag and path. -/
def SameKey (a b : Cookie) : Prop :=
  a.name = b.name ∧ a.domain.map upper = b.domain.map upper ∧ a.tailmatch = b.tailmatch ∧
    a.path = b.path

theorem SameKey.same {a b : Cookie} (h : SameKey a b) : SameCookie a b := by
  obtain ⟨hname, hdomain, htail, hpath⟩ := h
  refine ⟨hname, hpath, ?_⟩
  cases ha : a.domain <;> cases hb : b.domain <;> simp_all

/-- The jar is counted, its cookies are in the lists of their domains, no two of them are the same
or have the same creation time, and none expires before the time that is noted. -/
structure Promises (env : Env) (ci : CookieInfo) : Prop where
  count : ci.numcookies.toNat = total ci.cookielist
  placed : ∀ i, ∀ co ∈ ci.cookielist i, cookiehash env co.domain = i
  unique : Distinct (fun a b => ¬SameKey a b) ci.cookielist
  created : Distinct (fun a b => a.creationtime ≠ b.creationtime) ci.cookielist
  noted : ∀ i, ∀ co ∈ ci.cookielist i, co.expires ≠ 0 →
    ci.nextExpiration ≤ co.expires ∨ ci.nextExpiration = curlOffTMax

theorem promises_of_numbered (ho : Ordered env ci) (h : Numbered ci) : Promises env ci where
  count := by
    have hlt : total ci.cookielist < 2 ^ 32 := h.few.trans_lt ci.lastct.toNat_lt
    rw [h.count]
    exact Nat.mod_eq_of_lt hlt
  placed := ho.placed
  unique := ho.unique.imp fun _ _ hsame hkey => hsame hkey.same
  created := h.created
  noted := fun i co hco hne => .inl (ho.noted i co hco hne)

theorem matchLoop_subset (env : Env) (r : Request) (matched : Nat) (l : List Cookie) :
    matchLoop env r matched l ⊆ l := by
  induction l generalizing matched with
  | nil => exact List.Subset.refl _
  | cons co l ih =>
    unfold matchLoop
    split_ifs
    · exact fun a ha => List.mem_cons.mpr (.inl (List.mem_singleton.mp ha))
    · exact List.cons_subset_cons co (ih _)
    · exact List.subset_cons_of_subset co (ih _)

/-- The cookies that are returned are in the list of the host, and have not expired. -/
theorem mem_getlist (h : Ordered env ci) {r : Request} (hco : co ∈ (cookieGetlist env ci r).2) :
    co ∈ ci.cookielist (cookiehash env (some r.host)) ∧ co.alive r.now = true := by
  unfold cookieGetlist at hco
  dsimp only at hco
  split at hco
  · cases hco
  · have hmem := matchLoop_subset env r 0 _ ((List.mergeSort_perm _ _).mem_iff.mp hco)
    rw [(removeExpired_spec r.now h.noted).1] at hmem
    exact List.mem_filter.mp hmem

/-- In every run in which the creation times have not run out and there is memory for every cookie
that replaces another one, the jar keeps what it promises, and no expired cookie is returned. -/
theorem jar_keeps_promises (env : Env) (actions : List Action)
    (h : Admissible env cookieInit actions) :
    Promises env (run env actions) ∧
      ∀ r, ∀ co ∈ (cookieGetlist env (run env actions) r).2,
        ¬(0 < co.expires ∧ co.expires < r.now) := by
  refine ⟨promises_of_numbered (run_ordered env actions) (run_numbered h), ?_⟩
  rintro r co hco ⟨hpos, hexpired⟩
  have halive := (mem_getlist (run_ordered env actions) hco).2
  simp only [Cookie.alive, Bool.or_eq_true, decide_eq_true_eq] at halive
  omega

/-! ### Runs that break a promise -/

/-- The functions of a host without IP numbers and dates. -/
def Env.names : Env where
  hostIsIpnum := fun _ => false
  ipnum_upper := fun _ _ _ => rfl
  ipnum_digits := fun _ h => by cases h
  ipnum_colon := rfl
  getdateCapped := fun _ => none

/-- A header line `name=1` from `example.com`. -/
def setLine (name : String) (clone : Bool) : AddCall where
  httpheader := true
  noexpire := true
  line := ascii name ++ ascii "=1"
  domain := some (ascii "example.com")
  path := some (ascii "/")
  secure := false
  setcookies := 0
  clock := 0
  now := 0
  clone := clone

/-- What the line stands for. -/
def setCookie (name : String) (creationtime : UInt32) : Cookie :=
  { Cookie.zero with
    name := ascii name
    value := ascii "1"
    path := some [47]
    domain := some (ascii "example.com")
    creationtime := creationtime
    livecookie := true }

/-- A jar with cookies from `example.com`. -/
def exampleJar (cookies : List Cookie) (numcookies lastct : UInt32) : CookieInfo where
  cookielist :=
    Function.update (fun _ => []) (cookiehash .names (some (ascii "example.com"))) cookies
  nextExpiration := curlOffTMax
  numcookies := numcookies
  lastct := lastct
  running := true
  newsession := false

section

variable {name : String} {l : List Cookie} {n k : UInt32} {m : Nat} {t : UInt32} {clone : Bool}

theorem exampleJar_list (l : List Cookie) (n k : UInt32) :
    (exampleJar l n k).cookielist (cookiehash .names (some (ascii "example.com"))) = l := by
  simp [exampleJar]

theorem exampleJar_setList (l l' : List Cookie) (n k : UInt32) :
    (exampleJar l n k).setList (cookiehash .names (some (ascii "example.com"))) l' =
      exampleJar l' n k := by
  simp [CookieInfo.setList, exampleJar]

theorem exampleJar_append (name : String) (l : List Cookie) (n k t : UInt32) (replaces : Bool) :
    (exampleJar l n k).append .names (setCookie name t) replaces =
      exampleJar (l ++ [setCookie name t]) (if replaces then n else n + 1) k := by
  simp [CookieInfo.append, CookieInfo.setList, exampleJar, setCookie, Cookie.zero]

theorem exampleJar_total (l : List Cookie) (n k : UInt32) :
    total (exampleJar l n k).cookielist = l.length := by
  have h := total_update (fun _ => []) (cookiehash .names (some (ascii "example.com"))) l
  rw [total_nil] at h
  simpa [exampleJar] using h

theorem exampleJar_fresh
    (hparse : parseLine .names (exampleJar l n k) (setLine name true) =
      some { setCookie name 0 with livecookie := false })
    (hloop : replaceLoop (setCookie name (k + 1)) false l 0 false none = some (false, none)) :
    cookieAdd .names (exampleJar l n k) (setLine name true) =
      exampleJar (l ++ [setCookie name (k + 1)]) (n + 1) (k + 1) := by
  have hreplace : replaceExisting .names (setCookie name (k + 1)) (exampleJar l n (k + 1)) false =
      some (setCookie name (k + 1), exampleJar l n (k + 1), false) := by
    unfold replaceExisting
    simp only [setCookie] at hloop ⊢
    simp [exampleJar_list, hloop]
  unfold cookieAdd
  rw [hparse]
  dsimp only
  erw [hreplace]
  exact exampleJar_append name l n (k + 1) (k + 1) false

/-- A line whose cookie replaces the one at `m`. -/
theorem exampleJar_again
    (hparse : parseLine .names (exampleJar l n k) (setLine name clone) =
      some { setCookie name 0 with livecookie := false })
    (hloop : replaceLoop (setCookie name (k + 1)) false l 0 false none = some (true, some m))
    (hget : l[m]? = some (setCookie name t)) :
    cookieAdd .names (exampleJar l n k) (setLine name clone) =
      if clone then exampleJar (l.eraseIdx m ++ [setCookie name t]) n (k + 1)
      else exampleJar (l.eraseIdx m) n (k + 1) := by
  have hreplace : replaceExisting .names (setCookie name (k + 1)) (exampleJar l n (k + 1)) false =
      some (setCookie name t, exampleJar (l.eraseIdx m) n (k + 1), true) := by
    unfold replaceExisting
    simp only [setCookie] at hloop hget ⊢
    simp [exampleJar_list, exampleJar_setList, hloop, hget]
  unfold cookieAdd
  rw [hparse]
  dsimp only
  erw [hreplace]
  change (if clone then _ else _) = _
  rw [exampleJar_append name _ n (k + 1) t true, if_pos rfl]

end

/-- The jar is loaded, and gets a first cookie. -/
def firstActions : List Action := [.load true false, .add (setLine "a" true)]

/-- A second cookie replaces itself until there is no new creation time for the third one. -/
def wrapRun : List Action :=
  firstActions ++ .add (setLine "b" true) ::
    (List.replicate (2 ^ 32 - 2) (.add (setLine "b" true)) ++ [.add (setLine "c" true)])

/-- There is no memory for the cookie that replaces the first one. -/
def memoryRun : List Action := firstActions ++ [.add (setLine "a" false)]

theorem run_first : firstActions.foldl (step .names) cookieInit =
    exampleJar [setCookie "a" 1] 1 1 := by
  have hload : step .names cookieInit (.load true false) = exampleJar [] 0 0 := by
    simp [step, cookieInit, exampleJar]
  change cookieAdd .names (step .names cookieInit (.load true false)) (setLine "a" true) = _
  rw [hload, exampleJar_fresh rfl rfl]
  rfl

theorem add_again (times : Nat) (k : UInt32) :
    (List.replicate times (Action.add (setLine "b" true))).foldl (step .names)
      (exampleJar [setCookie "a" 1, setCookie "b" 2] 2 k) =
      exampleJar [setCookie "a" 1, setCookie "b" 2] 2 (k + UInt32.ofNat times) := by
  induction times generalizing k with
  | zero => simp
  | succ times ih =>
    have hstep : cookieAdd .names (exampleJar [setCookie "a" 1, setCookie "b" 2] 2 k)
        (setLine "b" true) = exampleJar [setCookie "a" 1, setCookie "b" 2] 2 (k + 1) :=
      exampleJar_again (m := 1) rfl rfl rfl
    rw [List.replicate_succ, List.foldl_cons, step, hstep, ih, UInt32.ofNat_add]
    congr 1
    grind

theorem run_wrap : run .names wrapRun =
    exampleJar [setCookie "a" 1, setCookie "b" 2, setCookie "c" 1] 3 1 := by
  have hb : cookieAdd .names (exampleJar [setCookie "a" 1] 1 1) (setLine "b" true) =
      exampleJar [setCookie "a" 1, setCookie "b" 2] 2 2 := exampleJar_fresh rfl rfl
  have hc : cookieAdd .names (exampleJar [setCookie "a" 1, setCookie "b" 2] 2 0)
      (setLine "c" true) = exampleJar [setCookie "a" 1, setCookie "b" 2, setCookie "c" 1] 3 1 :=
    exampleJar_fresh rfl rfl
  have hwrap : (2 : UInt32) + UInt32.ofNat (2 ^ 32 - 2) = 0 := by decide
  rw [run, wrapRun, List.foldl_append, run_first, List.foldl_cons, step, hb, List.foldl_append,
    add_again, hwrap, List.foldl_cons, List.foldl_nil, step, hc]

theorem run_memory : run .names memoryRun = exampleJar [] 1 2 := by
  have hagain : cookieAdd .names (exampleJar [setCookie "a" 1] 1 1) (setLine "a" false) =
      exampleJar [] 1 2 := exampleJar_again (m := 0) rfl rfl rfl
  rw [run, memoryRun, List.foldl_append, run_first, List.foldl_cons, List.foldl_nil, step, hagain]

/-- Two cookies get the same creation time when these run out, and the count is wrong when there is
no memory. -/
theorem jar_breaks_promises :
    ¬Promises .names (run .names wrapRun) ∧ ¬Promises .names (run .names memoryRun) := by
  rw [run_wrap, run_memory]
  refine ⟨fun h => ?_, fun h => ?_⟩
  · have hcreated := h.created.1 (cookiehash .names (some (ascii "example.com")))
    rw [exampleJar_list] at hcreated
    revert hcreated
    decide
  · have hcount := h.count
    rw [exampleJar_total] at hcount
    revert hcount
    decide

theorem jar_keeps_promises_replaced :
    Admissible .names cookieInit
        [.load true false, .add (setLine "a" true), .add (setLine "a" true)] ∧
      Promises .names (run .names
        [.load true false, .add (setLine "a" true), .add (setLine "a" true)]) := by
  have h : Admissible .names cookieInit
      [.load true false, .add (setLine "a" true), .add (setLine "a" true)] :=
    ⟨trivial, fun _ _ => ⟨by decide, .inl rfl⟩, fun _ _ => ⟨by decide, .inl rfl⟩, trivial⟩
  exact ⟨h, (jar_keeps_promises .names _ h).1⟩

end Gurl.Cookies
