import Gurl.Doh.Decode

/-! What `doh_resp_decode` accepts is a DNS message, and what it stores are the addresses in it. -/

namespace Gurl.Doh

variable {httpsrr : Bool} {doh : Bytes} {dnstype : Dnstype} {index : Nat} {d : Dohentry}

/-- The counts of an entry are within their arrays. -/
structure Bounded (d : Dohentry) : Prop where
  addr : d.addr.length ≤ dohMaxAddr
  cname : d.cname.length ≤ dohMaxCname

/-- The address in a record. -/
def addrOf (r : Record) : Option Dohaddr :=
  if r.type = Dnstype.a.toNat then some ⟨.a, r.rdata⟩
  else if r.type = Dnstype.aaaa.toNat then some ⟨.aaaa, r.rdata⟩
  else none

/-- An answer record that is accepted. -/
structure Accepted (dnstype : Dnstype) (r : Record) : Prop extends r.WellFormed where
  ofType : r.type = Dnstype.cname.toNat ∨ r.type = Dnstype.dname.toNat ∨ r.type = dnstype.toNat
  ofClass : r.dnsclass = dnsClassIn
  lengthA : r.type = Dnstype.a.toNat → r.rdata.length = 4
  lengthAaaa : r.type = Dnstype.aaaa.toNat → r.rdata.length = 16

theorem storeCnameLoop_total (loop : Nat) (index : Nat) (c : Dynbuf) :
    ∃ r, storeCnameLoop doh loop index c = some r := by
  induction loop generalizing index c with
  | zero => exact ⟨_, rfl⟩
  | succ loop ih =>
    rw [storeCnameLoop]
    by_cases hin : index ≥ doh.length
    · exact ⟨_, if_pos hin⟩
    · obtain ⟨length, hlength, -⟩ := drop_byte (show index < doh.length by omega)
      rw [if_neg hin, hlength]
      simp only [Option.bind_eq_bind, Option.bind_some]
      split
      · split
        · exact ⟨_, rfl⟩
        · obtain ⟨low, hlow, -⟩ := drop_byte (show index + 1 < doh.length by omega)
          rw [hlow]
          exact ih _ c
      split
      · exact ⟨_, rfl⟩
      split
      · exact ⟨_, rfl⟩
      split
      · split
        · exact ⟨_, rfl⟩
        · obtain ⟨label, hlabel, -⟩ :=
            bytesAt_spec (show index + 1 + length.toNat ≤ doh.length by omega)
          rw [hlabel]
          simp only [Option.bind_some]
          split
          · exact ih _ _
          · exact ⟨_, rfl⟩
      · exact ⟨_, rfl⟩

theorem storeCname_spec (h : Bounded d) (index : Nat) :
    ∃ d' rc, storeCname doh index d = some (d', rc) ∧ Bounded d' ∧ d'.addr = d.addr ∧
      d'.ttl = d.ttl := by
  rw [storeCname]
  split
  · exact ⟨d, _, rfl, h, rfl, rfl⟩
  · rename_i hroom
    obtain ⟨⟨c, rc⟩, hloop⟩ := @storeCnameLoop_total doh 128 index (.init dynDohCname)
    rw [hloop]
    refine ⟨_, rc, rfl, ⟨h.addr, ?_⟩, rfl, rfl⟩
    have hle := h.cname
    rw [List.length_append, List.length_singleton]
    omega

theorem storeAddr_spec (h : Bounded d) {size : Nat} {bytes : Bytes} (type : Dnstype)
    (hbytes : bytesAt doh index size = some bytes) :
    ∃ d', storeAddr doh index type size d = some d' ∧ Bounded d' ∧ d'.ttl = d.ttl ∧
      d'.addr = (d.addr ++ [Dohaddr.mk type bytes]).take dohMaxAddr := by
  rw [storeAddr]
  have hle := h.addr
  split
  · rw [hbytes]
    have hlength : (d.addr ++ [Dohaddr.mk type bytes]).length ≤ dohMaxAddr := by
      rw [List.length_append, List.length_singleton]
      omega
    refine ⟨_, rfl, ⟨hlength, h.cname⟩, rfl, ?_⟩
    rw [List.take_of_length_le hlength]
  · refine ⟨d, rfl, h, rfl, ?_⟩
    have heq : d.addr.length = dohMaxAddr := by omega
    rw [← heq, List.take_left]

/-- What `doh_rdata` does with the data of a record. -/
theorem rdata_spec (h : Bounded d) {r : Record} {rest : Bytes}
    (hdrop : doh.drop index = r.rdata ++ rest) (hindex : index + r.rdata.length ≤ doh.length) :
    ∃ d' rc, rdata httpsrr doh r.rdata.length r.type index d = some (d', rc) ∧ Bounded d' ∧
      d'.ttl = d.ttl ∧ (rc ≠ .ok → d'.addr = d.addr) ∧
      (rc = .ok → d'.addr = (d.addr ++ (addrOf r).toList).take dohMaxAddr ∧
        (r.type = Dnstype.a.toNat → r.rdata.length = 4) ∧
        (r.type = Dnstype.aaaa.toNat → r.rdata.length = 16)) := by
  have hbytes : bytesAt doh index r.rdata.length = some r.rdata := by
    rw [bytesAt, if_pos hindex, hdrop, List.take_left]
  have hnone (hn : addrOf r = none) : d.addr = (d.addr ++ (addrOf r).toList).take dohMaxAddr := by
    rw [hn, Option.toList_none, List.append_nil, List.take_of_length_le h.addr]
  unfold rdata
  by_cases ha : r.type = Dnstype.a.toNat
  · have haaaa : r.type ≠ Dnstype.aaaa.toNat := by
      rw [ha]
      decide
    rw [if_pos ha]
    by_cases hlength : r.rdata.length = 4
    · rw [if_neg (not_not.mpr hlength)]
      rw [hlength] at hbytes
      obtain ⟨d', hstore, hbounded, httl, haddr⟩ := storeAddr_spec h .a hbytes
      rw [hstore]
      refine ⟨d', .ok, rfl, hbounded, httl, fun hne => (hne rfl).elim,
        fun _ => ⟨?_, fun _ => hlength, fun heq => (haaaa heq).elim⟩⟩
      rw [haddr, addrOf, if_pos ha]
      rfl
    · exact ⟨d, _, if_pos hlength, h, rfl, fun _ => rfl, fun heq => by cases heq⟩
  rw [if_neg ha]
  by_cases haaaa : r.type = Dnstype.aaaa.toNat
  · rw [if_pos haaaa]
    by_cases hlength : r.rdata.length = 16
    · rw [if_neg (not_not.mpr hlength)]
      rw [hlength] at hbytes
      obtain ⟨d', hstore, hbounded, httl, haddr⟩ := storeAddr_spec h .aaaa hbytes
      rw [hstore]
      refine ⟨d', .ok, rfl, hbounded, httl, fun hne => (hne rfl).elim, fun _ => ⟨?_, fun heq =>
        (ha heq).elim, fun _ => hlength⟩⟩
      rw [haddr, addrOf, if_neg ha, if_pos haaaa]
      rfl
    · exact ⟨d, _, if_pos hlength, h, rfl, fun _ => rfl, fun heq => by cases heq⟩
  rw [if_neg haaaa]
  have hno : addrOf r = none := by rw [addrOf, if_neg ha, if_neg haaaa]
  -- the other types leave the addresses as they are
  have hother {d' : Dohentry} {rc : Dohcode} (haddr : d'.addr = d.addr) :
      (rc ≠ .ok → d'.addr = d.addr) ∧
        (rc = .ok → d'.addr = (d.addr ++ (addrOf r).toList).take dohMaxAddr ∧
          (r.type = Dnstype.a.toNat → r.rdata.length = 4) ∧
          (r.type = Dnstype.aaaa.toNat → r.rdata.length = 16)) :=
    ⟨fun _ => haddr, fun _ => ⟨haddr.trans (hnone hno), fun heq => (ha heq).elim,
      fun heq => (haaaa heq).elim⟩⟩
  split
  · rw [storeHttps, hbytes]
    split
    · exact ⟨_, _, rfl, ⟨h.addr, h.cname⟩, rfl, hother rfl⟩
    · exact ⟨_, _, rfl, h, rfl, hother rfl⟩
  split
  · obtain ⟨d', rc, hstore, hbounded, haddr, httl⟩ := @storeCname_spec doh d h index
    exact ⟨d', rc, hstore, hbounded, httl, hother haddr⟩
  · exact ⟨d, .ok, rfl, h, rfl, hother rfl⟩

/-- The entry has grown by addresses of the type that was asked for. -/
def Grew (dnstype : Dnstype) (d d' : Dohentry) : Prop :=
  ∃ new, d'.addr = d.addr ++ new ∧
    ∀ a ∈ new, a.type = dnstype ∧ (a.type = .a ∨ a.type = .aaaa)

theorem Grew.refl (dnstype : Dnstype) {d d' : Dohentry} (h : d'.addr = d.addr) :
    Grew dnstype d d' :=
  ⟨[], by rw [h, List.append_nil], fun a ha => (List.not_mem_nil ha).elim⟩

theorem Grew.trans {d1 d2 d3 : Dohentry} (h12 : Grew dnstype d1 d2) (h23 : Grew dnstype d2 d3) :
    Grew dnstype d1 d3 := by
  obtain ⟨new, haddr, htype⟩ := h12
  obtain ⟨new', haddr', htype'⟩ := h23
  refine ⟨new ++ new', by rw [haddr', haddr, List.append_assoc], fun a ha => ?_⟩
  rcases List.mem_append.mp ha with ha | ha
  · exact htype a ha
  · exact htype' a ha

theorem addrOf_type {r : Record} (h : Accepted dnstype r) {a : Dohaddr} (ha : addrOf r = some a) :
    a.type = dnstype ∧ (a.type = .a ∨ a.type = .aaaa) := by
  unfold addrOf at ha
  split at ha
  · rename_i htype
    obtain rfl := Option.some.inj ha
    refine ⟨?_, .inl rfl⟩
    rcases h.ofType with heq | heq | heq
    · rw [htype] at heq
      cases heq
    · rw [htype] at heq
      cases heq
    · rw [htype] at heq
      cases dnstype <;> first | rfl | cases heq
  · split at ha
    · rename_i htype
      obtain rfl := Option.some.inj ha
      refine ⟨?_, .inr rfl⟩
      rcases h.ofType with heq | heq | heq
      · rw [htype] at heq
        cases heq
      · rw [htype] at heq
        cases heq
      · rw [htype] at heq
        cases dnstype <;> first | rfl | cases heq
    · cases ha

theorem Grew.store {d' : Dohentry} {r : Record} (hd : Bounded d) (h : Accepted dnstype r)
    (haddr : d'.addr = (d.addr ++ (addrOf r).toList).take dohMaxAddr) : Grew dnstype d d' := by
  refine ⟨(addrOf r).toList.take (dohMaxAddr - d.addr.length), ?_, fun a ha => ?_⟩
  · rw [haddr, List.take_append, List.take_of_length_le hd.addr]
  · exact addrOf_type h (Option.mem_toList.mp (List.mem_of_mem_take ha))

/-- The smaller of a time to live and the one of a record, which counts up to a day only. -/
def minTtl (ttl : Nat) (r : Record) : Nat := min ttl (min r.ttl maxDnsTtl)

/-- What reading an answer record gives. -/
structure AnswerRead (dnstype : Dnstype) (doh : Bytes) (index index' : Nat) (d d' : Dohentry)
    (r : Record) : Prop where
  accepted : Accepted dnstype r
  index_le : index' ≤ doh.length
  bytes : doh.drop index = r.encode ++ doh.drop index'
  addr : d'.addr = (d.addr ++ (addrOf r).toList).take dohMaxAddr
  ttl : d'.ttl = minTtl d.ttl r

/-- What `answer` can return. -/
def AnswerSpec (dnstype : Dnstype) (doh : Bytes) (index : Nat) (d : Dohentry)
    (x : Option (Dohentry × Dohcode × Nat × Nat)) : Prop :=
  ∃ d' rc type index', x = some (d', rc, type, index') ∧ Bounded d' ∧ (rc ≠ .ok →
    d'.addr = d.addr) ∧ (rc = .ok → ∃ r, AnswerRead dnstype doh index index' d d' r ∧ type = r.type)

theorem AnswerSpec.fail {d' : Dohentry} {rc : Dohcode} (hne : rc ≠ .ok) (hd : Bounded d')
    (haddr : d'.addr = d.addr) (type index' : Nat) :
    AnswerSpec dnstype doh index d (some (d', rc, type, index')) :=
  ⟨d', rc, type, index', rfl, hd, fun _ => haddr, fun heq => (hne heq).elim⟩

/-- The time to live of a record is taken over. -/
def withTtl (d : Dohentry) (ttl : Nat) : Dohentry :=
  if (if ttl > maxDnsTtl then maxDnsTtl else ttl) < d.ttl then
    { d with ttl := if ttl > maxDnsTtl then maxDnsTtl else ttl }
  else d

theorem withTtl_spec (h : Bounded d) (ttl : Nat) :
    Bounded (withTtl d ttl) ∧ (withTtl d ttl).addr = d.addr ∧
      (withTtl d ttl).ttl = min d.ttl (min ttl maxDnsTtl) := by
  have hcap : (if ttl > maxDnsTtl then maxDnsTtl else ttl) = min ttl maxDnsTtl := by
    split <;> omega
  unfold withTtl
  rw [hcap]
  by_cases hless : min ttl maxDnsTtl < d.ttl
  · rw [if_pos hless]
    exact ⟨⟨h.addr, h.cname⟩, rfl, by simp only; omega⟩
  · rw [if_neg hless]
    exact ⟨h, rfl, by omega⟩

theorem answer_spec (h : Bounded d) (hindex : index ≤ doh.length) (type : Nat) :
    AnswerSpec dnstype doh index d (answer httpsrr doh dnstype type index d) := by
  obtain ⟨rc, i1, hskip, hname⟩ := skipqname_spec hindex
  rw [answer, hskip]
  simp only [Option.bind_eq_bind, Option.bind_some]
  by_cases hrc : rc = .ok
  swap
  · cases rc with
    | ok => exact (hrc rfl).elim
    | _ => exact .fail hrc h rfl _ _
  subst hrc
  obtain ⟨hi1, name, hname, hdrop⟩ := hname rfl
  simp only
  by_cases h1 : doh.length < i1 + 2
  · rw [if_pos h1]
    exact .fail (by decide) h rfl _ _
  obtain ⟨type, htype, htype_lt, hdrop1⟩ := get16bit_spec (show i1 + 2 ≤ doh.length by omega)
  rw [if_neg h1, htype]
  simp only [Option.bind_some]
  by_cases h2 : type ≠ Dnstype.cname.toNat ∧ type ≠ Dnstype.dname.toNat ∧ type ≠ dnstype.toNat
  · rw [if_pos h2]
    exact .fail (by decide) h rfl _ _
  rw [if_neg h2]
  by_cases h3 : doh.length < i1 + 2 + 2
  · rw [if_pos h3]
    exact .fail (by decide) h rfl _ _
  obtain ⟨dnsclass, hclass, hclass_lt, hdrop2⟩ :=
    get16bit_spec (show i1 + 2 + 2 ≤ doh.length by omega)
  rw [if_neg h3, hclass]
  simp only [Option.bind_some]
  by_cases h4 : dnsClassIn ≠ dnsclass
  · rw [if_pos h4]
    exact .fail (by decide) h rfl _ _
  rw [if_neg h4]
  by_cases h5 : doh.length < i1 + 2 + 2 + 4
  · rw [if_pos h5]
    exact .fail (by decide) h rfl _ _
  obtain ⟨ttl, httl, httl_lt, hdrop3⟩ := get32bit_spec (show i1 + 2 + 2 + 4 ≤ doh.length by omega)
  rw [if_neg h5, httl]
  simp only [Option.bind_some]
  obtain ⟨hbounded, haddr, hmin⟩ := withTtl_spec h ttl
  by_cases h6 : doh.length < i1 + 2 + 2 + 4 + 2
  · rw [if_pos h6]
    exact .fail (by decide) hbounded haddr _ _
  obtain ⟨rdlength, hrdlength, hrdlength_lt, hdrop4⟩ :=
    get16bit_spec (show i1 + 2 + 2 + 4 + 2 ≤ doh.length by omega)
  rw [if_neg h6, hrdlength]
  simp only [Option.bind_some]
  by_cases h7 : doh.length < i1 + 2 + 2 + 4 + 2 + rdlength
  · rw [if_pos h7]
    exact .fail (by decide) hbounded haddr _ _
  obtain ⟨bytes, -, hlength, hdrop5⟩ :=
    bytesAt_spec (show i1 + 2 + 2 + 4 + 2 + rdlength ≤ doh.length by omega)
  rw [if_neg h7]
  subst hlength
  obtain ⟨d', rc, hrdata, hbounded', httl', hbad, hgood⟩ :=
    @rdata_spec httpsrr doh _ (withTtl d ttl)
    hbounded ⟨name, type, dnsclass, ttl, bytes⟩ _ hdrop5 (by simp only; omega)
  change AnswerSpec dnstype doh index d
    ((rdata httpsrr doh bytes.length type _ (withTtl d ttl)).bind _)
  rw [show rdata httpsrr doh bytes.length type _ (withTtl d ttl) = some (d', rc) from hrdata]
  refine ⟨d', rc, type, _, rfl, hbounded', fun hne => (hbad hne).trans haddr, fun heq => ?_⟩
  obtain ⟨hstored, hlenA, hlenAaaa⟩ := hgood heq
  refine ⟨⟨name, type, dnsclass, ttl, bytes⟩, ⟨⟨⟨hname, htype_lt, hclass_lt, httl_lt, hrdlength_lt⟩,
    ?_, (not_not.mp h4).symm, hlenA, hlenAaaa⟩, by omega, ?_, ?_, ?_⟩, rfl⟩
  · by_contra hnot
    simp only [not_or] at hnot
    exact h2 hnot
  · rw [hdrop, hdrop1, hdrop2, hdrop3, hdrop4, hdrop5]
    simp only [Record.encode, List.append_assoc]
  · rw [hstored, haddr]
  · rw [httl', hmin]
    rfl

theorem AnswerSpec.grew {x : Option (Dohentry × Dohcode × Nat × Nat)} {d' : Dohentry} {rc : Dohcode}
    {type index' : Nat} (hd : Bounded d) (h : AnswerSpec dnstype doh index d x)
    (hx : x = some (d', rc, type, index')) : Grew dnstype d d' := by
  obtain ⟨d1, rc1, type1, i1, hx1, -, hbad, hgood⟩ := h
  rw [hx] at hx1
  cases hx1
  by_cases hrc : rc = .ok
  · obtain ⟨r, hread, -⟩ := hgood hrc
    exact .store hd hread.accepted hread.addr
  · exact .refl dnstype (hbad hrc)

/-- What reading the answer records gives. -/
structure AnswersRead (dnstype : Dnstype) (doh : Bytes) (index index' : Nat) (d d' : Dohentry)
    (rs : List Record) : Prop where
  accepted : ∀ r ∈ rs, Accepted dnstype r
  index_le : index' ≤ doh.length
  bytes : doh.drop index = rs.flatMap Record.encode ++ doh.drop index'
  addr : d'.addr = (d.addr ++ rs.filterMap addrOf).take dohMaxAddr
  ttl : d'.ttl = rs.foldl minTtl d.ttl

theorem AnswersRead.nil (h : Bounded d) (hindex : index ≤ doh.length) :
    AnswersRead dnstype doh index index d d [] where
  accepted r hr := (List.not_mem_nil hr).elim
  index_le := hindex
  bytes := rfl
  addr := by rw [List.filterMap_nil, List.append_nil, List.take_of_length_le h.addr]
  ttl := rfl

theorem AnswersRead.cons {i1 i2 : Nat} {d1 d2 : Dohentry} {r : Record} {rs : List Record}
    (h : AnswerRead dnstype doh index i1 d d1 r) (hs : AnswersRead dnstype doh i1 i2 d1 d2 rs) :
    AnswersRead dnstype doh index i2 d d2 (r :: rs) where
  accepted x hx := by
    rcases List.mem_cons.mp hx with rfl | hx
    · exact h.accepted
    · exact hs.accepted x hx
  index_le := hs.index_le
  bytes := by rw [h.bytes, hs.bytes, List.flatMap_cons, List.append_assoc]
  addr := by
    have hcons : (r :: rs).filterMap addrOf = (addrOf r).toList ++ rs.filterMap addrOf := by
      rw [List.filterMap_cons]
      cases addrOf r <;> rfl
    rw [hs.addr, h.addr, hcons, ← List.append_assoc]
    generalize d.addr ++ (addrOf r).toList = xs
    rw [List.take_append, List.take_append, List.take_take, Nat.min_self]
    congr 2
    rw [List.length_take]
    omega
  ttl := by rw [hs.ttl, h.ttl, List.foldl_cons]

/-- What the loop over the answer records does, also where it fails. -/
theorem answersLoop_spec (h : Bounded d) (hindex : index ≤ doh.length) (ancount type : Nat) :
    ∃ d' rc type' index', answersLoop httpsrr doh dnstype ancount type index d =
        some (d', rc, type', index') ∧ Bounded d' ∧ Grew dnstype d d' ∧
      (rc = .ok → ∃ rs, rs.length = ancount ∧ AnswersRead dnstype doh index index' d d' rs ∧
        (rs = [] → d' = d ∧ type' = type)) := by
  induction ancount generalizing type index d with
  | zero =>
    exact ⟨d, .ok, type, index, rfl, h, .refl dnstype rfl,
      fun _ => ⟨[], rfl, .nil h hindex, fun _ => ⟨rfl, rfl⟩⟩⟩
  | succ ancount ih =>
    have hspec := @answer_spec httpsrr doh dnstype index d h hindex type
    obtain ⟨d1, rc, type1, i1, hcall, hd1, -, hgood⟩ := id hspec
    have hgrew := hspec.grew h hcall
    rw [answersLoop, hcall]
    simp only [Option.bind_eq_bind, Option.bind_some]
    by_cases hrc : rc = .ok
    · subst hrc
      obtain ⟨r, hread, -⟩ := hgood rfl
      obtain ⟨d', rc, type', i', hloop, hd', hgrew', hgood'⟩ := ih hd1 hread.index_le type1
      refine ⟨d', rc, type', i', hloop, hd', hgrew.trans hgrew', fun heq => ?_⟩
      obtain ⟨rs, hlength, hreads, -⟩ := hgood' heq
      exact ⟨r :: rs,
        by rw [List.length_cons, hlength], .cons hread hreads, fun hnil => by cases hnil⟩
    · refine ⟨d1, rc, type1, i1, ?_, hd1, hgrew, fun heq => (hrc heq).elim⟩
      cases rc with
      | ok => exact (hrc rfl).elim
      | _ => rfl

theorem questionsLoop_spec (hindex : index ≤ doh.length) (qdcount : Nat) :
    ∃ rc index', questionsLoop doh qdcount index = some (rc, index') ∧
      (rc = .ok → index' ≤ doh.length ∧ ∃ qs : List Question, qs.length = qdcount ∧
        (∀ q ∈ qs, q.WellFormed) ∧
        doh.drop index = qs.flatMap Question.encode ++ doh.drop index') := by
  induction qdcount generalizing index with
  | zero =>
    exact ⟨_, _, rfl, fun _ => ⟨hindex, [], rfl, fun q hq => (List.not_mem_nil hq).elim, rfl⟩⟩
  | succ qdcount ih =>
    obtain ⟨rc, i1, hskip, hname⟩ := skipqname_spec hindex
    rw [questionsLoop, hskip]
    simp only [Option.bind_eq_bind, Option.bind_some]
    by_cases hrc : rc = .ok
    swap
    · refine ⟨rc, i1, ?_, fun heq => (hrc heq).elim⟩
      cases rc with
      | ok => exact (hrc rfl).elim
      | _ => rfl
    subst hrc
    obtain ⟨hi1, name, hname, hdrop⟩ := hname rfl
    simp only
    by_cases h1 : doh.length < i1 + 4
    · exact ⟨_, _, if_pos h1, fun heq => by cases heq⟩
    obtain ⟨bytes, -, hlength, hdrop1⟩ := bytesAt_spec (show i1 + 4 ≤ doh.length by omega)
    obtain ⟨rc, i2, hloop, hgood⟩ := @ih (i1 + 4) (by omega)
    refine ⟨rc, i2, (if_neg h1).trans hloop, fun heq => ?_⟩
    obtain ⟨hi2, qs, hcount, hqs, hdrop2⟩ := hgood heq
    refine ⟨hi2, ⟨name, bytes⟩ :: qs, by rw [List.length_cons, hcount], fun q hq => ?_, ?_⟩
    · rcases List.mem_cons.mp hq with rfl | hq
      · exact ⟨hname, hlength⟩
      · exact hqs q hq
    · rw [hdrop, hdrop1, hdrop2, List.flatMap_cons, Question.encode]
      simp only [List.append_assoc]

theorem recordsLoop_spec (hindex : index ≤ doh.length) (count : Nat) :
    ∃ rc index', recordsLoop doh count index = some (rc, index') ∧
      (rc = .ok → index' ≤ doh.length ∧ ∃ rs : List Record, rs.length = count ∧
        (∀ r ∈ rs, r.WellFormed) ∧
        doh.drop index = rs.flatMap Record.encode ++ doh.drop index') := by
  induction count generalizing index with
  | zero =>
    exact ⟨_, _, rfl, fun _ => ⟨hindex, [], rfl, fun r hr => (List.not_mem_nil hr).elim, rfl⟩⟩
  | succ count ih =>
    obtain ⟨rc, i1, hskip, hname⟩ := skipqname_spec hindex
    rw [recordsLoop, hskip]
    simp only [Option.bind_eq_bind, Option.bind_some]
    by_cases hrc : rc = .ok
    swap
    · refine ⟨rc, i1, ?_, fun heq => (hrc heq).elim⟩
      cases rc with
      | ok => exact (hrc rfl).elim
      | _ => rfl
    subst hrc
    obtain ⟨hi1, name, hname, hdrop⟩ := hname rfl
    simp only
    by_cases h1 : doh.length < i1 + 8
    · exact ⟨_, _, if_pos h1, fun heq => by cases heq⟩
    rw [if_neg h1]
    by_cases h2 : doh.length < i1 + (2 + 2 + 4) + 2
    · exact ⟨_, _, if_pos h2, fun heq => by cases heq⟩
    obtain ⟨type, -, htype, hdrop1⟩ := get16bit_spec (show i1 + 2 ≤ doh.length by omega)
    obtain ⟨dnsclass, -, hclass, hdrop2⟩ := get16bit_spec (show i1 + 2 + 2 ≤ doh.length by omega)
    obtain ⟨ttl, -, httl, hdrop3⟩ := get32bit_spec (show i1 + 2 + 2 + 4 ≤ doh.length by omega)
    obtain ⟨rdlength, hrdlength, hrdlength_lt, hdrop4⟩ :=
      get16bit_spec (show i1 + (2 + 2 + 4) + 2 ≤ doh.length by omega)
    rw [if_neg h2, hrdlength]
    simp only [Option.bind_some]
    by_cases h3 : doh.length < i1 + (2 + 2 + 4) + 2 + rdlength
    · exact ⟨_, _, if_pos h3, fun heq => by cases heq⟩
    obtain ⟨bytes, -, hlength, hdrop5⟩ :=
      bytesAt_spec (show i1 + (2 + 2 + 4) + 2 + rdlength ≤ doh.length by omega)
    subst hlength
    obtain ⟨rc, i2, hloop, hgood⟩ := @ih (i1 + (2 + 2 + 4) + 2 + bytes.length) (by omega)
    refine ⟨rc, i2, (if_neg h3).trans hloop, fun heq => ?_⟩
    obtain ⟨hi2, rs, hcount, hrs, hdrop6⟩ := hgood heq
    refine ⟨hi2, ⟨name, type, dnsclass, ttl, bytes⟩ :: rs, by rw [List.length_cons, hcount],
      fun r hr => ?_, ?_⟩
    · rcases List.mem_cons.mp hr with rfl | hr
      · exact ⟨hname, htype, hclass, httl, hrdlength_lt⟩
      · exact hrs r hr
    · rw [hdrop, hdrop1, hdrop2, hdrop3, show i1 + 2 + 2 + 4 = i1 + (2 + 2 + 4) from rfl,
        hdrop4, hdrop5, hdrop6, List.flatMap_cons, Record.encode]
      simp only [List.append_assoc]

/-- What a decoded answer is, and what it adds to the entry. -/
structure Decoded (httpsrr : Bool) (doh : Bytes) (dnstype : Dnstype) (d d' : Dohentry)
    (m : Message) : Prop where
  bytes : doh = m.encode
  wellFormed : m.WellFormed
  accepted : ∀ r ∈ m.answers, Accepted dnstype r
  addr : d'.addr = (d.addr ++ m.answers.filterMap addrOf).take dohMaxAddr
  ttl : d'.ttl = m.answers.foldl minTtl d.ttl
  stored : m.answers = [] → nothingStored httpsrr d = false

theorem header_spec (h : 12 ≤ doh.length) (h0 : doh[0]? = some 0) (h1 : doh[1]? = some 0) :
    ∃ b2 b3 qdcount ancount nscount arcount, doh[3]? = some b3 ∧ get16bit doh 4 = some qdcount ∧
      get16bit doh 6 = some ancount ∧ get16bit doh 8 = some nscount ∧
        get16bit doh 10 = some arcount ∧
      qdcount < 2 ^ 16 ∧ ancount < 2 ^ 16 ∧ nscount < 2 ^ 16 ∧ arcount < 2 ^ 16 ∧
      doh = [0, 0, b2, b3] ++ (be16 qdcount ++ (be16 ancount ++ (be16 nscount ++ (be16 arcount ++
        doh.drop 12)))) := by
  obtain ⟨b0, hb0, hdrop0⟩ := drop_byte (show 0 < doh.length by omega)
  obtain ⟨b1, hb1, hdrop1⟩ := drop_byte (show 1 < doh.length by omega)
  obtain ⟨b2, hb2, hdrop2⟩ := drop_byte (show 2 < doh.length by omega)
  obtain ⟨b3, hb3, hdrop3⟩ := drop_byte (show 3 < doh.length by omega)
  obtain ⟨qdcount, hqd, hqd_lt, hdrop4⟩ := get16bit_spec (show 4 + 2 ≤ doh.length by omega)
  obtain ⟨ancount, han, han_lt, hdrop6⟩ := get16bit_spec (show 6 + 2 ≤ doh.length by omega)
  obtain ⟨nscount, hns, hns_lt, hdrop8⟩ := get16bit_spec (show 8 + 2 ≤ doh.length by omega)
  obtain ⟨arcount, har, har_lt, hdrop10⟩ := get16bit_spec (show 10 + 2 ≤ doh.length by omega)
  refine ⟨b2, b3, qdcount, ancount, nscount, arcount, hb3, hqd, han, hns, har, hqd_lt,
    han_lt, hns_lt, har_lt, ?_⟩
  obtain rfl : 0 = b0 := Option.some.inj (h0.symm.trans hb0)
  obtain rfl : 0 = b1 := Option.some.inj (h1.symm.trans hb1)
  calc doh = doh.drop 0 := List.drop_zero.symm
    _ = 0 :: 0 :: b2 :: b3 :: doh.drop 4 := by rw [hdrop0, hdrop1, hdrop2, hdrop3]
    _ = _ := by
      rw [hdrop4, show 4 + 2 = 6 from rfl, hdrop6, show 6 + 2 = 8 from rfl, hdrop8,
        show 8 + 2 = 10 from rfl, hdrop10]
      rfl

theorem respDecode_spec (h : Bounded d) :
    ∃ d' rc, respDecode httpsrr doh dnstype d = some (d', rc) ∧ Bounded d' ∧ Grew dnstype d d' ∧
      (rc = .ok → ∃ m, Decoded httpsrr doh dnstype d d' m) := by
  have hsame (rc : Dohcode) (hne : rc ≠ .ok) {x : Option (Dohentry × Dohcode)}
    (hx : x = some (d, rc)) :
      ∃ d' rc, x = some (d', rc) ∧ Bounded d' ∧ Grew dnstype d d' ∧
        (rc = .ok → ∃ m, Decoded httpsrr doh dnstype d d' m) :=
    ⟨d, rc, hx, h, .refl dnstype rfl, fun heq => (hne heq).elim⟩
  rw [respDecode]
  by_cases hsmall : doh.length < 12
  · exact hsame .tooSmallBuffer (by decide) (if_pos hsmall)
  obtain ⟨b0, hb0, -⟩ := drop_byte (show 0 < doh.length by omega)
  obtain ⟨b1, hb1, -⟩ := drop_byte (show 1 < doh.length by omega)
  rw [if_neg hsmall, hb0, hb1]
  simp only [Option.bind_eq_bind, Option.bind_some]
  by_cases hid : b0 ≠ 0 ∨ b1 ≠ 0
  · exact hsame .dnsBadId (by decide) (if_pos hid)
  simp only [ne_eq, not_or, not_not] at hid
  obtain ⟨rfl, rfl⟩ := hid
  obtain ⟨b2, b3, qdcount, ancount, nscount, arcount, hb3, hqd, han, hns, har, hqd_lt,
    han_lt, hns_lt, har_lt, hheader⟩ := header_spec (Nat.le_of_not_lt hsmall) hb0 hb1
  rw [if_neg (by simp), hb3, hqd, han, hns, har]
  simp only [Option.bind_some]
  by_cases hnx : b3 &&& 0x0f = 3
  · exact hsame .dnsNxdomain (by decide) (if_pos hnx)
  rw [if_neg hnx]
  by_cases hrcode : b3 &&& 0x0f = 0
  swap
  · exact hsame .dnsBadRcode (by decide) (if_pos hrcode)
  rw [if_neg (not_not.mpr hrcode)]
  obtain ⟨rc1, i1, hquestions, hqs⟩ := questionsLoop_spec (Nat.le_of_not_lt hsmall) qdcount
  rw [hquestions]
  simp only [Option.bind_some]
  by_cases hrc1 : rc1 = .ok
  swap
  · refine hsame rc1 hrc1 ?_
    cases rc1 with
    | ok => exact (hrc1 rfl).elim
    | _ => rfl
  subst hrc1
  obtain ⟨hi1, qs, hqcount, hqwf, hqdrop⟩ := hqs rfl
  obtain ⟨d', rc2, type, i2, hanswers, hd', hgrew, hrs⟩ :=
    @answersLoop_spec httpsrr doh dnstype i1 d h hi1 ancount 0
  have hfail (rc : Dohcode) (hne : rc ≠ .ok) {x : Option (Dohentry × Dohcode)}
    (hx : x = some (d', rc)) :
      ∃ d' rc, x = some (d', rc) ∧ Bounded d' ∧ Grew dnstype d d' ∧
        (rc = .ok → ∃ m, Decoded httpsrr doh dnstype d d' m) :=
    ⟨d', rc, hx, hd', hgrew, fun heq => (hne heq).elim⟩
  simp only
  rw [hanswers]
  simp only [Option.bind_some]
  by_cases hrc2 : rc2 = .ok
  swap
  · refine hfail rc2 hrc2 ?_
    cases rc2 with
    | ok => exact (hrc2 rfl).elim
    | _ => rfl
  subst hrc2
  obtain ⟨rs, hrcount, hreads, hnil⟩ := hrs rfl
  obtain ⟨rc3, i3, hns', hauth⟩ := recordsLoop_spec hreads.index_le nscount
  simp only
  rw [hns']
  simp only [Option.bind_some]
  by_cases hrc3 : rc3 = .ok
  swap
  · refine hfail rc3 hrc3 ?_
    cases rc3 with
    | ok => exact (hrc3 rfl).elim
    | _ => rfl
  subst hrc3
  obtain ⟨hi3, auth, hauthcount, hauthwf, hauthdrop⟩ := hauth rfl
  obtain ⟨rc4, i4, har', hadd⟩ := recordsLoop_spec hi3 arcount
  simp only
  rw [har']
  simp only [Option.bind_some]
  by_cases hrc4 : rc4 = .ok
  swap
  · refine hfail rc4 hrc4 ?_
    cases rc4 with
    | ok => exact (hrc4 rfl).elim
    | _ => rfl
  subst hrc4
  obtain ⟨hi4, add, haddcount, haddwf, hadddrop⟩ := hadd rfl
  simp only
  by_cases hend : i4 ≠ doh.length
  · exact hfail .dnsMalformat (by decide) (if_pos hend)
  rw [if_neg hend]
  by_cases hnone : type ≠ Dnstype.ns.toNat ∧ nothingStored httpsrr d' = true
  · exact hfail .noContent (by decide) (if_pos hnone)
  refine ⟨d', .ok, if_neg hnone, hd', hgrew, fun _ => ⟨⟨(b2, b3), qs, rs, auth, add⟩, ?_, ?_,
    hreads.accepted, hreads.addr, hreads.ttl, fun hempty => ?_⟩⟩
  · rw [Message.encode, hqcount, hrcount, hauthcount, haddcount]
    refine hheader.trans ?_
    rw [hqdrop, hreads.bytes, hauthdrop, hadddrop, not_not.mp hend, List.drop_length,
      List.append_nil]
  · exact ⟨hrcode, hqwf, fun r hr => (hreads.accepted r hr).toWellFormed, hauthwf, haddwf,
      by rw [hqcount]; exact hqd_lt, by rw [hrcount]; exact han_lt, by
        rw [hauthcount]; exact hns_lt,
      by rw [haddcount]; exact har_lt⟩
  · obtain ⟨rfl, rfl⟩ := hnil hempty
    by_contra hstored
    exact hnone ⟨by decide, by simpa using hstored⟩

/-- The time to live of an entry that was filled from the start. -/
theorem foldl_minTtl {rs : List Record} (hne : rs ≠ []) :
    (rs.map fun r => min r.ttl maxDnsTtl).min? = some (rs.foldl minTtl deInit.ttl) := by
  obtain ⟨r, rs, rfl⟩ := List.exists_cons_of_ne_nil hne
  have hfirst : minTtl deInit.ttl r = min r.ttl maxDnsTtl :=
    Nat.min_eq_right ((Nat.min_le_right _ _).trans (by decide))
  rw [List.map_cons, List.min?_cons', List.foldl_cons, hfirst, List.foldl_map]
  rfl

/-- Whatever the bytes of an answer are, `doh_resp_decode` ends without a read behind them and keeps
its counts within the arrays. Where it succeeds, they are a DNS message whose addresses and time to
live it has stored. -/
theorem doh_resp_decode_message (httpsrr : Bool) (doh : Bytes) (dnstype : Dnstype)
    (d : Dohentry) (hd : Bounded d) :
    ∃ d' rc, respDecode httpsrr doh dnstype d = some (d', rc) ∧ d'.addr.length ≤ dohMaxAddr ∧
      d'.cname.length ≤ dohMaxCname ∧
      (rc = .ok → ∃ m : Message, doh = m.encode ∧ m.WellFormed ∧
        (∀ r ∈ m.answers, Accepted dnstype r) ∧
        d'.addr = (d.addr ++ m.answers.filterMap addrOf).take dohMaxAddr ∧
        d'.ttl = m.answers.foldl minTtl d.ttl ∧
        (d = deInit → d'.addr = (m.answers.filterMap addrOf).take dohMaxAddr ∧
          (m.answers.map fun r => min r.ttl maxDnsTtl).min? = some d'.ttl)) := by
  obtain ⟨d', rc, hcall, hbounded, -, hgood⟩ := @respDecode_spec httpsrr doh dnstype d hd
  refine ⟨d', rc, hcall, hbounded.addr, hbounded.cname, fun heq => ?_⟩
  obtain ⟨m, hm⟩ := hgood heq
  refine ⟨m, hm.bytes, hm.wellFormed, hm.accepted, hm.addr, hm.ttl, fun hinit => ⟨?_, ?_⟩⟩
  · rw [hm.addr, hinit]
    rfl
  · have hne : m.answers ≠ [] := fun hnil => by
      have hstored := hm.stored hnil
      rw [hinit] at hstored
      cases httpsrr <;> cases hstored
    rw [foldl_minTtl hne, hm.ttl, hinit]

/-- An answer with one record: the address 127.0.0.1, for a minute. -/
def localhostAnswer : Bytes :=
  [0, 0, 129, 128, 0, 0, 0, 1, 0, 0, 0, 0, 0, 0, 1, 0, 1, 0, 0, 0, 60, 0, 4, 127, 0, 0, 1]

theorem doh_resp_decode_message_localhost : ∃ m : Message, localhostAnswer = m.encode ∧
    m.WellFormed ∧ (m.answers.filterMap addrOf).take dohMaxAddr = [⟨.a, [127, 0, 0, 1]⟩] := by
  have hrun : respDecode false localhostAnswer .a deInit =
      some (⟨[], [⟨.a, [127, 0, 0, 1]⟩], 60, []⟩, .ok) := by decide +kernel
  obtain ⟨d', rc, hcall, -, -, hok⟩ :=
    doh_resp_decode_message false localhostAnswer .a deInit ⟨by decide, by decide⟩
  rw [hrun] at hcall
  cases hcall
  obtain ⟨m, hbytes, hwell, -, -, -, hinit⟩ := hok rfl
  exact ⟨m, hbytes, hwell, (hinit rfl).1.symm⟩

end Gurl.Doh
