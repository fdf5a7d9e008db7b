import Gurl.Doh.Decoding

/-! `Curl_doh_take_result`: the DNS entry that is made of the answers to the queries of a name. -/

namespace Gurl.Doh

/-- `struct doh_response`; `issued` tells that `probe_mid` is one. -/
structure Response where
  issued : Bool
  body : Bytes
  dnstype : Option Dnstype

/-- What became of a query: none was issued, or its transfer ended with a result and a body. -/
def Response.done (dnstype : Dnstype) : Option (Curlcode × Bytes) → Response
  | none => ⟨false, [], none⟩
  -- `doh_probe_done`
  | some (.ok, body) => ⟨true, body, some dnstype⟩
  | some _ => ⟨true, [], none⟩

/-- `struct doh_probes`. -/
structure Probes where
  ipv4 : Response
  ipv6 : Response
  https : Response
  pending : Nat

/-- The queries of a name that have all ended. -/
def Probes.done (ipv4 ipv6 https : Option (Curlcode × Bytes)) : Probes where
  ipv4 := .done .a ipv4
  ipv6 := .done .aaaa ipv6
  https := .done .https https
  pending := 0

/-- The address family. -/
inductive Family where
  | inet | inet6
  deriving DecidableEq

/-- `struct Curl_addrinfo`, of which `doh2ai` makes a list. -/
structure Addrinfo where
  family : Family
  addr : Bytes
  port : Nat
  canonname : Bytes
  deriving DecidableEq

/-- An element of the list that `doh2ai` makes. -/
def addrinfo (hostname : Bytes) (port : Nat) (a : Dohaddr) : Addrinfo :=
  ⟨if a.type = .aaaa then .inet6 else .inet, a.ip, port, hostname⟩

/-- `doh2ai`. -/
def doh2ai (de : Dohentry) (hostname : Bytes) (port : Nat) : Curlcode × List Addrinfo :=
  if de.addr = [] then (.couldntResolveHost, [])
  else (.ok, de.addr.map (addrinfo hostname port))

/-- What `Curl_doh_take_result` gives: the result, the addresses of the DNS entry if there is one,
and `negative_answer`. -/
structure Taken where
  result : Curlcode
  dns : Option (List Addrinfo)
  negative : Bool
  deriving DecidableEq

/-- The name and how it is resolved; `decodeHttpsrr` is the result of `doh_resp_decode_httpsrr`. -/
structure Resolve where
  httpsrr : Bool
  forProxy : Bool
  host : Bytes
  port : Nat
  decodeHttpsrr : Bytes → Curlcode

def Resolve.couldnt (r : Resolve) : Curlcode :=
  if r.forProxy then .couldntResolveProxy else .couldntResolveHost

/-- The answer of a slot is decoded into the entry; without one, the result is what `memset`
left. -/
def decodeSlot (httpsrr : Bool) (p : Response) (de : Dohentry) : Option (Dohentry × Dohcode) :=
  match p.dnstype with
  | some dnstype => respDecode httpsrr p.body dnstype de
  | none => some (de, .ok)

/-- The slot of the HTTPS query, which is there with `USE_HTTPSRR` only. -/
def decodeHttpsSlot (httpsrr : Bool) (p : Response) (de : Dohentry) : Option (Dohentry × Dohcode) :=
  if httpsrr then decodeSlot httpsrr p de else some (de, .ok)

/-- The result of a slot keeps the answer from being a negative one. -/
def failsOtherwise (rc : Dohcode) : Bool := rc ≠ .ok && rc ≠ .dnsNxdomain

/-- The HTTPS record that goes into the entry. -/
def httpsResult (r : Resolve) (de : Dohentry) : Curlcode :=
  match de.httpsRrs with
  | val :: _ => if r.httpsrr then r.decodeHttpsrr val else .ok
  | [] => .ok

/-- `Curl_doh_take_result`. -/
def takeResult (r : Resolve) (p : Probes) : Option Taken :=
  if !p.ipv4.issued && !p.ipv6.issued then some ⟨r.couldnt, none, false⟩
  else if p.pending ≠ 0 then some ⟨.again, none, false⟩
  else do
    let (de, rc4) ← decodeSlot r.httpsrr p.ipv4 deInit
    let (de, rc6) ← decodeSlot r.httpsrr p.ipv6 de
    let (de, rc65) ← decodeHttpsSlot r.httpsrr p.https de
    let negative := !(failsOtherwise rc4 || failsOtherwise rc6 || failsOtherwise rc65)
    if rc4 = .ok ∨ rc6 = .ok then
      match doh2ai de r.host r.port with
      | (.ok, ai) =>
        let result := httpsResult r de
        if result ≠ .ok then some ⟨result, none, false⟩ else some ⟨.ok, some ai, false⟩
      | (result, _) => some ⟨result, none, result == .couldntResolveHost && negative⟩
    else some ⟨r.couldnt, none, negative⟩

theorem bounded_deInit : Bounded deInit := ⟨by decide, by decide⟩

theorem Response.dnstype_done {dnstype dnstype' : Dnstype} {query : Option (Curlcode × Bytes)}
    (h : (Response.done dnstype query).dnstype = some dnstype') : dnstype' = dnstype := by
  rcases query with _ | ⟨result, body⟩
  · cases h
  · cases result <;> cases h
    rfl

theorem Response.issued_done {dnstype : Dnstype} {query : Option (Curlcode × Bytes)}
    (h : (Response.done dnstype query).dnstype ≠ none) :
    (Response.done dnstype query).issued = true := by
  rcases query with _ | ⟨result, body⟩
  · exact (h rfl).elim
  · cases result <;> rfl

/-- The answer of a slot came and was decoded. -/
def Response.DecodedOk (p : Response) (rc : Dohcode) : Prop := p.dnstype ≠ none ∧ rc = .ok

instance (p : Response) (rc : Dohcode) : Decidable (p.DecodedOk rc) :=
  inferInstanceAs (Decidable (_ ∧ _))

/-- What the decoding of a slot can do: an answer adds addresses of its type, and a slot without one
adds none and counts as decoded. -/
structure SlotRead (httpsrr : Bool) (dnstype : Dnstype) (p : Response) (d d' : Dohentry)
    (rc : Dohcode) : Prop where
  call : decodeSlot httpsrr p d = some (d', rc)
  bounded : Bounded d'
  grew : Grew dnstype d d'
  silent : p.dnstype = none → d' = d ∧ rc = .ok
  decoded : p.DecodedOk rc → ∃ m, Decoded httpsrr p.body dnstype d d' m

theorem decodeSlot_spec {d : Dohentry} (hd : Bounded d) (httpsrr : Bool) (dnstype : Dnstype)
    (query : Option (Curlcode × Bytes)) :
    ∃ d' rc, SlotRead httpsrr dnstype (.done dnstype query) d d' rc := by
  cases hslot : (Response.done dnstype query).dnstype with
  | none =>
    have hcall : decodeSlot httpsrr (.done dnstype query) d = some (d, .ok) := by
      rw [decodeSlot, hslot]
    exact ⟨d, .ok, hcall, hd, .refl dnstype rfl, fun _ => ⟨rfl, rfl⟩, fun hok => (hok.1 hslot).elim⟩
  | some dnstype' =>
    obtain rfl := Response.dnstype_done hslot
    obtain ⟨d', rc, hcall, hd', hgrew, hok⟩ :=
      @respDecode_spec httpsrr (Response.done dnstype' query).body dnstype' d hd
    refine ⟨d', rc, ?_, hd', hgrew, fun hnone => ?_, fun hdecoded => hok hdecoded.2⟩
    · rw [decodeSlot, hslot]
      exact hcall
    · rw [hslot] at hnone
      cases hnone

theorem Grew.https {d d' : Dohentry} (h : Grew .https d d') : d'.addr = d.addr := by
  obtain ⟨new, haddr, htype⟩ := h
  cases new with
  | nil => rw [haddr, List.append_nil]
  | cons a new =>
    obtain ⟨hhttps, hother⟩ := htype a List.mem_cons_self
    rw [hhttps] at hother
    rcases hother with hother | hother <;> cases hother

/-- How the answers of all slots are decoded into one entry. -/
structure Decodes (r : Resolve) (p : Probes) (de4 de6 de : Dohentry) (rc4 rc6 rc65 : Dohcode) :
    Prop where
  ipv4 : decodeSlot r.httpsrr p.ipv4 deInit = some (de4, rc4)
  ipv6 : decodeSlot r.httpsrr p.ipv6 de4 = some (de6, rc6)
  https : decodeHttpsSlot r.httpsrr p.https de6 = some (de, rc65)

/-- The addresses are those of the answers that were decoded, and there is such an answer. -/
structure Honest (r : Resolve) (p : Probes) (de4 de6 : Dohentry) (rc4 rc6 : Dohcode)
    (addrs : List Dohaddr) : Prop where
  answered : p.ipv4.DecodedOk rc4 ∨ p.ipv6.DecodedOk rc6
  ipv4 : p.ipv4.DecodedOk rc4 → ∃ m, Decoded r.httpsrr p.ipv4.body .a deInit de4 m
  ipv6 : p.ipv6.DecodedOk rc6 → ∃ m, Decoded r.httpsrr p.ipv6.body .aaaa de4 de6 m
  addrs_eq : addrs = (if p.ipv4.DecodedOk rc4 then de4.addr else []) ++
    if p.ipv6.DecodedOk rc6 then de6.addr.drop de4.addr.length else []

/-- No address of an answer that was rejected gets into an entry. -/
def NoLeak (r : Resolve) (de4 de6 de : Dohentry) (rc4 rc6 : Dohcode) : Prop :=
  httpsResult r de ≠ .ok ∨
    (rc6 = .ok → rc4 = .ok ∨ de4.addr = []) ∧
      (rc4 = .ok → rc6 = .ok ∨ de6.addr.drop de4.addr.length = [])

theorem takeResult_eq {r : Resolve} {p : Probes} {de4 de6 de : Dohentry} {rc4 rc6 rc65 : Dohcode}
    (h : Decodes r p de4 de6 de rc4 rc6 rc65) (hpending : p.pending = 0) :
    ∃ t, takeResult r p = some t ∧ ∀ ai, t.dns = some ai ↔
      (p.ipv4.issued = true ∨ p.ipv6.issued = true) ∧ (rc4 = .ok ∨ rc6 = .ok) ∧ de.addr ≠ [] ∧
        httpsResult r de = .ok ∧ ai = de.addr.map (addrinfo r.host r.port) := by
  unfold takeResult
  by_cases hissued : (!p.ipv4.issued && !p.ipv6.issued) = true
  · rw [if_pos hissued]
    refine ⟨_, rfl, fun ai => ⟨(nomatch ·), fun hentry => ?_⟩⟩
    obtain ⟨hsome, -⟩ := hentry
    simp only [Bool.and_eq_true, Bool.not_eq_true'] at hissued
    rw [hissued.1, hissued.2] at hsome
    rcases hsome with hsome | hsome <;> cases hsome
  have hsome : p.ipv4.issued = true ∨ p.ipv6.issued = true := by
    simpa [or_iff_not_imp_left] using hissued
  rw [if_neg hissued, if_neg (not_not.mpr hpending), h.ipv4]
  simp only [Option.bind_eq_bind, Option.bind_some]
  rw [h.ipv6]
  simp only [Option.bind_some]
  rw [h.https]
  simp only [Option.bind_some]
  by_cases hrc : rc4 = .ok ∨ rc6 = .ok
  · rw [if_pos hrc, doh2ai]
    by_cases haddr : de.addr = []
    · rw [if_pos haddr]
      exact ⟨_, rfl, fun ai => ⟨(nomatch ·), fun ⟨_, _, hne, _⟩ => (hne haddr).elim⟩⟩
    · rw [if_neg haddr]
      simp only
      by_cases hhttps : httpsResult r de = .ok
      · rw [if_neg (not_not.mpr hhttps)]
        refine ⟨_, rfl, fun ai => ⟨fun heq => ?_, fun ⟨_, _, _, _, heq⟩ => by rw [heq]⟩⟩
        exact ⟨hsome, hrc, haddr, hhttps, (Option.some.inj heq).symm⟩
      · rw [if_pos hhttps]
        exact ⟨_, rfl, fun ai => ⟨(nomatch ·),
          fun ⟨_, _, _, hok, _⟩ => (hhttps hok).elim⟩⟩
  · rw [if_neg hrc]
    exact ⟨_, rfl, fun ai => ⟨(nomatch ·), fun ⟨_, hok, _⟩ => (hrc hok).elim⟩⟩

/-- The slots of the queries of a name are decoded one after the other. -/
theorem decodes_done (r : Resolve) (q4 q6 q65 : Option (Curlcode × Bytes)) :
    ∃ de4 de6 de rc4 rc6 rc65, Decodes r (.done q4 q6 q65) de4 de6 de rc4 rc6 rc65 ∧
      SlotRead r.httpsrr .a (.done .a q4) deInit de4 rc4 ∧
      SlotRead r.httpsrr .aaaa (.done .aaaa q6) de4 de6 rc6 ∧ de.addr = de6.addr := by
  obtain ⟨de4, rc4, h4⟩ := decodeSlot_spec bounded_deInit r.httpsrr .a q4
  obtain ⟨de6, rc6, h6⟩ := decodeSlot_spec h4.bounded r.httpsrr .aaaa q6
  obtain ⟨de, rc65, h65⟩ := decodeSlot_spec h6.bounded r.httpsrr .https q65
  by_cases hhttps : r.httpsrr = true
  · refine ⟨de4, de6, de, rc4, rc6, rc65, ⟨h4.call, h6.call, ?_⟩, h4, h6, h65.grew.https⟩
    rw [decodeHttpsSlot, if_pos hhttps]
    exact h65.call
  · refine ⟨de4, de6, de6, rc4, rc6, .ok, ⟨h4.call, h6.call, ?_⟩, h4, h6, rfl⟩
    rw [decodeHttpsSlot, if_neg hhttps]

theorem SlotRead.issued {httpsrr : Bool} {dnstype : Dnstype} {query : Option (Curlcode × Bytes)}
    {d d' : Dohentry} {rc : Dohcode} (h : SlotRead httpsrr dnstype (.done dnstype query) d d' rc)
    (hrc : rc ≠ .ok) : (Response.done dnstype query).issued = true :=
  Response.issued_done fun hnone => hrc (h.silent hnone).2

/-- A slot whose answer was not decoded adds nothing, when a rejected answer adds nothing. -/
theorem SlotRead.addr_of_not {httpsrr : Bool} {dnstype : Dnstype} {p : Response} {d d' : Dohentry}
    {rc : Dohcode} (h : SlotRead httpsrr dnstype p d d' rc) (hnot : ¬p.DecodedOk rc)
    (hleak : rc ≠ .ok → d'.addr.drop d.addr.length = []) : d'.addr.drop d.addr.length = [] := by
  by_cases hnone : p.dnstype = none
  · rw [(h.silent hnone).1, List.drop_length]
  · exact hleak fun hrc => hnot ⟨hnone, hrc⟩

/-- An entry that has all addresses that were stored has none of a rejected answer. -/
theorem Honest.full {r : Resolve} {p : Probes} {de4 de6 : Dohentry} {rc4 rc6 : Dohcode}
    {addrs : List Dohaddr} (h : Honest r p de4 de6 rc4 rc6 addrs)
    (hlength : addrs.length = de6.addr.length) (hle : de4.addr.length ≤ de6.addr.length) :
    (rc4 ≠ .ok → de4.addr = []) ∧ (rc6 ≠ .ok → de6.addr.drop de4.addr.length = []) := by
  have hsum : de4.addr.length + (de6.addr.drop de4.addr.length).length = de6.addr.length := by
    rw [List.length_drop]
    omega
  have haddrs := congrArg List.length h.addrs_eq
  rw [List.length_append, hlength] at haddrs
  constructor
  · intro hrc
    rw [if_neg fun hok : p.ipv4.DecodedOk rc4 => hrc hok.2, List.length_nil] at haddrs
    rw [← List.length_eq_zero_iff]
    split at haddrs
    · omega
    · rw [List.length_nil] at haddrs
      omega
  · intro hrc
    rw [if_neg fun hok : p.ipv6.DecodedOk rc6 => hrc hok.2, List.length_nil] at haddrs
    rw [← List.length_eq_zero_iff]
    split at haddrs
    · omega
    · rw [List.length_nil] at haddrs
      omega

/-- Every DNS entry has the addresses of decoded answers if and only if no rejected answer leaves an
address behind. -/
theorem doh_take_result_honest_iff (r : Resolve) (q4 q6 q65 : Option (Curlcode × Bytes)) :
    ∃ de4 de6 de rc4 rc6 rc65 t, Decodes r (.done q4 q6 q65) de4 de6 de rc4 rc6 rc65 ∧
      takeResult r (.done q4 q6 q65) = some t ∧
      ((∀ ai, t.dns = some ai → ∃ addrs, Honest r (.done q4 q6 q65) de4 de6 rc4 rc6 addrs ∧
        ai = addrs.map (addrinfo r.host r.port)) ↔ NoLeak r de4 de6 de rc4 rc6) := by
  obtain ⟨de4, de6, de, rc4, rc6, rc65, hdecodes, h4, h6, haddr⟩ := decodes_done r q4 q6 q65
  obtain ⟨t, htake, hentry⟩ := takeResult_eq hdecodes rfl
  refine ⟨de4, de6, de, rc4, rc6, rc65, t, hdecodes, htake, ?_⟩
  obtain ⟨new, hnew, -⟩ := h6.grew
  have hdrop4 : de4.addr.drop deInit.addr.length = de4.addr := List.drop_zero
  constructor
  · intro honest
    by_cases hhttps : httpsResult r de = .ok
    swap
    · exact .inl hhttps
    -- an entry is made, and it has all that was stored
    have hfull (hissued : (Response.done .a q4).issued = true ∨
      (Response.done .aaaa q6).issued = true)
        (hrc : rc4 = .ok ∨ rc6 = .ok) (hne : de.addr ≠ []) :
        (rc4 ≠ .ok → de4.addr = []) ∧ (rc6 ≠ .ok → de6.addr.drop de4.addr.length = []) := by
      obtain ⟨addrs, haddrs, heq⟩ := honest _ ((hentry _).mpr ⟨hissued, hrc, hne, hhttps, rfl⟩)
      refine haddrs.full ?_ (by rw [hnew, List.length_append]; omega)
      simpa [haddr] using (congrArg List.length heq).symm
    refine .inr ⟨fun hok6 => ?_, fun hok4 => ?_⟩
    · refine or_iff_not_imp_left.mpr fun hrc => ?_
      by_contra hstored
      have hne : de.addr ≠ [] := by
        rw [haddr, hnew]
        exact List.append_ne_nil_of_left_ne_nil hstored new
      exact hstored ((hfull (.inl (h4.issued hrc)) (.inr hok6) hne).1 hrc)
    · refine or_iff_not_imp_left.mpr fun hrc => ?_
      by_contra hstored
      have hne : de.addr ≠ [] := by
        rw [haddr]
        intro hnil
        rw [hnil, List.drop_nil] at hstored
        exact hstored rfl
      exact hstored ((hfull (.inr (h6.issued hrc)) (.inl hok4) hne).2 hrc)
  · intro hleak ai hai
    obtain ⟨-, hrc, hne, hhttps, rfl⟩ := (hentry ai).mp hai
    obtain ⟨hleak4, hleak6⟩ := hleak.resolve_left (not_not.mpr hhttps)
    have hnot4 : ¬(Response.done .a q4).DecodedOk rc4 → de4.addr = [] := fun hnot => by
      rw [← hdrop4]
      refine h4.addr_of_not hnot fun hbad => ?_
      rw [hdrop4]
      exact (hleak4 (hrc.resolve_left hbad)).resolve_left hbad
    have hnot6 : ¬(Response.done .aaaa q6).DecodedOk rc6 → de6.addr.drop de4.addr.length = [] :=
      fun hnot => h6.addr_of_not hnot fun hbad =>
        (hleak6 (hrc.resolve_right hbad)).resolve_left hbad
    have hall : de.addr = (if (Response.done .a q4).DecodedOk rc4 then de4.addr else []) ++
        if (Response.done .aaaa q6).DecodedOk rc6 then de6.addr.drop de4.addr.length else [] := by
      rw [ite_eq_left_iff.mpr fun hnot => (hnot4 hnot).symm,
        ite_eq_left_iff.mpr fun hnot => (hnot6 hnot).symm, haddr, hnew, List.drop_left]
    refine ⟨de.addr, ⟨?_, h4.decoded, h6.decoded, hall⟩, rfl⟩
    by_contra hnone
    obtain ⟨hnone4, hnone6⟩ := not_or.mp hnone
    have hnil := hnot6 hnone6
    rw [hnot4 hnone4, List.length_nil, List.drop_zero] at hnil
    exact hne (haddr.trans hnil)

/-- Only an A query was issued; its answer has an address and a byte behind the message. -/
def trailingByte : Bytes :=
  [0, 0, 0x81, 0x80, 0, 0, 0, 1, 0, 0, 0, 0,
    0, 0, 1, 0, 1, 0, 0, 0, 60, 0, 4, 127, 0, 0, 1, 0xff]

/-- The only answer is rejected, and the entry is made of the address it left. -/
theorem rejected_answer_resolved :
    let r : Resolve := ⟨false, false, [97], 80, fun _ => .ok⟩
    respDecode false trailingByte .a deInit =
        some (⟨[], [⟨.a, [127, 0, 0, 1]⟩], 60, []⟩, .dnsMalformat) ∧
      takeResult r (.done (some (.ok, trailingByte)) none none) =
        some ⟨.ok, some [⟨.inet, [127, 0, 0, 1], 80, [97]⟩], false⟩ := by
  decide +kernel

end Gurl.Doh
