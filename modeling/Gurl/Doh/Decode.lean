import Gurl.Dynbuf

/-! `doh_resp_decode` of `lib/doh.c`. An answer has at most `DYN_DOH_RESPONSE` bytes, so that an
index never comes near the end of its type. Every read is checked: `none` is a read behind the
answer. -/

namespace Gurl.Doh

/-- `DOHcode`. -/
inductive Dohcode where
  | ok | dnsBadLabel | dnsOutOfRange | dnsLabelLoop | tooSmallBuffer | outOfMem | dnsRdataLen
  | dnsMalformat | dnsBadRcode | dnsUnexpectedType | dnsUnexpectedClass | noContent | dnsBadId
  | dnsNameTooLong | dnsNxdomain
  deriving DecidableEq

/-- `DNStype`. -/
inductive Dnstype where
  | a | ns | cname | aaaa | dname | https
  deriving DecidableEq

/-- The number of a type on the wire. -/
def Dnstype.toNat : Dnstype → Nat
  | .a => 1
  | .ns => 2
  | .cname => 5
  | .aaaa => 28
  | .dname => 39
  | .https => 65

/-- `DOH_MAX_ADDR`. -/
def dohMaxAddr : Nat := 24

/-- `DOH_MAX_CNAME`. -/
def dohMaxCname : Nat := 4

/-- `DOH_MAX_HTTPS`. -/
def dohMaxHttps : Nat := 4

/-- `DYN_DOH_CNAME`. -/
def dynDohCname : Nat := 256

/-- `MAX_DNS_TTL`. -/
def maxDnsTtl : Nat := 86400

/-- `DNS_CLASS_IN`. -/
def dnsClassIn : Nat := 1

/-- `struct dohaddr`. -/
structure Dohaddr where
  type : Dnstype
  ip : Bytes
  deriving DecidableEq

/-- `struct dohentry`; the lists have the used parts of its arrays. -/
structure Dohentry where
  cname : List Dynbuf
  addr : List Dohaddr
  ttl : Nat
  httpsRrs : List Bytes
  deriving DecidableEq

/-- `de_init`. -/
def deInit : Dohentry := ⟨[], [], 2 ^ 31 - 1, []⟩

/-- The `n` bytes at an index. -/
def bytesAt (doh : Bytes) (index n : Nat) : Option Bytes :=
  if index + n ≤ doh.length then some ((doh.drop index).take n) else none

/-- The loop of `doh_skipqname`. -/
def skipqnameLoop (doh : Bytes) : Nat → Nat → Option (Dohcode × Nat)
  | 0, _ => none
  | fuel + 1, index =>
    if doh.length < index + 1 then some (.dnsOutOfRange, index)
    else do
      let length ← doh[index]?
      if length &&& 0xc0 = 0xc0 then
        if doh.length < index + 2 then some (.dnsOutOfRange, index) else some (.ok, index + 2)
      else if length &&& 0xc0 ≠ 0 then some (.dnsBadLabel, index)
      else if doh.length < index + 1 + length.toNat then some (.dnsOutOfRange, index)
      else
        let index := index + (1 + length.toNat)
        if length ≠ 0 then skipqnameLoop doh fuel index else some (.ok, index)

/-- `doh_skipqname`. -/
def skipqname (doh : Bytes) (index : Nat) : Option (Dohcode × Nat) :=
  skipqnameLoop doh (doh.length + 1) index

/-- `doh_get16bit`. -/
def get16bit (doh : Bytes) (index : Nat) : Option Nat := do
  let b0 ← doh[index]?
  let b1 ← doh[index + 1]?
  some (b0.toNat * 2 ^ 8 + b1.toNat)

/-- `doh_get32bit`. -/
def get32bit (doh : Bytes) (index : Nat) : Option Nat := do
  let b0 ← doh[index]?
  let b1 ← doh[index + 1]?
  let b2 ← doh[index + 2]?
  let b3 ← doh[index + 3]?
  some (b0.toNat * 2 ^ 24 + b1.toNat * 2 ^ 16 + b2.toNat * 2 ^ 8 + b3.toNat)

/-- `doh_store_a` and `doh_store_aaaa`: addresses over the limit are ignored. -/
def storeAddr (doh : Bytes) (index : Nat) (type : Dnstype) (size : Nat) (d : Dohentry) :
    Option Dohentry :=
  if d.addr.length < dohMaxAddr then do
    let ip ← bytesAt doh index size
    some { d with addr := d.addr ++ [⟨type, ip⟩] }
  else some d

/-- `doh_store_https`, with the memory it asks for. -/
def storeHttps (doh : Bytes) (index : Nat) (d : Dohentry) (len : Nat) : Option Dohentry :=
  if d.httpsRrs.length < dohMaxHttps then do
    let val ← bytesAt doh index len
    some { d with httpsRrs := d.httpsRrs ++ [val] }
  else some d

/-- The loop of `doh_store_cname` over the labels of a name, with its counter. -/
def storeCnameLoop (doh : Bytes) : Nat → Nat → Dynbuf → Option (Dynbuf × Dohcode)
  | 0, _, c => some (c, .dnsLabelLoop)
  | loop + 1, index, c =>
    if index ≥ doh.length then some (c, .dnsOutOfRange)
    else do
      let length ← doh[index]?
      if length &&& 0xc0 = 0xc0 then
        if index + 1 ≥ doh.length then some (c, .dnsOutOfRange)
        else do
          let low ← doh[index + 1]?
          -- the `continue` still counts the loop down
          storeCnameLoop doh loop ((length &&& 0x3f).toNat * 2 ^ 8 + low.toNat) c
      else if length &&& 0xc0 ≠ 0 then some (c, .dnsBadLabel)
      else if length = 0 then some (c, .ok)
      else
        match if c.content.length ≠ 0 then c.nappend [46] true else (c, .ok) with
        | (c, .ok) =>
          if index + 1 + length.toNat > doh.length then some (c, .dnsBadLabel)
          else do
            let label ← bytesAt doh (index + 1) length.toNat
            match c.nappend label true with
            | (c, .ok) => storeCnameLoop doh loop (index + 1 + length.toNat) c
            | (c, _) => some (c, .outOfMem)
        | (c, _) => some (c, .outOfMem)

/-- `doh_store_cname`. -/
def storeCname (doh : Bytes) (index : Nat) (d : Dohentry) : Option (Dohentry × Dohcode) :=
  if d.cname.length = dohMaxCname then some (d, .ok)
  else do
    let (c, rc) ← storeCnameLoop doh 128 index (.init dynDohCname)
    some ({ d with cname := d.cname ++ [c] }, rc)

/-- `doh_rdata`; `httpsrr` is `USE_HTTPSRR`. -/
def rdata (httpsrr : Bool) (doh : Bytes) (rdlength type index : Nat) (d : Dohentry) :
    Option (Dohentry × Dohcode) :=
  if type = Dnstype.a.toNat then
    if rdlength ≠ 4 then some (d, .dnsRdataLen)
    else do some (← storeAddr doh index .a 4 d, .ok)
  else if type = Dnstype.aaaa.toNat then
    if rdlength ≠ 16 then some (d, .dnsRdataLen)
    else do some (← storeAddr doh index .aaaa 16 d, .ok)
  else if httpsrr ∧ type = Dnstype.https.toNat then do
    some (← storeHttps doh index d rdlength, .ok)
  else if type = Dnstype.cname.toNat then storeCname doh index d
  else some (d, .ok)

/-- The questions. -/
def questionsLoop (doh : Bytes) : Nat → Nat → Option (Dohcode × Nat)
  | 0, index => some (.ok, index)
  | qdcount + 1, index => do
    match ← skipqname doh index with
    | (.ok, index) =>
      if doh.length < index + 4 then some (.dnsOutOfRange, index)
      else questionsLoop doh qdcount (index + 4)
    | (rc, index) => some (rc, index)

/-- An answer record, with the number of its type. -/
def answer (httpsrr : Bool) (doh : Bytes) (dnstype : Dnstype) (type index : Nat) (d : Dohentry) :
    Option (Dohentry × Dohcode × Nat × Nat) := do
  match ← skipqname doh index with
  | (.ok, index) =>
    if doh.length < index + 2 then some (d, .dnsOutOfRange, type, index)
    else do
      let type ← get16bit doh index
      if type ≠ Dnstype.cname.toNat ∧ type ≠ Dnstype.dname.toNat ∧ type ≠ dnstype.toNat then
        some (d, .dnsUnexpectedType, type, index)
      else
        let index := index + 2
        if doh.length < index + 2 then some (d, .dnsOutOfRange, type, index)
        else do
          let dnsclass ← get16bit doh index
          if dnsClassIn ≠ dnsclass then some (d, .dnsUnexpectedClass, type, index)
          else
            let index := index + 2
            if doh.length < index + 4 then some (d, .dnsOutOfRange, type, index)
            else do
              let ttl ← get32bit doh index
              let ttl := if ttl > maxDnsTtl then maxDnsTtl else ttl
              let d := if ttl < d.ttl then { d with ttl } else d
              let index := index + 4
              if doh.length < index + 2 then some (d, .dnsOutOfRange, type, index)
              else do
                let rdlength ← get16bit doh index
                let index := index + 2
                if doh.length < index + rdlength then some (d, .dnsOutOfRange, type, index)
                else do
                  let (d, rc) ← rdata httpsrr doh rdlength type index d
                  some (d, rc, type, index + rdlength)
  | (rc, index) => some (d, rc, type, index)

/-- The answer records, with the type of the last one. -/
def answersLoop (httpsrr : Bool) (doh : Bytes) (dnstype : Dnstype) :
    Nat → Nat → Nat → Dohentry → Option (Dohentry × Dohcode × Nat × Nat)
  | 0, type, index, d => some (d, .ok, type, index)
  | ancount + 1, type, index, d => do
    match ← answer httpsrr doh dnstype type index d with
    | (d, .ok, type, index) => answersLoop httpsrr doh dnstype ancount type index d
    | failure => some failure

/-- The records of the authority section, and the additional ones: they are skipped. -/
def recordsLoop (doh : Bytes) : Nat → Nat → Option (Dohcode × Nat)
  | 0, index => some (.ok, index)
  | count + 1, index => do
    match ← skipqname doh index with
    | (.ok, index) =>
      if doh.length < index + 8 then some (.dnsOutOfRange, index)
      else
        let index := index + (2 + 2 + 4)
        if doh.length < index + 2 then some (.dnsOutOfRange, index)
        else do
          let rdlength ← get16bit doh index
          let index := index + 2
          if doh.length < index + rdlength then some (.dnsOutOfRange, index)
          else recordsLoop doh count (index + rdlength)
    | (rc, index) => some (rc, index)

/-- Nothing was stored. -/
def nothingStored (httpsrr : Bool) (d : Dohentry) : Bool :=
  d.cname.isEmpty && d.addr.isEmpty && (!httpsrr || d.httpsRrs.isEmpty)

/-- `doh_resp_decode`. -/
def respDecode (httpsrr : Bool) (doh : Bytes) (dnstype : Dnstype) (d : Dohentry) :
    Option (Dohentry × Dohcode) :=
  if doh.length < 12 then some (d, .tooSmallBuffer)
  else do
    if (← doh[0]?) ≠ 0 ∨ (← doh[1]?) ≠ 0 then some (d, .dnsBadId)
    else
      let rcode := (← doh[3]?) &&& 0x0f
      if rcode = 3 then some (d, .dnsNxdomain)
      else if rcode ≠ 0 then some (d, .dnsBadRcode)
      else
        match ← questionsLoop doh (← get16bit doh 4) 12 with
        | (.ok, index) =>
          match ← answersLoop httpsrr doh dnstype (← get16bit doh 6) 0 index d with
          | (d, .ok, type, index) =>
            match ← recordsLoop doh (← get16bit doh 8) index with
            | (.ok, index) =>
              match ← recordsLoop doh (← get16bit doh 10) index with
              | (.ok, index) =>
                if index ≠ doh.length then some (d, .dnsMalformat)
                else if type ≠ Dnstype.ns.toNat ∧ nothingStored httpsrr d then some (d, .noContent)
                else some (d, .ok)
              | (rc, _) => some (d, rc)
            | (rc, _) => some (d, rc)
          | (d, rc, _, _) => some (d, rc)
        | (rc, _) => some (d, rc)

/-! DNS messages on the wire, and how the functions of `lib/doh.c` that walk over them read their
parts. -/

/-- A number of 16 bits in network byte order. -/
def be16 (n : Nat) : Bytes := [.ofNat (n / 2 ^ 8), .ofNat n]

/-- A number of 32 bits in network byte order. -/
def be32 (n : Nat) : Bytes :=
  [.ofNat (n / 2 ^ 24), .ofNat (n / 2 ^ 16), .ofNat (n / 2 ^ 8), .ofNat n]

/-- A name: labels, and the root or a pointer at the end. -/
inductive Name : Bytes → Prop
  | root : Name [0]
  | pointer (high low : UInt8) : high &&& 0xc0 = 0xc0 → Name [high, low]
  | label {label rest : Bytes} (length : UInt8) :
    length ≠ 0 → length &&& 0xc0 = 0 → label.length = length.toNat → Name rest →
    Name (length :: (label ++ rest))

/-- A question: a name with its type and class. -/
structure Question where
  name : Bytes
  typeClass : Bytes

def Question.encode (q : Question) : Bytes := q.name ++ q.typeClass

structure Question.WellFormed (q : Question) : Prop where
  name : Name q.name
  length : q.typeClass.length = 4

/-- A resource record. -/
structure Record where
  name : Bytes
  type : Nat
  dnsclass : Nat
  ttl : Nat
  rdata : Bytes

def Record.encode (r : Record) : Bytes :=
  r.name ++ (be16 r.type ++ (be16 r.dnsclass ++ (be32 r.ttl ++ (be16 r.rdata.length ++ r.rdata))))

structure Record.WellFormed (r : Record) : Prop where
  name : Name r.name
  type : r.type < 2 ^ 16
  dnsclass : r.dnsclass < 2 ^ 16
  ttl : r.ttl < 2 ^ 32
  rdata : r.rdata.length < 2 ^ 16

/-- A message that answers a query: its identity is 0, and `flags` are the two bytes behind it. -/
structure Message where
  flags : UInt8 × UInt8
  questions : List Question
  answers : List Record
  authority : List Record
  additional : List Record

def Message.encode (m : Message) : Bytes :=
  [0, 0, m.flags.1, m.flags.2] ++ (be16 m.questions.length ++ (be16 m.answers.length ++
    (be16 m.authority.length ++ (be16 m.additional.length ++ (m.questions.flatMap Question.encode ++
      (m.answers.flatMap Record.encode ++ (m.authority.flatMap Record.encode ++
        m.additional.flatMap Record.encode)))))))

structure Message.WellFormed (m : Message) : Prop where
  rcode : m.flags.2 &&& 0x0f = 0
  questions : ∀ q ∈ m.questions, q.WellFormed
  answers : ∀ r ∈ m.answers, r.WellFormed
  authority : ∀ r ∈ m.authority, r.WellFormed
  additional : ∀ r ∈ m.additional, r.WellFormed
  counts : m.questions.length < 2 ^ 16 ∧ m.answers.length < 2 ^ 16 ∧ m.authority.length < 2 ^ 16 ∧
    m.additional.length < 2 ^ 16

variable {doh : Bytes} {index : Nat}

theorem drop_byte (h : index < doh.length) :
    ∃ b, doh[index]? = some b ∧ doh.drop index = b :: doh.drop (index + 1) :=
  ⟨doh[index], List.getElem?_eq_getElem h, List.drop_eq_getElem_cons h⟩

theorem ofNat_add_mul (b : UInt8) (n : Nat) : UInt8.ofNat (n * 2 ^ 8 + b.toNat) = b := by
  apply UInt8.toNat_inj.mp
  have hb := b.toNat_lt
  rw [UInt8.toNat_ofNat']
  omega

theorem be16_bytes (b0 b1 : UInt8) : be16 (b0.toNat * 2 ^ 8 + b1.toNat) = [b0, b1] := by
  have h1 := b1.toNat_lt
  have hdiv : (b0.toNat * 2 ^ 8 + b1.toNat) / 2 ^ 8 = 0 * 2 ^ 8 + b0.toNat := by omega
  rw [be16, hdiv, ofNat_add_mul, ofNat_add_mul]

theorem get16bit_spec (h : index + 2 ≤ doh.length) :
    ∃ v, get16bit doh index = some v ∧ v < 2 ^ 16 ∧
      doh.drop index = be16 v ++ doh.drop (index + 2) := by
  obtain ⟨b0, hb0, hdrop0⟩ := drop_byte (show index < doh.length by omega)
  obtain ⟨b1, hb1, hdrop1⟩ := drop_byte (show index + 1 < doh.length by omega)
  have h0 := b0.toNat_lt
  have h1 := b1.toNat_lt
  refine ⟨b0.toNat * 2 ^ 8 + b1.toNat, ?_, by omega, ?_⟩
  · rw [get16bit, hb0, hb1]
    rfl
  · rw [be16_bytes, hdrop0, hdrop1]
    rfl

theorem be32_bytes (b0 b1 b2 b3 : UInt8) :
    be32 (b0.toNat * 2 ^ 24 + b1.toNat * 2 ^ 16 + b2.toNat * 2 ^ 8 + b3.toNat) =
      [b0, b1, b2, b3] := by
  have h1 := b1.toNat_lt
  have h2 := b2.toNat_lt
  have h3 := b3.toNat_lt
  have hv3 : b0.toNat * 2 ^ 24 + b1.toNat * 2 ^ 16 + b2.toNat * 2 ^ 8 + b3.toNat =
      (b0.toNat * 2 ^ 16 + b1.toNat * 2 ^ 8 + b2.toNat) * 2 ^ 8 + b3.toNat := by omega
  have hv2 : ((b0.toNat * 2 ^ 16 + b1.toNat * 2 ^ 8 + b2.toNat) * 2 ^ 8 + b3.toNat) / 2 ^ 8 =
      (b0.toNat * 2 ^ 8 + b1.toNat) * 2 ^ 8 + b2.toNat := by omega
  have hv1 : ((b0.toNat * 2 ^ 16 + b1.toNat * 2 ^ 8 + b2.toNat) * 2 ^ 8 + b3.toNat) / 2 ^ 16 =
      b0.toNat * 2 ^ 8 + b1.toNat := by omega
  have hv0 : ((b0.toNat * 2 ^ 16 + b1.toNat * 2 ^ 8 + b2.toNat) * 2 ^ 8 + b3.toNat) / 2 ^ 24 =
      0 * 2 ^ 8 + b0.toNat := by omega
  rw [be32, hv3, hv2, hv1, hv0, ofNat_add_mul, ofNat_add_mul, ofNat_add_mul, ofNat_add_mul]

theorem get32bit_spec (h : index + 4 ≤ doh.length) :
    ∃ v, get32bit doh index = some v ∧ v < 2 ^ 32 ∧
      doh.drop index = be32 v ++ doh.drop (index + 4) := by
  obtain ⟨b0, hb0, hdrop0⟩ := drop_byte (show index < doh.length by omega)
  obtain ⟨b1, hb1, hdrop1⟩ := drop_byte (show index + 1 < doh.length by omega)
  obtain ⟨b2, hb2, hdrop2⟩ := drop_byte (show index + 2 < doh.length by omega)
  obtain ⟨b3, hb3, hdrop3⟩ := drop_byte (show index + 3 < doh.length by omega)
  have h0 := b0.toNat_lt
  have h1 := b1.toNat_lt
  have h2 := b2.toNat_lt
  have h3 := b3.toNat_lt
  refine ⟨b0.toNat * 2 ^ 24 + b1.toNat * 2 ^ 16 + b2.toNat * 2 ^ 8 + b3.toNat, ?_, by omega, ?_⟩
  · rw [get32bit, hb0, hb1, hb2, hb3]
    rfl
  · rw [be32_bytes, hdrop0, hdrop1, hdrop2, hdrop3]
    rfl

theorem bytesAt_spec {n : Nat} (h : index + n ≤ doh.length) :
    ∃ bytes, bytesAt doh index n = some bytes ∧ bytes.length = n ∧
      doh.drop index = bytes ++ doh.drop (index + n) := by
  refine ⟨(doh.drop index).take n, if_pos h, ?_, ?_⟩
  · rw [List.length_take, List.length_drop]
    omega
  · rw [← List.drop_drop, List.take_append_drop]

theorem skipqnameLoop_spec {fuel : Nat} (hindex : index ≤ doh.length)
    (hfuel : doh.length - index < fuel) :
    ∃ rc index', skipqnameLoop doh fuel index = some (rc, index') ∧
      (rc = .ok → index' ≤ doh.length ∧
        ∃ name, Name name ∧ doh.drop index = name ++ doh.drop index') := by
  induction fuel generalizing index with
  | zero => omega
  | succ fuel ih =>
    rw [skipqnameLoop]
    by_cases hin : doh.length < index + 1
    · exact ⟨_, _, if_pos hin, fun heq => by cases heq⟩
    · obtain ⟨length, hlength, hdrop⟩ := drop_byte (show index < doh.length by omega)
      rw [if_neg hin, hlength]
      simp only [Option.bind_eq_bind, Option.bind_some]
      by_cases hpointer : length &&& 0xc0 = 0xc0
      · rw [if_pos hpointer]
        by_cases hlow : doh.length < index + 2
        · exact ⟨_, _, if_pos hlow, fun heq => by cases heq⟩
        · obtain ⟨low, -, hdrop'⟩ := drop_byte (show index + 1 < doh.length by omega)
          refine ⟨_, _, if_neg hlow, fun _ => ⟨by omega, [length, low], .pointer _ _ hpointer, ?_⟩⟩
          rw [hdrop, hdrop']
          rfl
      · rw [if_neg hpointer]
        by_cases hbits : length &&& 0xc0 = 0
        · rw [if_neg (not_not.mpr hbits)]
          by_cases hlabel : doh.length < index + 1 + length.toNat
          · exact ⟨_, _, if_pos hlabel, fun heq => by cases heq⟩
          · rw [if_neg hlabel]
            by_cases hzero : length = 0
            · refine ⟨_, _, if_neg (not_not.mpr hzero), fun _ => ⟨?_, [0], .root, ?_⟩⟩
              · rw [hzero]
                simp only [UInt8.toNat_zero]
                omega
              · rw [hdrop, hzero]
                rfl
            · obtain ⟨label, -, hlen, hrest⟩ :=
                bytesAt_spec (show index + 1 + length.toNat ≤ doh.length by omega)
              obtain ⟨rc, index', hloop, hok⟩ :=
                @ih (index + (1 + length.toNat)) (by omega) (by omega)
              refine ⟨rc, index', (if_pos hzero).trans hloop, fun heq => ?_⟩
              obtain ⟨hle, name, hname, hdrop'⟩ := hok heq
              refine ⟨hle, length :: (label ++ name), .label length hzero hbits hlen hname, ?_⟩
              rw [hdrop, hrest, Nat.add_assoc, hdrop', List.cons_append, List.append_assoc]
        · exact ⟨_, _, if_pos hbits, fun heq => by cases heq⟩

theorem skipqname_spec (hindex : index ≤ doh.length) :
    ∃ rc index', skipqname doh index = some (rc, index') ∧
      (rc = .ok → index' ≤ doh.length ∧
        ∃ name, Name name ∧ doh.drop index = name ++ doh.drop index') :=
  skipqnameLoop_spec hindex (by omega)

end Gurl.Doh
