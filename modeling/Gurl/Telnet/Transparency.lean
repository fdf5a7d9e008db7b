import Gurl.Telnet.Telrcv

/-! A stream of data with commands in it, and what the client gets of it. -/

namespace Gurl.Telnet

open Skim (Mark)

/-- The complete commands. -/
inductive Command where
  | nop | dm | ga
  | will (option : UInt8) | wont (option : UInt8) | doOption (option : UInt8) | dont
    (option : UInt8)
  | sub (body : Bytes)

def Command.bytes : Command → Bytes
  | nop => [CURL_IAC, CURL_NOP]
  | dm => [CURL_IAC, CURL_DM]
  | ga => [CURL_IAC, CURL_GA]
  | will o => [CURL_IAC, CURL_WILL, o]
  | wont o => [CURL_IAC, CURL_WONT, o]
  | doOption o => [CURL_IAC, CURL_DO, o]
  | dont o => [CURL_IAC, CURL_DONT, o]
  | sub body => [CURL_IAC, CURL_SB] ++ doubled body ++ [CURL_IAC, CURL_SE]

/-- A suboption fits the buffer with `IAC SE` behind it, and can be answered. -/
def Command.Ok (host : Host) (setup : Setup) : Command → Prop
  | sub body => body.length + 2 ≤ SUBBUFSIZE ∧
    ∀ sent, (suboption host setup sent body).2 = none
  | _ => True

/-- A byte of the data, or a command between two of them. -/
inductive Item where
  | byte (c : UInt8)
  | command (command : Command)

def Item.bytes : Item → Bytes
  | byte c => doubled [c]
  | command c => c.bytes

def Item.data : Item → Bytes
  | byte c => [c]
  | command _ => []

/-- The stream for some items. -/
def encode (items : List Item) : Bytes := items.flatMap Item.bytes

/-- The data without the commands. -/
def contents (items : List Item) : Bytes := items.flatMap Item.data

/-- Is the byte that comes next read as one behind a CR? `cr` is whether the first is. -/
def behindCr : Bool → List Item → Bool
  | cr, [] => cr
  | cr, .byte c :: rest => behindCr (!cr && c == 0x0d) rest
  | cr, .command _ :: rest => behindCr cr rest

/-- No IAC, of an escape or of a command, is read as the byte behind a CR. -/
def NoIacBehindCr : Bool → List Item → Prop
  | _, [] => True
  | cr, .byte c :: rest => ¬ (cr ∧ c = CURL_IAC) ∧ NoIacBehindCr (!cr && c == 0x0d) rest
  | cr, .command _ :: rest => ¬ cr ∧ NoIacBehindCr cr rest

/-- From `tn`, the client gets the data and the receiver is in its data state, or behind a CR. -/
def Transparent (host : Host) (tn : TELNET) (inbufs : List Bytes) (x : Bytes) : Prop :=
  (telrcv host tn [] inbufs).2 = (x, none) ∧ (telrcv host tn [] inbufs).1.InData

section
variable {host : Host} {tn : TELNET} {c : UInt8} {body : Bytes} {items : List Item}
  {state : TelnetReceive}

theorem sbAccum_spec (tn : TELNET) (c : UInt8) (h : tn.subbuffer.length < SUBBUFSIZE) :
    sbAccum tn c = { tn with subbuffer := tn.subbuffer ++ [c] } := if_pos h

theorem subEnd_spec (tn : TELNET) (hfits : tn.subbuffer.length + 2 ≤ SUBBUFSIZE)
    (hok : ∀ sent, (suboption host tn.setup sent tn.subbuffer).2 = none) :
    (subEnd host tn).2 = none ∧ (subEnd host tn).1.telrcvState = .tsData := by
  have haccum : sbAccum (sbAccum tn CURL_IAC) CURL_SE =
      { tn with subbuffer := tn.subbuffer ++ [CURL_IAC] ++ [CURL_SE] } := by
    rw [sbAccum_spec tn CURL_IAC (by omega)]
    apply sbAccum_spec
    simp only [List.length_append, List.length_singleton]
    omega
  have hcontent : (tn.subbuffer ++ [CURL_IAC] ++ [CURL_SE]).take
      ((tn.subbuffer ++ [CURL_IAC] ++ [CURL_SE]).length - 2) = tn.subbuffer := by
    simp
  have hnone := hok tn.sent
  rw [subEnd, haccum]
  simp only [hcontent]
  rcases heq : suboption host tn.setup tn.sent tn.subbuffer with ⟨sent, result⟩
  rw [heq] at hnone
  cases hnone
  exact ⟨rfl, rfl⟩

/-- The body of a suboption and its end, behind a part of the body that is in the buffer already. -/
theorem reads_sub (tn : TELNET) (h : tn.telrcvState = .tsSb)
    (hfits : tn.subbuffer.length + body.length + 2 ≤ SUBBUFSIZE)
    (hok : ∀ sent, (suboption host tn.setup sent (tn.subbuffer ++ body)).2 = none) :
    Reads host tn (doubled body ++ [CURL_IAC, CURL_SE]) .tsData [] := by
  have hiac (tn : TELNET) (h : tn.telrcvState = .tsSb) :
      telrcvByte host tn CURL_IAC = ({ tn with telrcvState := .tsSe }, .pass, none) := by
    rw [telrcvByte, h]
    rfl
  induction body generalizing tn with
  | nil =>
    rw [List.append_nil] at hok
    obtain ⟨hresult, hstate⟩ := subEnd_spec { tn with telrcvState := .tsSe } hfits hok
    have hend : telrcvByte host { tn with telrcvState := .tsSe } CURL_SE =
        ((subEnd host { tn with telrcvState := .tsSe }).1, .pass, none) := by
      rw [← hresult]
      rfl
    exact (reads_nil hstate).cons hend |>.cons (hiac tn h)
  | cons c body ih =>
    rw [List.length_cons] at hfits
    have hroom : tn.subbuffer.length < SUBBUFSIZE := by omega
    have hrest : Reads host { tn with telrcvState := .tsSb, subbuffer := tn.subbuffer ++ [c] }
        (doubled body ++ [CURL_IAC, CURL_SE]) .tsData [] := by
      apply ih { tn with telrcvState := .tsSb, subbuffer := tn.subbuffer ++ [c] } rfl
      · simp only [List.length_append, List.length_singleton]
        omega
      · simpa using hok
    by_cases hc : c = CURL_IAC
    · subst hc
      have hsecond : telrcvByte host { tn with telrcvState := .tsSe } CURL_IAC =
          ({ tn with telrcvState := .tsSb, subbuffer := tn.subbuffer ++ [CURL_IAC] },
            .pass, none) := by
        have haccum := sbAccum_spec { tn with telrcvState := .tsSe } CURL_IAC hroom
        show ({ sbAccum { tn with telrcvState := .tsSe } CURL_IAC with telrcvState := .tsSb },
          Mark.pass, none) = _
        rw [haccum]
      exact (hrest.cons hsecond).cons (hiac tn h)
    · have hfirst : telrcvByte host tn c =
          ({ tn with telrcvState := .tsSb, subbuffer := tn.subbuffer ++ [c] }, .pass, none) := by
        rw [telrcvByte, h]
        simp only [if_neg hc, sbAccum_spec tn c hroom, h]
      rw [doubled, List.flatMap_cons, if_neg hc]
      exact hrest.cons hfirst

theorem reads_iac (h : tn.telrcvState = .tsData) {bytes data : Bytes}
    (hrest : ∀ tn', tn'.telrcvState = .tsIac → tn'.setup = tn.setup →
      Reads host tn' bytes state data) :
    Reads host tn (CURL_IAC :: bytes) state data := by
  have hfirst : telrcvByte host tn CURL_IAC = ({ tn with telrcvState := .tsIac }, .skip, none) := by
    rw [telrcvByte, h]
    rfl
  exact (hrest { tn with telrcvState := .tsIac } rfl rfl).cons hfirst

/-- The option behind one of the four words. -/
theorem reads_option (h : tn.telrcvState = .tsWill ∨ tn.telrcvState = .tsWont ∨
    tn.telrcvState = .tsDo ∨ tn.telrcvState = .tsDont) (o : UInt8) :
    Reads host tn [o] .tsData [] := by
  have hstep : ∃ tn', telrcvByte host tn o = (tn', .pass, none) ∧ tn'.telrcvState = .tsData := by
    unfold telrcvByte
    obtain h | h | h | h := h <;> rw [h] <;> exact ⟨_, rfl, rfl⟩
  obtain ⟨tn', hstep, hstate⟩ := hstep
  exact Reads.cons hstep (reads_nil hstate)

/-- A command leaves no data. -/
theorem reads_command {command : Command} (h : tn.telrcvState = .tsData)
    (hok : command.Ok host tn.setup) : Reads host tn command.bytes .tsData [] := by
  have hplain {c : UInt8} (hc : c = CURL_NOP ∨ c = CURL_DM ∨ c = CURL_GA) (tn' : TELNET)
      (hiac : tn'.telrcvState = .tsIac) : Reads host tn' [c] .tsData [] := by
    have hstep : telrcvByte host tn' c = ({ tn' with telrcvState := .tsData }, .pass, none) := by
      rw [telrcvByte, hiac]
      obtain rfl | rfl | rfl := hc <;> rfl
    exact Reads.cons hstep (reads_nil rfl)
  have hoption {c o : UInt8}
      (hc : c = CURL_WILL ∨ c = CURL_WONT ∨ c = CURL_DO ∨ c = CURL_DONT) (tn' : TELNET)
      (hiac : tn'.telrcvState = .tsIac) : Reads host tn' [c, o] .tsData [] := by
    have hstep : ∃ tn'', telrcvByte host tn' c = (tn'', .pass, none) ∧
        (tn''.telrcvState = .tsWill ∨ tn''.telrcvState = .tsWont ∨ tn''.telrcvState = .tsDo ∨
          tn''.telrcvState = .tsDont) := by
      rw [telrcvByte, hiac]
      obtain rfl | rfl | rfl | rfl := hc
      · exact ⟨_, rfl, .inl rfl⟩
      · exact ⟨_, rfl, .inr (.inl rfl)⟩
      · exact ⟨_, rfl, .inr (.inr (.inl rfl))⟩
      · exact ⟨_, rfl, .inr (.inr (.inr rfl))⟩
    obtain ⟨tn'', hstep, hstate⟩ := hstep
    exact Reads.cons hstep (reads_option hstate o)
  cases command with
  | nop => exact reads_iac h fun tn' hiac _ => hplain (.inl rfl) tn' hiac
  | dm => exact reads_iac h fun tn' hiac _ => hplain (.inr (.inl rfl)) tn' hiac
  | ga => exact reads_iac h fun tn' hiac _ => hplain (.inr (.inr rfl)) tn' hiac
  | will o => exact reads_iac h fun tn' hiac _ => hoption (.inl rfl) tn' hiac
  | wont o => exact reads_iac h fun tn' hiac _ => hoption (.inr (.inl rfl)) tn' hiac
  | doOption o => exact reads_iac h fun tn' hiac _ => hoption (.inr (.inr (.inl rfl))) tn' hiac
  | dont o => exact reads_iac h fun tn' hiac _ => hoption (.inr (.inr (.inr rfl))) tn' hiac
  | sub body =>
    refine reads_iac h fun tn' hiac hsetup => ?_
    have hstep : telrcvByte host tn' CURL_SB =
        ({ tn' with telrcvState := .tsSb, subbuffer := [] }, .pass, none) := by
      rw [telrcvByte, hiac]
      rfl
    refine Reads.cons hstep (reads_sub _ rfl ?_ ?_)
    · rw [List.length_nil, Nat.zero_add]
      exact hok.1
    · intro sent
      rw [List.nil_append,
        show ({ tn' with telrcvState := .tsSb, subbuffer := [] } : TELNET).setup =
        tn.setup from hsetup]
      exact hok.2 sent

theorem doubled_singleton (hc : c ≠ CURL_IAC) : doubled [c] = [c] := by
  rw [doubled, List.flatMap_cons, if_neg hc]
  rfl

/-- A byte of the data, read in the data state. -/
theorem reads_byte (h : tn.telrcvState = .tsData) :
    Reads host tn (doubled [c]) (if c = 0x0d then .tsCr else .tsData) [c] := by
  by_cases hc : c = CURL_IAC
  · subst hc
    refine reads_iac h fun tn' hiac _ => ?_
    have hstep : telrcvByte host tn' CURL_IAC =
        ({ tn' with telrcvState := .tsData }, .take, none) := by
      rw [telrcvByte, hiac]
      rfl
    exact Reads.cons hstep (reads_nil rfl)
  · rw [doubled_singleton hc]
    by_cases hcr : c = 0x0d
    · have hstep : telrcvByte host tn c = ({ tn with telrcvState := .tsCr }, .take, none) := by
        rw [telrcvByte, h]
        simp only [if_neg hc, if_pos hcr]
      rw [if_pos hcr]
      exact Reads.cons hstep (reads_nil rfl)
    · have hstep : telrcvByte host tn c = (tn, .take, none) := by
        rw [telrcvByte, h]
        simp only [if_neg hc, if_neg hcr]
      rw [if_neg hcr]
      exact (reads_nil h).cons hstep

/-- A byte behind a CR is data, unless it is a zero. -/
theorem take_behind_cr (h : tn.telrcvState = .tsCr) (hc : c ≠ 0) :
    telrcvByte host tn c = ({ tn with telrcvState := .tsData }, .take, none) := by
  rw [telrcvByte, h]
  simp only [if_neg hc]

theorem reads_items {cr : Bool} (h : tn.telrcvState = if cr then .tsCr else .tsData)
    (hok : ∀ command, Item.command command ∈ items → command.Ok host tn.setup)
    (hfirst : cr → (contents items).head? ≠ some 0)
    (hzero : ¬ [0x0d, 0] <:+: contents items) (hiac : NoIacBehindCr cr items) :
    Reads host tn (encode items) (if behindCr cr items then .tsCr else .tsData)
      (contents items) := by
  induction items generalizing tn cr with
  | nil => exact reads_nil h
  | cons item rest ih =>
    have hok' (command : Command) (hmem : .command command ∈ rest) : command.Ok host tn.setup :=
      hok command (List.mem_cons_of_mem _ hmem)
    cases item with
    | command command =>
      obtain ⟨hcr, hrest⟩ := hiac
      obtain rfl : cr = false := by simpa using hcr
      have hread := reads_command h (hok command List.mem_cons_self)
      refine hread.append fun tn' hstate hsetup => ?_
      exact ih hstate (by rw [hsetup]; exact hok') nofun hzero hrest
    | byte c =>
      obtain ⟨hnot, hrest⟩ := hiac
      have hzero' : ¬ [0x0d, 0] <:+: contents rest := fun hin =>
        hzero (hin.trans (List.suffix_cons c _).isInfix)
      have hnext : (!cr && c == 0x0d) = true → (contents rest).head? ≠ some 0 := by
        intro hc hhead
        rw [Bool.and_eq_true, beq_iff_eq] at hc
        obtain ⟨more, hmore⟩ := List.head?_eq_some_iff.mp hhead
        refine hzero ⟨[], more, ?_⟩
        show _ = c :: contents rest
        rw [hmore, hc.2]
        rfl
      have hread : Reads host tn (doubled [c])
          (if !cr && c == 0x0d then .tsCr else .tsData) [c] := by
        cases cr with
        | false => simpa using reads_byte h
        | true =>
          have hc : c ≠ CURL_IAC := fun hc => hnot ⟨rfl, hc⟩
          have hc0 : c ≠ 0 := fun hc => hfirst rfl (by rw [hc]; rfl)
          rw [doubled_singleton hc]
          exact (reads_nil rfl).cons (take_behind_cr h hc0)
      refine hread.append fun tn' hstate hsetup => ?_
      exact ih hstate (by rw [hsetup]; exact hok') hnext hzero' hrest

theorem noIac_part {cr : Bool} {part : List Item} (h : NoIacBehindCr cr items)
    (hpart : part <+: items) : NoIacBehindCr cr part := by
  induction part generalizing cr items with
  | nil => trivial
  | cons item part ih =>
    obtain ⟨rest, rfl⟩ := hpart
    cases item with
    | byte c => exact ⟨h.1, ih h.2 ⟨rest, rfl⟩⟩
    | command command => exact ⟨h.1, ih h.2 ⟨rest, rfl⟩⟩

/-- The first item whose IAC is read as the byte behind a CR. -/
theorem exists_iac_behind_cr {cr : Bool} (h : ¬ NoIacBehindCr cr items) :
    ∃ pre item post rest, items = pre ++ item :: post ∧ NoIacBehindCr cr pre ∧
      behindCr cr pre = true ∧ item.bytes = CURL_IAC :: rest ∧
      (item = .byte CURL_IAC ∨ ∃ command, item = .command command) := by
  induction items generalizing cr with
  | nil => exact absurd trivial h
  | cons item items ih =>
    cases item with
    | byte c =>
      by_cases hnot : cr = true ∧ c = CURL_IAC
      · obtain ⟨rfl, rfl⟩ := hnot
        exact ⟨[], _, items, [CURL_IAC], rfl, trivial, rfl, rfl, .inl rfl⟩
      · obtain ⟨pre, item, post, rest, rfl, hpre, hcr, hbytes, hitem⟩ :=
          ih fun hrest => h ⟨hnot, hrest⟩
        exact ⟨.byte c :: pre, item, post, rest, rfl, ⟨hnot, hpre⟩, hcr, hbytes, hitem⟩
    | command command =>
      by_cases hnot : cr = true
      · subst hnot
        have hbytes : ∃ rest, command.bytes = CURL_IAC :: rest := by
          cases command <;> exact ⟨_, rfl⟩
        obtain ⟨rest, hbytes⟩ := hbytes
        exact ⟨[], _, items, rest, rfl, trivial, rfl, hbytes, .inr ⟨command, rfl⟩⟩
      · obtain ⟨pre, item, post, rest, rfl, hpre, hcr, hbytes, hitem⟩ :=
          ih fun hrest => h ⟨hnot, hrest⟩
        exact ⟨.command command :: pre, item, post, rest, rfl, ⟨hnot, hpre⟩, hcr, hbytes, hitem⟩

/-- What the client gets of one buffer is what the receiver puts out. -/
theorem Transparent.feed (hclient : ∀ w r, host.clientWrite w r = none) {bytes x : Bytes}
    (h : Transparent host tn [bytes] x) :
    (Feed.feed (Skim.plain (telrcvByte host)) tn bytes).out = x ∧
      (Feed.feed (Skim.plain (telrcvByte host)) tn bytes).state.InData := by
  obtain ⟨hwritten, hdata⟩ := h
  unfold telrcv at hwritten hdata
  cases herror : (Feed.feed (Skim.plain (telrcvByte host)) tn bytes).error with
  | some e =>
    have hcall : (Skim.call (telrcvByte host) host.clientWrite tn [] bytes).2 = some e :=
      Skim.call_error (closed host) hclient herror
    rw [Skim.calls] at hwritten
    rcases hres : Skim.call (telrcvByte host) host.clientWrite tn [] bytes with ⟨l, result⟩
    rw [hres] at hcall hwritten
    obtain rfl : result = some e := hcall
    cases (Prod.mk.injEq _ _ _ _ ▸ hwritten).2
  | none =>
    have hfeed : Feed.feed (Skim.plain (telrcvByte host)) tn [bytes].flatten =
        ⟨(Feed.feed (Skim.plain (telrcvByte host)) tn bytes).state,
          (Feed.feed (Skim.plain (telrcvByte host)) tn bytes).out, none, []⟩ := by
      rw [List.flatten_singleton, ← herror, ← Feed.feed_rest herror]
    rw [Skim.calls_spec (closed host) hclient hfeed] at hwritten hdata
    exact ⟨(Prod.mk.injEq _ _ _ _ ▸ hwritten).1, hdata⟩

/-- An item whose IAC is read behind a CR: the client gets more than the data, or the receiver is
left in the middle of a command. -/
theorem not_transparent {item : Item} {rest : Bytes}
    (hclient : ∀ w r, host.clientWrite w r = none)
    (hread : Reads host tn (encode items) .tsCr (contents items))
    (hbytes : item.bytes = CURL_IAC :: rest)
    (hitem : item = .byte CURL_IAC ∨ ∃ command, item = .command command) :
    ¬ Transparent host tn [encode (items ++ [item])] (contents (items ++ [item])) := by
  intro h
  obtain ⟨hout, hdata⟩ := h.feed hclient
  obtain ⟨mid, hfeed, hstate, _⟩ := hread
  have hencode : encode (items ++ [item]) = encode items ++ CURL_IAC :: rest := by
    simp [encode, hbytes]
  have hstep : Skim.plain (telrcvByte host) mid CURL_IAC =
      ({ mid with telrcvState := .tsData }, [CURL_IAC], none) := by
    rw [Skim.plain, take_behind_cr hstate (by decide)]
    rfl
  rw [hencode, Feed.feed_append (by rw [hfeed]), hfeed, Feed.feed_cons_ok hstep] at hout hdata
  obtain rfl | ⟨command, rfl⟩ := hitem
  · obtain rfl : rest = [CURL_IAC] := (List.cons.inj hbytes).2.symm
    cases hdata <;> rename_i hin <;> cases hin
  · have hlen := congrArg List.length hout
    simp only [contents, List.flatMap_append, List.flatMap_singleton, Item.data,
      List.length_append, List.length_cons, List.length_nil] at hlen
    omega

end

/-- At every part of a stream, and however it is cut into buffers, the client has the data of that
part: this holds if and only if no IAC is read as the byte behind a CR. -/
theorem telrcv_transparent_iff (host : Host) (tn : TELNET) (items : List Item)
    (hstate : tn.telrcvState = .tsData) (hclient : ∀ w r, host.clientWrite w r = none)
    (hok : ∀ command, Item.command command ∈ items → command.Ok host tn.setup)
    (hzero : ¬ [0x0d, 0] <:+: contents items) :
    (∀ part, part <+: items → ∀ inbufs, inbufs.flatten = encode part →
      Transparent host tn inbufs (contents part)) ↔ NoIacBehindCr false items := by
  have hread {part : List Item} (hpart : part <+: items) (hiac : NoIacBehindCr false part) :
      Reads host tn (encode part) (if behindCr false part then .tsCr else .tsData)
        (contents part) := by
    apply reads_items hstate
    · exact fun command hmem => hok command (hpart.subset hmem)
    · nofun
    · obtain ⟨rest, rfl⟩ := hpart
      intro hin
      rw [contents, List.flatMap_append] at hzero
      exact hzero (hin.trans (List.prefix_append _ _).isInfix)
    · exact hiac
  constructor
  · intro h
    by_contra hnot
    obtain ⟨pre, item, post, rest, rfl, hpre, hcr, hbytes, hitem⟩ := exists_iac_behind_cr hnot
    have hreadpre := hread (List.prefix_append pre _) hpre
    rw [if_pos hcr] at hreadpre
    refine not_transparent hclient hreadpre hbytes hitem (h _ ?_ _ List.flatten_singleton)
    exact ⟨post, by rw [List.append_assoc]; rfl⟩
  · intro hiac part hpart inbufs hflat
    have hreadpart := hread hpart (noIac_part hiac hpart)
    rw [← hflat] at hreadpart
    obtain ⟨tn', htelrcv, hlast⟩ := hreadpart.telrcv hclient
    rw [Transparent, htelrcv]
    refine ⟨rfl, ?_⟩
    show tn'.telrcvState = .tsData ∨ tn'.telrcvState = .tsCr
    rw [hlast]
    split
    · exact .inr rfl
    · exact .inl rfl

/-- A server that takes everything, and a client that does. -/
def plainHost : Host where
  swrite _ bytes := some bytes.length
  transmit _ bytes := (bytes, .ok)
  clientWrite _ _ := none

def plainSetup : Setup := ⟨none, none, 0, 0, []⟩

def sampleItems : List Item :=
  [.byte 0x61, .command (.will 3), .byte 0xff, .byte 0x0d, .byte 0x0d, .command .nop,
    .command (.sub [0x63, 0xff]), .byte 0x62]

theorem telrcv_transparent_sample :
    Transparent plainHost (initTelnet plainSetup) [encode sampleItems] (contents sampleItems) :=
  (telrcv_transparent_iff plainHost (initTelnet plainSetup) sampleItems rfl (fun _ _ => rfl)
    (fun command hmem => by
      simp only [sampleItems, List.mem_cons, Item.command.injEq, reduceCtorEq, List.not_mem_nil,
        or_false, false_or] at hmem
      obtain rfl | rfl | rfl := hmem
      · trivial
      · trivial
      · exact ⟨by decide, fun _ => rfl⟩)
    (by decide)).mpr (by simp [sampleItems, NoIacBehindCr, CURL_IAC]) sampleItems
    (List.prefix_refl _) _ List.flatten_singleton

/-- The data `CR FF a`, with the `FF` doubled: the client gets `CR FF`. -/
theorem telrcv_loses_escape :
    ¬ Transparent plainHost (initTelnet plainSetup)
      [encode [.byte 0x0d, .byte 0xff, .byte 0x61]]
      (contents [.byte 0x0d, .byte 0xff, .byte 0x61]) := by
  unfold Transparent
  decide +kernel

end Gurl.Telnet
