import Gurl.Dynbuf
import Gurl.Lib.Feed

/-! `lib/telnet.c`: the options of a telnet connection (RFC 1143) and the answers to what the server
says about them. -/

namespace Gurl.Telnet

def SUBBUFSIZE : Nat := 512

def CURL_SE : UInt8 := 240
def CURL_NOP : UInt8 := 241
def CURL_DM : UInt8 := 242
def CURL_GA : UInt8 := 249
def CURL_SB : UInt8 := 250
def CURL_WILL : UInt8 := 251
def CURL_WONT : UInt8 := 252
def CURL_DO : UInt8 := 253
def CURL_DONT : UInt8 := 254
def CURL_IAC : UInt8 := 255

def CURL_TELOPT_BINARY : UInt8 := 0
def CURL_TELOPT_ECHO : UInt8 := 1
def CURL_TELOPT_SGA : UInt8 := 3
def CURL_TELOPT_TTYPE : UInt8 := 24
def CURL_TELOPT_NAWS : UInt8 := 31
def CURL_TELOPT_XDISPLOC : UInt8 := 35
def CURL_TELOPT_NEW_ENVIRON : UInt8 := 39

def CURL_TELQUAL_IS : UInt8 := 0
def CURL_NEW_ENV_VAR : UInt8 := 0
def CURL_NEW_ENV_VALUE : UInt8 := 1

/-- `CURL_NO`, `CURL_YES`, `CURL_WANTYES`, `CURL_WANTNO`. -/
inductive Answer where
  | no | yes | wantyes | wantno
  deriving DecidableEq

/-- `CURL_EMPTY`, `CURL_OPPOSITE`. -/
inductive Queue where
  | empty | opposite

inductive TelnetReceive where
  | tsData | tsIac | tsWill | tsWont | tsDo | tsDont | tsCr | tsSb | tsSe
  deriving DecidableEq

/-- What `CURLOPT_TELNETOPTIONS` has set. -/
structure Setup where
  suboptTtype : Option Bytes
  suboptXdisploc : Option Bytes
  suboptWsx : UInt16
  suboptWsy : UInt16
  telnetVars : List Bytes

/-- `struct TELNET`. `subbuffer` has the bytes in front of `subpointer`; `sent` is what has gone to
the server besides data. -/
structure TELNET where
  pleaseNegotiate : Bool
  us : UInt8 → Answer
  usq : UInt8 → Queue
  usPreferred : UInt8 → Answer
  him : UInt8 → Answer
  himq : UInt8 → Queue
  himPreferred : UInt8 → Answer
  subnegotiation : UInt8 → Answer
  setup : Setup
  telrcvState : TelnetReceive
  out : Dynbuf
  subbuffer : Bytes
  sent : Bytes

/-- What is outside: the socket (`swrite` is how many bytes it takes, none when it fails; `transmit`
is what the loop of `send_telnet_data` gets out and its result) and the client. -/
structure Host where
  swrite : Bytes → Bytes → Option Nat
  transmit : Bytes → Bytes → Bytes × Curlcode
  clientWrite : Bytes → Bytes → Option Curlcode

/-- `init_telnet`. -/
def initTelnet (setup : Setup) : TELNET where
  pleaseNegotiate := false
  us _ := .no
  usq _ := .empty
  usPreferred o := if o = CURL_TELOPT_SGA ∨ o = CURL_TELOPT_BINARY then .yes else .no
  him _ := .no
  himq _ := .empty
  himPreferred o :=
    if o = CURL_TELOPT_SGA ∨ o = CURL_TELOPT_BINARY ∨ o = CURL_TELOPT_ECHO then .yes else .no
  subnegotiation o := if o = CURL_TELOPT_NAWS then .yes else .no
  setup
  telrcvState := .tsData
  out := Dynbuf.init 0xffff
  subbuffer := []
  sent := []

/-- `swrite` to the server; `false` when it fails. -/
def swrite (host : Host) (sent bytes : Bytes) : Bytes × Bool :=
  match host.swrite sent bytes with
  | none => (sent, false)
  | some n => (sent ++ bytes.take n, true)

def sendNegotiation (host : Host) (tn : TELNET) (cmd option : UInt8) : TELNET :=
  { tn with sent := (swrite host tn.sent [CURL_IAC, cmd, option]).1 }

/-- `CURL_SB_ACCUM`. -/
def sbAccum (tn : TELNET) (c : UInt8) : TELNET :=
  if tn.subbuffer.length < SUBBUFSIZE then { tn with subbuffer := tn.subbuffer ++ [c] } else tn

/-- The loop of `send_telnet_data` that doubles the escapes. -/
def escapeLoop : Dynbuf → Bytes → Dynbuf × Curlcode
  | out, [] => (out, .ok)
  | out, c :: rest =>
    match out.nappend [c] true with
    | (out, .ok) =>
      if c = CURL_IAC then
        match out.nappend [0xff] true with
        | (out, .ok) => escapeLoop out rest
        | r => r
      else escapeLoop out rest
    | r => r

/-- `send_telnet_data` up to the loop that sends: the bytes for the server. -/
def escapeData (out : Dynbuf) (buffer : Bytes) : Dynbuf × Curlcode × Bytes :=
  if CURL_IAC ∈ buffer then
    match escapeLoop out.reset buffer with
    | (out, result) => (out, result, out.content)
  else (out, .ok, buffer)

def sendTelnetData (host : Host) (tn : TELNET) (buffer : Bytes) : TELNET × Curlcode :=
  match escapeData tn.out buffer with
  | (out, .ok, bytes) =>
    let (gone, result) := host.transmit tn.sent bytes
    ({ tn with out, sent := tn.sent ++ gone }, result)
  | (out, result, _) => ({ tn with out }, result)

def be16 (n : UInt16) : Bytes := [(n >>> 8).toUInt8, n.toUInt8]

def sendsuboption (host : Host) (tn : TELNET) (option : UInt8) : TELNET :=
  if option = CURL_TELOPT_NAWS then
    let sub := [CURL_IAC, CURL_SB, CURL_TELOPT_NAWS] ++ be16 tn.setup.suboptWsx ++
      be16 tn.setup.suboptWsy ++ [CURL_IAC, CURL_SE]
    let tn := { tn with subbuffer := [], sent := (swrite host tn.sent (sub.take 3)).1 }
    let tn := (sendTelnetData host tn ((sub.drop 3).take 4)).1
    { tn with sent := (swrite host tn.sent (sub.drop 7)).1 }
  else tn

def setAt {β : Type} (f : UInt8 → β) (o : UInt8) (b : β) : UInt8 → β :=
  fun o' => if o' = o then b else f o'

def recWill (host : Host) (tn : TELNET) (option : UInt8) : TELNET :=
  match tn.him option with
  | .no =>
    if tn.himPreferred option = .yes then
      sendNegotiation host { tn with him := setAt tn.him option .yes } CURL_DO option
    else sendNegotiation host tn CURL_DONT option
  | .yes => tn
  | .wantno =>
    match tn.himq option with
    | .empty => { tn with him := setAt tn.him option .no }
    | .opposite =>
      { tn with him := setAt tn.him option .yes, himq := setAt tn.himq option .empty }
  | .wantyes =>
    match tn.himq option with
    | .empty => { tn with him := setAt tn.him option .yes }
    | .opposite =>
      let tn := { tn with
        him := setAt tn.him option .wantno, himq := setAt tn.himq option .empty }
      sendNegotiation host tn CURL_DONT option

def recWont (host : Host) (tn : TELNET) (option : UInt8) : TELNET :=
  match tn.him option with
  | .no => tn
  | .yes => sendNegotiation host { tn with him := setAt tn.him option .no } CURL_DONT option
  | .wantno =>
    match tn.himq option with
    | .empty => { tn with him := setAt tn.him option .no }
    | .opposite =>
      let tn := { tn with
        him := setAt tn.him option .wantyes, himq := setAt tn.himq option .empty }
      sendNegotiation host tn CURL_DO option
  | .wantyes =>
    match tn.himq option with
    | .empty => { tn with him := setAt tn.him option .no }
    | .opposite => { tn with him := setAt tn.him option .no, himq := setAt tn.himq option .empty }

def recDo (host : Host) (tn : TELNET) (option : UInt8) : TELNET :=
  match tn.us option with
  | .no =>
    if tn.usPreferred option = .yes then
      let tn := { tn with us := setAt tn.us option .yes }
      let tn := sendNegotiation host tn CURL_WILL option
      if tn.subnegotiation option = .yes then sendsuboption host tn option else tn
    else if tn.subnegotiation option = .yes then
      let tn := { tn with us := setAt tn.us option .yes }
      let tn := sendNegotiation host tn CURL_WILL option
      sendsuboption host tn option
    else sendNegotiation host tn CURL_WONT option
  | .yes => tn
  | .wantno =>
    match tn.usq option with
    | .empty => { tn with us := setAt tn.us option .no }
    | .opposite => { tn with us := setAt tn.us option .yes, usq := setAt tn.usq option .empty }
  | .wantyes =>
    match tn.usq option with
    | .empty =>
      let tn := { tn with us := setAt tn.us option .yes }
      if tn.subnegotiation option = .yes then sendsuboption host tn option else tn
    | .opposite =>
      let tn := { tn with
        us := setAt tn.us option .wantno, usq := setAt tn.usq option .empty }
      sendNegotiation host tn CURL_WONT option

def recDont (host : Host) (tn : TELNET) (option : UInt8) : TELNET :=
  match tn.us option with
  | .no => tn
  | .yes => sendNegotiation host { tn with us := setAt tn.us option .no } CURL_WONT option
  | .wantno =>
    match tn.usq option with
    | .empty => { tn with us := setAt tn.us option .no }
    | .opposite =>
      let tn := { tn with
        us := setAt tn.us option .wantyes, usq := setAt tn.usq option .empty }
      sendNegotiation host tn CURL_WILL option
  | .wantyes =>
    match tn.usq option with
    | .empty => { tn with us := setAt tn.us option .no }
    | .opposite => { tn with us := setAt tn.us option .no, usq := setAt tn.usq option .empty }

/-- `bad_option`. -/
def badOption : Option Bytes → Bool
  | none => true
  | some data => data.contains CURL_IAC

/-- The value of an option as an answer to a request for it. -/
def suboptionValue (host : Host) (sent : Bytes) (option : UInt8)
    (value : Option Bytes) : Bytes × Option Curlcode :=
  if badOption value then (sent, some .badFunctionArgument)
  else if (value.getD []).length > 1000 then (sent, some .sendError)
  else
    match swrite host sent ([CURL_IAC, CURL_SB, option, CURL_TELQUAL_IS] ++ value.getD [] ++
      [CURL_IAC, CURL_SE]) with
    | (sent, true) => (sent, none)
    | (sent, false) => (sent, some .sendError)

/-- The loop over the environment variables: `temp` has 2048 bytes. -/
def environLoop : Bytes → List Bytes → Except Curlcode Bytes
  | temp, [] => .ok temp
  | temp, v :: rest =>
    if badOption (some v) then .error .badFunctionArgument
    else if temp.length + (v.length + 1) < 2048 - 6 then
      let name := v.takeWhile (· ≠ 0x2c)
      let item := if 0x2c ∈ v then name ++ CURL_NEW_ENV_VALUE :: v.drop (name.length + 1) else v
      environLoop (temp ++ CURL_NEW_ENV_VAR :: item) rest
    else environLoop temp rest

/-- `suboption`: what the server asks for in a suboption. -/
def suboption (host : Host) (setup : Setup) (sent : Bytes) :
    Bytes → Bytes × Option Curlcode
  | [] => (sent, none)
  | option :: _ =>
    if option = CURL_TELOPT_TTYPE then suboptionValue host sent option setup.suboptTtype
    else if option = CURL_TELOPT_XDISPLOC then suboptionValue host sent option setup.suboptXdisploc
    else if option = CURL_TELOPT_NEW_ENVIRON then
      match environLoop [CURL_IAC, CURL_SB, CURL_TELOPT_NEW_ENVIRON, CURL_TELQUAL_IS]
        setup.telnetVars with
      | .error e => (sent, some e)
      | .ok temp => ((swrite host sent (temp ++ [CURL_IAC, CURL_SE])).1, none)
    else (sent, none)

/-- The bytes for the server have every escape twice. -/
def doubled (x : Bytes) : Bytes :=
  x.flatMap fun c => if c = CURL_IAC then [CURL_IAC, CURL_IAC] else [c]

/-! `telrcv` of `lib/telnet.c`: the data of the server, without the commands in it. -/

open Skim (Mark)

/-- The end of a suboption: `IAC SE` goes into the buffer, and the bytes in front of it are looked
at. -/
def subEnd (host : Host) (tn : TELNET) : TELNET × Option Curlcode :=
  let tn := sbAccum (sbAccum tn CURL_IAC) CURL_SE
  let content := tn.subbuffer.take (tn.subbuffer.length - 2)
  match suboption host tn.setup tn.sent content with
  | (sent, some e) => ({ tn with sent, subbuffer := content.take 1 }, some e)
  | (sent, none) =>
    ({ tn with sent, subbuffer := content.take 1, telrcvState := .tsData }, none)

/-- The `switch` in the loop of `telrcv`: `writebyte` is `take`, `startskipping` is `skip`. -/
def telrcvByte (host : Host) (tn : TELNET) (c : UInt8) : TELNET × Mark × Option Curlcode :=
  match tn.telrcvState with
  | .tsCr =>
    if c = 0 then ({ tn with telrcvState := .tsData }, .skip, none)
    else ({ tn with telrcvState := .tsData }, .take, none)
  | .tsData =>
    if c = CURL_IAC then ({ tn with telrcvState := .tsIac }, .skip, none)
    else if c = 0x0d then ({ tn with telrcvState := .tsCr }, .take, none)
    else (tn, .take, none)
  | .tsIac =>
    if c = CURL_WILL then ({ tn with telrcvState := .tsWill }, .pass, none)
    else if c = CURL_WONT then ({ tn with telrcvState := .tsWont }, .pass, none)
    else if c = CURL_DO then ({ tn with telrcvState := .tsDo }, .pass, none)
    else if c = CURL_DONT then ({ tn with telrcvState := .tsDont }, .pass, none)
    else if c = CURL_SB then ({ tn with telrcvState := .tsSb, subbuffer := [] }, .pass, none)
    else if c = CURL_IAC then ({ tn with telrcvState := .tsData }, .take, none)
    else ({ tn with telrcvState := .tsData }, .pass, none)
  | .tsWill =>
    ({ recWill host { tn with pleaseNegotiate := true } c with telrcvState := .tsData },
      .pass, none)
  | .tsWont =>
    ({ recWont host { tn with pleaseNegotiate := true } c with telrcvState := .tsData },
      .pass, none)
  | .tsDo =>
    ({ recDo host { tn with pleaseNegotiate := true } c with telrcvState := .tsData }, .pass, none)
  | .tsDont =>
    ({ recDont host { tn with pleaseNegotiate := true } c with telrcvState := .tsData },
      .pass, none)
  | .tsSb =>
    if c = CURL_IAC then ({ tn with telrcvState := .tsSe }, .pass, none)
    else (sbAccum tn c, .pass, none)
  | .tsSe =>
    if c ≠ CURL_SE then
      if c ≠ CURL_IAC then (tn, .pass, some .recvError)
      else ({ sbAccum tn c with telrcvState := .tsSb }, .pass, none)
    else
      match subEnd host tn with
      | (tn, result) => (tn, .pass, result)

/-- `telrcv` for one buffer after the other, until one fails: the receiver, what the client has got,
and the error. -/
def telrcv (host : Host) (tn : TELNET) (written : Bytes) (inbufs : List Bytes) :
    TELNET × Bytes × Option Curlcode :=
  Skim.calls (telrcvByte host) host.clientWrite tn written inbufs

/-- The states in which a run of data can be open. -/
def TELNET.InData (tn : TELNET) : Prop := tn.telrcvState = .tsData ∨ tn.telrcvState = .tsCr

instance (tn : TELNET) : Decidable tn.InData := by
  unfold TELNET.InData
  infer_instance

section
variable {host : Host} {tn tn' : TELNET} {c : UInt8}

theorem take_inData (h : telrcvByte host tn c = (tn', .take, none)) : tn'.InData := by
  unfold telrcvByte at h
  split at h
  case h_1 =>
    split_ifs at h <;> simp only [Prod.mk.injEq, reduceCtorEq, and_true, and_false] at h
    exact .inl (h ▸ rfl)
  case h_2 hdata =>
    split_ifs at h <;> simp only [Prod.mk.injEq, reduceCtorEq, and_true, and_false] at h
    · exact .inr (h ▸ rfl)
    · exact .inl (h ▸ hdata)
  case h_3 =>
    split_ifs at h <;> simp only [Prod.mk.injEq, reduceCtorEq, and_true, and_false] at h
    exact .inl (h ▸ rfl)
  all_goals (try split_ifs at h) <;> cases h

theorem pass_not_inData (h : telrcvByte host tn c = (tn', .pass, none)) : ¬ tn.InData := by
  unfold telrcvByte at h
  rintro (hs | hs) <;> rw [hs] at h <;> dsimp only at h <;> split_ifs at h <;> cases h

theorem closed (host : Host) : Skim.Closed (telrcvByte host) TELNET.InData :=
  ⟨pass_not_inData, take_inData⟩

variable (host tn c) in
theorem sendsuboption_setup : (sendsuboption host tn c).setup = tn.setup := by
  have hdata (tn : TELNET) (buffer : Bytes) :
      (sendTelnetData host tn buffer).1.setup = tn.setup := by
    unfold sendTelnetData
    split <;> rfl
  unfold sendsuboption
  split_ifs
  · exact hdata _ _
  · rfl

variable (tn c) in
theorem sbAccum_setup : (sbAccum tn c).setup = tn.setup := by
  unfold sbAccum
  split_ifs <;> rfl

theorem subEnd_setup : (subEnd host tn).1.setup = tn.setup := by
  have haccum := (sbAccum_setup (sbAccum tn CURL_IAC) CURL_SE).trans (sbAccum_setup tn CURL_IAC)
  unfold subEnd
  dsimp only
  split <;> exact haccum

variable (host tn c) in
/-- The receiver does not touch what the options of the transfer have set. -/
theorem telrcvByte_setup : (telrcvByte host tn c).1.setup = tn.setup := by
  unfold telrcvByte
  split
  · split_ifs <;> rfl
  · split_ifs <;> rfl
  · split_ifs <;> rfl
  · show (recWill _ _ _).setup = _
    unfold recWill
    split <;> (try split) <;> rfl
  · show (recWont _ _ _).setup = _
    unfold recWont
    split <;> (try split) <;> rfl
  · show (recDo _ _ _).setup = _
    unfold recDo
    split
    · dsimp only
      split_ifs
      · exact sendsuboption_setup _ _ _
      · rfl
      · exact sendsuboption_setup _ _ _
      · rfl
    · rfl
    · split <;> rfl
    · split
      · dsimp only
        split_ifs
        · exact sendsuboption_setup _ _ _
        · rfl
      · rfl
  · show (recDont _ _ _).setup = _
    unfold recDont
    split <;> (try split) <;> rfl
  · split_ifs
    · rfl
    · exact sbAccum_setup _ _
  · split_ifs
    · rfl
    · exact sbAccum_setup _ _
    · exact subEnd_setup

end

/-- What the receiver makes of some bytes: the data among them and the state behind them. -/
def Reads (host : Host) (tn : TELNET) (bytes : Bytes) (state : TelnetReceive)
    (data : Bytes) : Prop :=
  ∃ tn', Feed.feed (Skim.plain (telrcvByte host)) tn bytes = ⟨tn', data, none, []⟩ ∧
    tn'.telrcvState = state ∧ tn'.setup = tn.setup

section
variable {host : Host} {tn tn' : TELNET} {c : UInt8} {bytes more data data' : Bytes}
  {state state' : TelnetReceive}

theorem reads_nil (h : tn.telrcvState = state) : Reads host tn [] state [] := ⟨tn, rfl, h, rfl⟩

theorem Reads.cons {tn tn' : TELNET} {mark : Mark} (h : telrcvByte host tn c = (tn', mark, none))
    (hrest : Reads host tn' bytes state data) :
    Reads host tn (c :: bytes) state ((if mark = .take then [c] else []) ++ data) := by
  obtain ⟨last, hfeed, hstate, hsetup⟩ := hrest
  have hplain : Skim.plain (telrcvByte host) tn c =
      (tn', if mark = .take then [c] else [], none) := by
    rw [Skim.plain, h]
  have hkeep := telrcvByte_setup host tn c
  rw [h] at hkeep
  refine ⟨last, ?_, hstate, hsetup.trans hkeep⟩
  rw [Feed.feed_cons_ok hplain, hfeed]

theorem Reads.append (h : Reads host tn bytes state data)
    (hmore : ∀ tn', tn'.telrcvState = state → tn'.setup = tn.setup →
      Reads host tn' more state' data') :
    Reads host tn (bytes ++ more) state' (data ++ data') := by
  obtain ⟨mid, hfeed, hstate, hsetup⟩ := h
  obtain ⟨last, hfeed', hstate', hsetup'⟩ := hmore mid hstate hsetup
  refine ⟨last, ?_, hstate', hsetup'.trans hsetup⟩
  rw [Feed.feed_append (by rw [hfeed]), hfeed]
  show { Feed.feed (Skim.plain (telrcvByte host)) mid more with
    out := data ++ (Feed.feed (Skim.plain (telrcvByte host)) mid more).out } = _
  rw [hfeed']

/-- However the bytes are cut into buffers, the client gets the data among them. -/
theorem Reads.telrcv (hclient : ∀ w r, host.clientWrite w r = none) {written : Bytes}
    {inbufs : List Bytes} (h : Reads host tn inbufs.flatten state data) :
    ∃ tn', telrcv host tn written inbufs = (tn', written ++ data, none) ∧
      tn'.telrcvState = state := by
  obtain ⟨tn', hfeed, hstate, _⟩ := h
  exact ⟨tn', Skim.calls_spec (closed host) hclient hfeed, hstate⟩

end

end Gurl.Telnet
