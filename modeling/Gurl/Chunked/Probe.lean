import Gurl.Lib.Blocks
import Gurl.Easy

/-! The policy of `src/tool_chunked.c`: how a download of a known size is split into byte ranges.
`curl_off_t` is a signed 64-bit type. The values here are never negative, so they are natural
numbers, and a computation that leaves the type has no result, as C gives it no meaning. -/

namespace Gurl.Chunked

/-- A value of type `curl_off_t`, if it is one. -/
def offT (x : Nat) : Option Nat := if x ≤ curlOffTMax then some x else none

/-- The cast of a count to `unsigned int`. -/
def toUInt (x : Nat) : Nat := x % 2 ^ 32

def chunkStreams : Nat := 8
def chunkThreshold : Nat := 1 <<< 30
def chunkMin : Nat := 64 <<< 20
def chunkMax : Nat := 1 <<< 30
def chunkTarget : Nat := chunkStreams * 8
def chunkQueueMax : Nat := 256 <<< 20
def chunkProbe : Nat := 64 <<< 20

/-- `chunk_size_for`: about `chunkTarget` pieces, clamped to `[chunkMin, chunkMax]`. -/
def chunkSizeFor (total : Nat) : Nat :=
  let c := total / chunkTarget
  if c < chunkMin then chunkMin else if c > chunkMax then chunkMax else c

/-- What `chunk_download` computes before it starts. -/
structure Plan where
  base : Nat
  total : Nat
  chunkSize : Nat
  /-- The count of chunks as a `curl_off_t`. -/
  count : Nat
  /-- The count as it is stored, in an `unsigned int`. -/
  n : Nat
  nworkers : Nat
  deriving DecidableEq

/-- The head of `chunk_download(per, total, base)`. -/
def chunkPlan (base total : Nat) : Option Plan := do
  let region := total - base
  let chunkSize := chunkSizeFor region
  let sum ← offT (region + chunkSize)
  let count := (sum - 1) / chunkSize
  let n := toUInt count
  some { base, total, chunkSize, count, n
         nworkers := if n < chunkStreams then n else chunkStreams }

/-- The first and the last offset of chunk `idx`, as `chunk_fetch_one` asks for them. -/
def chunkRange (base chunkSize total idx : Nat) : Option (Nat × Nat) := do
  let skip ← offT (idx * chunkSize)
  let start ← offT (base + skip)
  let sum ← offT (start + chunkSize)
  let stop := sum - 1
  some (start, if stop ≥ total then total - 1 else stop)

theorem offT_eq_some {x y : Nat} : offT x = some y ↔ x ≤ curlOffTMax ∧ x = y := by
  unfold offT
  split <;> simp_all

theorem offT_of_le {x : Nat} (h : x ≤ curlOffTMax) : offT x = some x :=
  offT_eq_some.mpr ⟨h, rfl⟩

theorem chunkSizeFor_bounds (total : Nat) :
    chunkMin ≤ chunkSizeFor total ∧ chunkSizeFor total ≤ chunkMax := by
  have hle : chunkMin ≤ chunkMax := by decide
  unfold chunkSizeFor
  dsimp only
  split
  · exact ⟨Nat.le_refl _, hle⟩
  · split <;> omega

theorem chunkSizeFor_pos (total : Nat) : 0 < chunkSizeFor total :=
  Nat.lt_of_lt_of_le (by decide) (chunkSizeFor_bounds total).1

theorem chunkSizeFor_large {total : Nat} (h : chunkMax * chunkTarget ≤ total) :
    chunkSizeFor total = chunkMax := by
  have hdiv : chunkMax ≤ total / chunkTarget := (Nat.le_div_iff_mul_le (by decide)).mpr h
  have hle : chunkMin ≤ chunkMax := by decide
  unfold chunkSizeFor
  dsimp only
  split
  · omega
  · split <;> omega

/-- The plan of a download, when it exists. -/
theorem chunkPlan_eq_some {base total : Nat} {plan : Plan} :
    chunkPlan base total = some plan ↔
      total - base + chunkSizeFor (total - base) ≤ curlOffTMax ∧
      plan = { base, total
               chunkSize := chunkSizeFor (total - base)
               count := Blocks.count (chunkSizeFor (total - base)) (total - base)
               n := toUInt (Blocks.count (chunkSizeFor (total - base)) (total - base))
               nworkers := min
                 (toUInt (Blocks.count (chunkSizeFor (total - base)) (total - base)))
                 chunkStreams } := by
  have hmin : ∀ a b : Nat, (if a < b then a else b) = min a b := by
    intro a b
    split <;> omega
  unfold chunkPlan
  simp only [Option.bind_eq_bind, Option.bind_eq_some_iff, offT_eq_some, hmin]
  constructor
  · rintro ⟨_, ⟨hle, rfl⟩, h⟩
    exact ⟨hle, (Option.some.inj h).symm⟩
  · rintro ⟨hle, rfl⟩
    exact ⟨_, ⟨hle, rfl⟩, rfl⟩

/-- A range of `chunk_fetch_one` that starts before `total` is a block of `[base, total)`. -/
theorem chunkRange_eq {base chunkSize total idx start stop : Nat} (hpos : 0 < chunkSize)
    (htotal : base + idx * chunkSize < total)
    (h : chunkRange base chunkSize total idx = some (start, stop)) :
    start = Blocks.lo base chunkSize idx ∧ stop + 1 = Blocks.hi base chunkSize total idx := by
  unfold chunkRange at h
  simp only [Option.bind_eq_bind, Option.bind_eq_some_iff, offT_eq_some, Option.some.injEq,
    Prod.mk.injEq] at h
  obtain ⟨_, ⟨_, rfl⟩, _, ⟨_, rfl⟩, _, ⟨_, rfl⟩, rfl, rfl⟩ := h
  have hexpand := Nat.add_mul idx 1 chunkSize
  refine ⟨rfl, ?_⟩
  unfold Blocks.hi
  split <;> omega

theorem chunkRange_eq_some (base chunkSize total idx : Nat)
    (h : base + (idx + 1) * chunkSize ≤ curlOffTMax) :
    ∃ start stop, chunkRange base chunkSize total idx = some (start, stop) := by
  have hexpand := Nat.add_mul idx 1 chunkSize
  unfold chunkRange
  rw [offT_of_le (by omega)]
  simp only [Option.bind_eq_bind, Option.bind_some]
  rw [offT_of_le (by omega)]
  simp only [Option.bind_some]
  rw [offT_of_le (by omega)]
  exact ⟨_, _, rfl⟩

/-! ### The whole split -/

/-- The arithmetic of a chunked download of `[base, total)` stays inside its types, the stored
count is the count of chunks and not zero, and the ranges asked for are non-empty, pairwise
disjoint, and cover `[base, total)`. -/
def SplitsExactly (base total : Nat) : Prop :=
  ∃ plan, chunkPlan base total = some plan ∧ plan.n = plan.count ∧ 1 ≤ plan.n ∧
    (∀ i < plan.n, ∃ start stop, chunkRange base plan.chunkSize total i = some (start, stop) ∧
      start = Blocks.lo base plan.chunkSize i ∧
      stop + 1 = Blocks.hi base plan.chunkSize total i ∧ start ≤ stop) ∧
    (∀ i < plan.n, ∀ j < plan.n, i ≠ j →
      Disjoint (Set.Ico (Blocks.lo base plan.chunkSize i) (Blocks.hi base plan.chunkSize total i))
        (Set.Ico (Blocks.lo base plan.chunkSize j) (Blocks.hi base plan.chunkSize total j))) ∧
    ⋃ i ∈ Finset.range plan.n,
      Set.Ico (Blocks.lo base plan.chunkSize i) (Blocks.hi base plan.chunkSize total i) =
        Set.Ico base total

/-- The largest file whose chunks, after the probe segment, an `unsigned int` can count. -/
def splitLimit : Nat := chunkProbe + (2 ^ 32 - 1) * chunkMax

theorem chunk_lt_region {base total : Nat} {i : Nat}
    (hi : i < Blocks.count (chunkSizeFor (total - base)) (total - base)) :
    i * chunkSizeFor (total - base) < total - base :=
  (Blocks.lt_count_iff (chunkSizeFor_pos _)).mp hi

/-- A split whose count fits in an `unsigned int`, and whose last chunk ends inside `curl_off_t`
before it is capped, is exact. -/
theorem splitsExactly_of_fits {base total : Nat} (hbase : base < total)
    (hcount : Blocks.count (chunkSizeFor (total - base)) (total - base) < 2 ^ 32)
    (hend : total + chunkMax ≤ curlOffTMax) : SplitsExactly base total := by
  have hpos := chunkSizeFor_pos (total - base)
  have hmax := (chunkSizeFor_bounds (total - base)).2
  have hn : toUInt (Blocks.count (chunkSizeFor (total - base)) (total - base)) =
      Blocks.count (chunkSizeFor (total - base)) (total - base) := Nat.mod_eq_of_lt hcount
  refine ⟨_, chunkPlan_eq_some.mpr ⟨by omega, rfl⟩, hn, ?_, ?_, ?_, ?_⟩
  · show 1 ≤ toUInt _
    rw [hn]
    exact (Blocks.lt_count_iff hpos).mpr (by omega)
  · intro i hi
    replace hi := chunk_lt_region (hn ▸ hi)
    have hexpand := Nat.add_mul i 1 (chunkSizeFor (total - base))
    obtain ⟨start, stop, h⟩ := chunkRange_eq_some base (chunkSizeFor (total - base)) total i
      (by omega)
    obtain ⟨hstart, hstop⟩ := chunkRange_eq hpos (by omega) h
    have := Blocks.lo_lt_hi hpos hi
    exact ⟨start, stop, h, hstart, hstop, by omega⟩
  · intro i _ j _ hij
    exact Blocks.disjoint hij
  · refine Blocks.iUnion_Ico hpos ?_
    show total - base ≤ toUInt _ * chunkSizeFor (total - base)
    rw [hn]
    exact Blocks.le_count_mul hpos _

/-- Past `splitLimit` the count is cast to a smaller number. -/
theorem n_ne_count_of_large {base total : Nat} {plan : Plan}
    (h : chunkPlan base total = some plan) (hlarge : (2 ^ 32 - 1) * chunkMax < total - base) :
    plan.n ≠ plan.count := by
  obtain ⟨_, rfl⟩ := chunkPlan_eq_some.mp h
  have hsize : chunkSizeFor (total - base) = chunkMax :=
    chunkSizeFor_large (Nat.le_of_lt (Nat.lt_of_le_of_lt (by decide) hlarge))
  have hcount : 2 ^ 32 - 1 < Blocks.count (chunkSizeFor (total - base)) (total - base) :=
    (Blocks.lt_count_iff (chunkSizeFor_pos _)).mpr (by rw [hsize]; exact hlarge)
  have hlt : toUInt (Blocks.count (chunkSizeFor (total - base)) (total - base)) < 2 ^ 32 :=
    Nat.mod_lt _ (by decide)
  exact fun heq : toUInt _ = Blocks.count _ _ => by omega

/-- Up to `splitLimit` the count is representable. -/
theorem count_lt_of_le {total : Nat} (hle : total ≤ splitLimit) :
    Blocks.count (chunkSizeFor (total - chunkProbe)) (total - chunkProbe) < 2 ^ 32 := by
  have hmin := (chunkSizeFor_bounds (total - chunkProbe)).1
  simp only [splitLimit] at hle
  by_cases hlarge : chunkMax * chunkTarget ≤ total - chunkProbe
  · rw [chunkSizeFor_large hlarge]
    exact Nat.lt_of_le_of_lt (Blocks.count_le (k := 2 ^ 32 - 1) (by decide) (by omega)) (by decide)
  · refine Nat.lt_of_le_of_lt (Blocks.count_le (k := 1024) (chunkSizeFor_pos _) ?_) (by decide)
    have := Nat.mul_le_mul_left 1024 hmin
    simp only [chunkProbe, chunkMax, chunkTarget, chunkMin, chunkStreams] at *
    omega

/-- A download of an admitted size is split exactly if and only if its size is at most
`splitLimit`. -/
theorem splitsExactly_iff {total : Nat} (hlow : chunkThreshold < total)
    (hhigh : total ≤ curlOffTMax) : SplitsExactly chunkProbe total ↔ total ≤ splitLimit := by
  simp only [chunkThreshold] at hlow
  simp only [curlOffTMax] at hhigh
  constructor
  · rintro ⟨plan, hplan, hn, -⟩
    by_contra hlarge
    refine n_ne_count_of_large hplan ?_ hn
    simp only [splitLimit, chunkProbe, chunkMax] at hlarge ⊢
    omega
  · intro hle
    refine splitsExactly_of_fits (by simp only [chunkProbe]; omega) ?_ ?_
    · exact count_lt_of_le hle
    · simp only [splitLimit, chunkProbe, chunkMax] at hle
      simp only [chunkMax, curlOffTMax]
      omega

theorem splitsExactly_two_gib : SplitsExactly chunkProbe (2 ^ 31) :=
  (splitsExactly_iff (by decide) (by decide)).mpr (by decide)

/-- A server that announces `2^62 + 2^26` bytes makes the stored count zero. -/
theorem not_splitsExactly_of_wrapped_count :
    chunkThreshold < 2 ^ 62 + 2 ^ 26 ∧ 2 ^ 62 + 2 ^ 26 ≤ curlOffTMax ∧
      (chunkPlan chunkProbe (2 ^ 62 + 2 ^ 26)).map Plan.n = some 0 ∧
      ¬ SplitsExactly chunkProbe (2 ^ 62 + 2 ^ 26) := by
  refine ⟨by decide, by decide, by decide, ?_⟩
  rintro ⟨plan, hplan, -, hone, -⟩
  have hzero : (chunkPlan chunkProbe (2 ^ 62 + 2 ^ 26)).map Plan.n = some 0 := by decide
  rw [hplan, Option.map_some, Option.some.injEq] at hzero
  omega

/-! The size probe of `src/tool_chunked.c` on the handle of one transfer: how the tool's
configuration sets up the handle (`src/config2setopts.c`), which transfers are probed
(`src/tool_operate.c`), what the probe leaves behind, and the request that `serial_transfers`
makes after a probe that turns the chunked download down. -/

/-- `HttpReq` of `src/tool_sdecls.h`. -/
inductive ToolHttpreq where
  | unspec | get | head | mimepost | simplepost | put
  deriving DecidableEq

/-- The fields of `struct GlobalConfig` that the probe's path reads. -/
structure GlobalConfig where
  noprogress : Bool
  silent : Bool
  legacyIo : Bool
  /-- `progressmode == CURL_PROGRESS_BAR`. -/
  progressBar : Bool

/-- The fields of `struct OperationConfig` that the probe's path reads. -/
structure OperationConfig where
  httpreq : ToolHttpreq
  postdata : Bytes
  customrequest : Option String
  noBody : Bool
  showHeaders : Bool
  resumeFrom : Int
  resumeFromCurrent : Bool
  useResume : Bool
  range : Option String

/-- The fields of `struct per_transfer` that the probe's path reads. -/
structure PerTransfer where
  config : OperationConfig
  curl : Easy
  uploadfile : Option String
  outfile : Option String
  /-- `outs.out_null`. -/
  outNull : Bool
  chunkWatch : Bool
  chunkAcceptRanges : Bool

/-! ### The handle of a configuration -/

/-- A C `bool` as the `long` argument of an option. -/
def toLong (b : Bool) : Int := if b then 1 else 0

/-- `setopt_post`. `mime` is the result of building the MIME structure of a form. -/
def setoptPost (config : OperationConfig) (mime : Curlcode) (curl : Easy) : Except Curlcode Easy :=
  match config.httpreq with
  | .simplepost =>
    if config.resumeFrom ≠ 0 then .error .failedInit
    else .ok (curl.setoptPostfields config.postdata)
  | .mimepost =>
    if config.resumeFrom ≠ 0 then .error .failedInit
    else if (curl.setoptMimepost mime).2 ≠ .ok then .error mime
    else .ok (curl.setoptMimepost mime).1
  | _ => .ok curl

/-- `transfer_setopts`, in its order, for the options that touch the request. -/
def transferSetopts (config : OperationConfig) (uploadfile : Option String) (mime : Curlcode)
    (curl : Easy) : Except Curlcode Easy := do
  let curl := curl.setoptLongBool .nobody (toLong config.noBody)
  let curl := curl.setoptLongBool .upload (toLong uploadfile.isSome)
  let curl ← setoptPost config mime curl
  .ok (curl.setoptCustomrequest config.customrequest)

/-- `gen_cb_setopts`, which may turn the progress callback on for an upload from stdin. -/
def genCbSetopts (g : GlobalConfig) (uploadfile : Option String) (curl : Easy) : Easy :=
  if g.progressBar && !g.noprogress && !g.silent then curl
  else if uploadfile = some "." then curl.setoptLongBool .noprogress 0
  else curl

/-- `config2setopts` on a fresh handle. -/
def config2setopts (g : GlobalConfig) (config : OperationConfig) (uploadfile : Option String)
    (mime : Curlcode) : Except Curlcode Easy :=
  let curl := Easy.init.setoptLongBool .noprogress (toLong (g.noprogress || g.silent))
  transferSetopts config uploadfile mime (genCbSetopts g uploadfile curl)

/-- `create_single`: a transfer with the handle of its configuration. -/
def createSingle (g : GlobalConfig) (config : OperationConfig)
    (uploadfile outfile : Option String) (outNull : Bool) (mime : Curlcode) :
    Except Curlcode PerTransfer := do
  let curl ← config2setopts g config uploadfile mime
  .ok
    { config, curl, uploadfile, outfile, outNull, chunkWatch := false, chunkAcceptRanges := false }

/-! ### The probe -/

/-- `chunk_eligible`. -/
def chunkEligible (g : GlobalConfig) (per : PerTransfer) : Bool :=
  if g.legacyIo then false
  else if per.uploadfile.isSome then false
  else if per.outfile = none ∨ per.outfile = some "-" then false
  else if per.outNull then false
  else if per.config.showHeaders || per.config.noBody then false
  else if per.config.resumeFrom ≠ 0 ∨ per.config.resumeFromCurrent ∨ per.config.useResume then
    false
  else if per.config.range.isSome then false
  else true

/-- `curl_strequal`. -/
def strequal (a b : String) : Bool := a.toList.map Char.toUpper = b.toList.map Char.toUpper

/-- What the probe request on the handle ends with. -/
structure ProbeReply where
  res : Curlcode
  /-- `CURLINFO_CONTENT_LENGTH_DOWNLOAD_T`. -/
  clen : Int
  /-- `CURLINFO_RESPONSE_CODE`. -/
  code : Int
  /-- `CURLINFO_SCHEME`. -/
  scheme : Option String
  /-- The header callback saw `Accept-Ranges: bytes` on a 2xx response. -/
  acceptRanges : Bool

/-- `tool_chunk_probe`: the transfer as the probe leaves it, and the size when it returns `TRUE`.
A transfer writes none of the handle's fields here. -/
def toolChunkProbe (g : GlobalConfig) (reply : ProbeReply) (per : PerTransfer) :
    PerTransfer × Option Int :=
  let per := { per with chunkAcceptRanges := false, chunkWatch := true }
  let curl := per.curl.setoptLongBool .nobody 1
  let curl := curl.setoptLongBool .noprogress 1
  -- `curl_easy_perform` runs here, with the header callback armed
  let per := { per with chunkAcceptRanges := reply.acceptRanges, chunkWatch := false }
  let curl := curl.setoptLongBool .nobody 0
  let curl := curl.setoptLongBool .httpget 1
  let curl := curl.setoptLongBool .noprogress (toLong (g.noprogress || g.silent))
  let per := { per with curl }
  let is := fun name => reply.scheme.any (strequal · name)
  if reply.res ≠ .ok then (per, none)
  else if reply.clen ≤ chunkThreshold then (per, none)
  else if is "HTTP" || is "HTTPS" then
    if !per.chunkAcceptRanges || reply.code.tdiv 100 ≠ 2 then (per, none)
    else (per, some reply.clen)
  else if !(is "FTP" || is "FTPS" || is "NFS") then (per, none)
  else (per, some reply.clen)

/-- The handle on which `serial_transfers` calls `curl_easy_perform`, unless it starts a chunked
download. -/
def serialPerform (g : GlobalConfig) (reply : ProbeReply) (per : PerTransfer) : Option Easy :=
  if chunkEligible g per then
    match toolChunkProbe g reply per with
    | (_, some _) => none
    | (per, none) => some per.curl
  else some per.curl

/-! ### What the probe keeps -/

/-- The probe leaves a plain `GET` behind, whatever it found. -/
theorem toolChunkProbe_curl (g : GlobalConfig) (reply : ProbeReply) (per : PerTransfer) :
    (toolChunkProbe g reply per).1.curl =
      { per.curl with method := .get, optNoBody := false, hide := g.noprogress || g.silent } := by
  have hcurl : ∀ b : Bool, (((((per.curl.setoptLongBool .nobody 1).setoptLongBool .noprogress
      1).setoptLongBool .nobody 0).setoptLongBool .httpget 1).setoptLongBool .noprogress
      (toLong b)) = { per.curl with method := .get, optNoBody := false, hide := b } := by
    intro b
    cases b <;> simp [Easy.setoptLongBool, toLong]
  unfold toolChunkProbe
  simp only [hcurl]
  repeat' split
  all_goals rfl

theorem genCbSetopts_download (g : GlobalConfig) (curl : Easy) :
    genCbSetopts g none curl = curl := by
  simp [genCbSetopts]

theorem chunkEligible_eq_true {g : GlobalConfig} {per : PerTransfer}
    (h : chunkEligible g per = true) :
    g.legacyIo = false ∧ per.uploadfile = none ∧ per.config.noBody = false ∧
      per.config.resumeFrom = 0 := by
  unfold chunkEligible at h
  repeat' split at h
  all_goals simp_all

/-- The method that a configuration of a download without `--head` and `--continue-at` puts on its
handle. -/
def configMethod : ToolHttpreq → HttpReq
  | .simplepost => .post
  | .mimepost => .postMime
  | _ => .get

/-- The handle of an eligible transfer. -/
theorem createSingle_eligible {g : GlobalConfig} {config : OperationConfig}
    {uploadfile outfile : Option String} {outNull : Bool} {mime : Curlcode} {per : PerTransfer}
    (hper : createSingle g config uploadfile outfile outNull mime = .ok per)
    (heligible : chunkEligible g per = true) :
    per.curl.method = configMethod config.httpreq ∧ per.curl.optNoBody = false ∧
      per.curl.hide = (g.noprogress || g.silent) := by
  unfold createSingle at hper
  cases hcurl : config2setopts g config uploadfile mime with
  | error e => simp [hcurl, bind, Except.bind] at hper
  | ok curl =>
    simp only [hcurl, bind, Except.bind, Except.ok.injEq] at hper
    subst hper
    obtain ⟨-, hupload, hbody, hresume⟩ := chunkEligible_eq_true heligible
    simp only at hupload hbody hresume
    subst hupload
    have hstart : (Easy.init.setoptLongBool .noprogress
        (toLong (g.noprogress || g.silent))).hide = (g.noprogress || g.silent) := by
      cases g.noprogress || g.silent <;> rfl
    simp only [config2setopts, genCbSetopts_download, transferSetopts, hbody] at hcurl
    cases hreq : config.httpreq <;>
      simp only [setoptPost, hreq, hresume, ne_eq, not_true_eq_false, ↓reduceIte, bind,
        Except.bind, Except.ok.injEq] at hcurl
    case mimepost =>
      by_cases hmime : mime = .ok
      · simp only [Easy.setoptMimepost, hmime, ↓reduceIte, not_true_eq_false,
          Except.ok.injEq] at hcurl
        subst hcurl
        exact ⟨rfl, rfl, hstart⟩
      · simp [Easy.setoptMimepost, hmime] at hcurl
    all_goals
      subst hcurl
      exact ⟨rfl, rfl, hstart⟩

/-- After every probe that returns `FALSE`, the fields of the handle that decide the request are
as they were, and the request that follows is the one `--legacy-io` makes. -/
def RequestKept (g : GlobalConfig) (per : PerTransfer) : Prop :=
  ∀ reply, (toolChunkProbe g reply per).2 = none →
    ((toolChunkProbe g reply per).1.curl.method = per.curl.method ∧
      (toolChunkProbe g reply per).1.curl.optNoBody = per.curl.optNoBody ∧
      (toolChunkProbe g reply per).1.curl.hide = per.curl.hide) ∧
    serialPerform g reply per = serialPerform { g with legacyIo := true } reply per

theorem serialPerform_legacyIo (g : GlobalConfig) (reply : ProbeReply) (per : PerTransfer) :
    serialPerform { g with legacyIo := true } reply per = some per.curl := by
  simp [serialPerform, chunkEligible]

theorem serialPerform_of_probe {g : GlobalConfig} {reply : ProbeReply} {per : PerTransfer}
    (heligible : chunkEligible g per = true) (h : (toolChunkProbe g reply per).2 = none) :
    serialPerform g reply per = some (toolChunkProbe g reply per).1.curl := by
  unfold serialPerform
  rw [if_pos heligible]
  generalize toolChunkProbe g reply per = p at *
  obtain ⟨per', size⟩ := p
  simp only at h
  subst h
  rfl

/-- A probe that fails. -/
def failedProbe : ProbeReply :=
  { res := .couldntConnect, clen := -1, code := 0, scheme := none, acceptRanges := false }

theorem toolChunkProbe_failedProbe (g : GlobalConfig) (per : PerTransfer) :
    (toolChunkProbe g failedProbe per).2 = none := by
  simp [toolChunkProbe, failedProbe]

/-- The probe keeps the request of an eligible transfer if and only if the configuration asks for
neither `--data` nor `--form`. -/
theorem requestKept_iff {g : GlobalConfig} {config : OperationConfig}
    {uploadfile outfile : Option String} {outNull : Bool} {mime : Curlcode} {per : PerTransfer}
    (hper : createSingle g config uploadfile outfile outNull mime = .ok per)
    (heligible : chunkEligible g per = true) :
    RequestKept g per ↔ config.httpreq ≠ .simplepost ∧ config.httpreq ≠ .mimepost := by
  obtain ⟨hmethod, hbody, hhide⟩ := createSingle_eligible hper heligible
  constructor
  · intro hkept
    have hget : HttpReq.get = per.curl.method := by
      have := (hkept failedProbe (toolChunkProbe_failedProbe g per)).1.1
      rwa [toolChunkProbe_curl] at this
    rw [hmethod] at hget
    constructor <;> intro hreq <;> simp [hreq, configMethod] at hget
  · rintro ⟨hpost, hmime⟩ reply hprobe
    have hget : per.curl.method = .get := by
      rw [hmethod]
      cases hreq : config.httpreq <;> simp_all [configMethod]
    have hcurl : (toolChunkProbe g reply per).1.curl = per.curl := by
      rw [toolChunkProbe_curl, ← hget, ← hbody, ← hhide]
    refine ⟨by rw [hcurl]; exact ⟨rfl, rfl, rfl⟩, ?_⟩
    rw [serialPerform_of_probe heligible hprobe, serialPerform_legacyIo, hcurl]

/-- `gurl -o file URL`. -/
def plainConfig : OperationConfig :=
  { httpreq := .unspec, postdata := [], customrequest := none, noBody := false,
    showHeaders := false, resumeFrom := 0, resumeFromCurrent := false, useResume := false,
    range := none }

/-- No option of the command line touches the global configuration. -/
def plainGlobal : GlobalConfig :=
  { noprogress := false, silent := false, legacyIo := false, progressBar := false }

theorem requestKept_plainConfig : ∃ per,
    createSingle plainGlobal plainConfig none (some "file") false .ok = .ok per ∧
      chunkEligible plainGlobal per = true ∧ RequestKept plainGlobal per := by
  refine ⟨_, rfl, by decide, ?_⟩
  have hper : createSingle plainGlobal plainConfig none (some "file") false .ok = .ok _ := rfl
  exact (requestKept_iff hper (by decide)).mpr ⟨by decide, by decide⟩

/-- `gurl -d x=1 -o file URL` sends a `HEAD`, which fails, and then a `GET` in place of the
`POST`. -/
theorem post_not_kept : ∃ per,
    createSingle plainGlobal { plainConfig with httpreq := .simplepost, postdata := [120, 61, 49] }
        none (some "file") false .ok = .ok per ∧
      chunkEligible plainGlobal per = true ∧
      (toolChunkProbe plainGlobal failedProbe per).2 = none ∧ per.curl.method = .post ∧
      (serialPerform plainGlobal failedProbe per).map Easy.method = some .get ∧
      (serialPerform { plainGlobal with legacyIo := true } failedProbe per).map Easy.method =
        some .post ∧
      ¬ RequestKept plainGlobal per := by
  refine ⟨_, rfl, by decide, by decide, rfl, by decide, by decide, ?_⟩
  intro hkept
  have := (hkept failedProbe (by decide)).1.1
  revert this
  decide

end Gurl.Chunked
