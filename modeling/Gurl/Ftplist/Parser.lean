import Gurl.Parsedate
import Gurl.Urlglob.Urlglob

/-! The parser of FTP LIST output, `lib/ftplistparser.c`. Memory is always granted. -/

namespace Gurl.Ftplist

open Strparse Strcase

inductive OsType | unknown | unix | winNt
  deriving DecidableEq

/-- The substates of an item that has blanks before it. -/
inductive Item | prespace | content
  deriving DecidableEq

inductive TotalSize | init | reading
  deriving DecidableEq

inductive Time | prepart1 | part1 | prepart2 | part2 | prepart3 | part3
  deriving DecidableEq

inductive Filename | prespace | name | windowseol
  deriving DecidableEq

inductive Symlink
  | prespace | name | pretarget1 | pretarget2 | pretarget3 | pretarget4 | target | windowseol
  deriving DecidableEq

/-- `pl_unix_mainstate` with its substate. -/
inductive Unix
  | totalsize (sub : TotalSize) | filetype | permission | hlinks (sub : Item) | user (sub : Item)
  | group (sub : Item) | size (sub : Item) | time (sub : Time) | filename (sub : Filename)
  | symlink (sub : Symlink)
  deriving DecidableEq

/-- `pl_winNT_mainstate` with its substate. -/
inductive WinNt
  | date | time (sub : Item) | dirorsize (sub : Item) | filename (sub : Filename)
  deriving DecidableEq

inductive Filetype
  | file | directory | symlink | deviceBlock | deviceChar | namedpipe | socket | door
  deriving DecidableEq

/-- The fields of `struct curl_fileinfo` that are no strings, with the flags for those that are
known. -/
structure Finfo where
  filetype : Filetype := .file
  perm : Nat := 0
  hardlinks : Nat := 0
  size : Nat := 0
  knownPerm : Bool := false
  knownHlinkcount : Bool := false
  knownSize : Bool := false
  deriving DecidableEq

structure Offsets where
  filename : Nat := 0
  user : Nat := 0
  group : Nat := 0
  time : Nat := 0
  perm : Nat := 0
  symlinkTarget : Nat := 0
  deriving DecidableEq

/-- `struct curl_fileinfo`, as it is put into the file list. -/
structure File where
  filename : Bytes
  info : Finfo
  time : Bytes
  perm : Option Bytes
  user : Option Bytes
  group : Option Bytes
  target : Option Bytes
  deriving DecidableEq

/-- `struct ftp_parselist_data`, with `buf` and `info` for what `file_data` points to, and the file
list. In `writes` are the writes into the buffer: the index, and the length the buffer has then. -/
structure Parser where
  osType : OsType := .unknown
  unix : Unix := .totalsize .init
  nt : WinNt := .date
  error : Curlcode := .ok
  fileData : Bool := false
  buf : Bytes := []
  info : Finfo := {}
  itemLength : Nat := 0
  itemOffset : Nat := 0
  offsets : Offsets := {}
  filelist : List File := []
  writes : List (Nat × Nat) := []
  deriving DecidableEq

/-- `MAX_FTPLIST_BUFFER`. -/
def maxFtplistBuffer : Nat := 10000

/-- The C string at an index of the buffer. -/
def cstr (mem : Bytes) (i : Nat) : Bytes := (mem.drop i).takeWhile (· ≠ 0)

/-- `mem[i] = 0`. -/
def Parser.terminate (p : Parser) (i : Nat) : Parser :=
  { p with buf := p.buf.set i 0, writes := p.writes ++ [(i, p.buf.length)] }

/-- A permission bit of `ftp_pl_get_permission`, or `FTP_LP_MALFORMATED_PERM`. -/
def permBit (c set : UInt8) (bit : Nat) : Nat :=
  if c = set then 1 <<< bit else if c ≠ 45 then 0x01000000 else 0

/-- The third character of a class in `ftp_pl_get_permission`: `x`, or one with the bit
`special`. -/
def permExec (c both only : UInt8) (bit special : Nat) : Nat :=
  if c = 120 then 1 <<< bit
  else if c = both then 1 <<< bit ||| 1 <<< special
  else if c = only then 1 <<< special
  else if c ≠ 45 then 0x01000000 else 0

/-- `ftp_pl_get_permission`; 114 is `r`, 119 is `w`, 115 is `s` and 116 is `t`. -/
def ftpPlGetPermission (str : Bytes) : Nat :=
  let at_ (i : Nat) := str.getD i 0
  permBit (at_ 0) 114 8 ||| permBit (at_ 1) 119 7 ||| permExec (at_ 2) 115 83 6 11 |||
    permBit (at_ 3) 114 5 ||| permBit (at_ 4) 119 4 ||| permExec (at_ 5) 115 83 3 10 |||
    permBit (at_ 6) 114 2 ||| permBit (at_ 7) 119 1 ||| permExec (at_ 8) 116 84 0 9

/-- `ftp_pl_insert_finfo`; `compare` tells whether a name matches the pattern. -/
def ftpPlInsertFinfo (compare : Bytes → Bool) (p : Parser) : Parser :=
  let str (offset : Nat) := if offset ≠ 0 then some (cstr p.buf offset) else none
  let file : File :=
    { filename := cstr p.buf p.offsets.filename
      info := p.info
      time := cstr p.buf p.offsets.time
      perm := str p.offsets.perm
      user := str p.offsets.user
      group := str p.offsets.group
      target := if p.info.filetype = .symlink then str p.offsets.symlinkTarget else none }
  let discard := file.target.any fun target => decide (ascii " -> " <:+: target)
  let add := compare file.filename && !discard
  { p with fileData := false, filelist := if add then p.filelist ++ [file] else p.filelist }

/-- `unix_filetype`. -/
def unixFiletype (c : UInt8) : Option Filetype :=
  if c = 45 then some .file
  else if c = 100 then some .directory
  else if c = 108 then some .symlink
  else if c = 112 then some .namedpipe
  else if c = 115 then some .socket
  else if c = 99 then some .deviceChar
  else if c = 98 then some .deviceBlock
  else if c = 68 then some .door
  else none

def parseUnixTotalsize (p : Parser) (sub : TotalSize) (c : UInt8) : Curlcode × Parser :=
  match sub with
  | .init =>
    if c = 116 then (.ok, { p with unix := .totalsize .reading, itemLength := p.itemLength + 1 })
    else (.ok, { p with unix := .filetype })
  | .reading =>
    let p := { p with itemLength := p.itemLength + 1 }
    if c = 13 then
      (.ok, { p with itemLength := p.itemLength - 1, buf := p.buf.take (p.buf.length - 1) })
    else if c = 10 then
      let p := p.terminate (p.itemLength - 1)
      let mem := cstr p.buf 0
      if mem.take 6 = ascii "total " then
        let endptr := ((mem.drop 6).dropWhile Urlglob.isBlank).dropWhile isDigit
        if endptr ≠ [] then (.ftpBadFileList, p) else (.ok, { p with unix := .filetype, buf := [] })
      else (.ftpBadFileList, p)
    else (.ok, p)

/-- `strchr` finds `c` in a string; it finds the zero at its end as well. -/
def strchr (s : String) (c : UInt8) : Bool := c = 0 || (ascii s).contains c

def parseUnixPermission (p : Parser) (c : UInt8) : Curlcode × Parser :=
  let p := { p with itemLength := p.itemLength + 1 }
  if p.itemLength ≤ 9 && !strchr "rwx-tTsS" c then (.ftpBadFileList, p)
  else if p.itemLength = 10 then
    if c ≠ 32 then (.ftpBadFileList, p)
    else
      let p := p.terminate 10
      let perm := ftpPlGetPermission (p.buf.drop p.itemOffset)
      if perm &&& 0x01000000 ≠ 0 then (.ftpBadFileList, p)
      else (.ok, { p with
        info := { p.info with knownPerm := true, perm }
        offsets := { p.offsets with perm := p.itemOffset }
        itemLength := 0
        unix := .hlinks .prespace })
  else (.ok, p)

def parseUnixHlinks (p : Parser) (sub : Item) (c : UInt8) : Curlcode × Parser :=
  match sub with
  | .prespace =>
    if c ≠ 32 then
      if isDigit c ∧ p.buf.length ≠ 0 then
        (.ok, { p with
          itemOffset := p.buf.length - 1, itemLength := 1, unix := .hlinks .content })
      else (.ftpBadFileList, p)
    else (.ok, p)
  | .content =>
    let p := { p with itemLength := p.itemLength + 1 }
    if c = 32 then
      let p := p.terminate (p.itemOffset + p.itemLength - 1)
      let info := match strNumber (cstr p.buf p.itemOffset) curlOffTMax with
        | .ok (hlinks, _) => { p.info with knownHlinkcount := true, hardlinks := hlinks }
        | .error _ => p.info
      (.ok, { p with info, itemLength := 0, itemOffset := 0, unix := .user .prespace })
    else if !isDigit c then (.ftpBadFileList, p)
    else (.ok, p)

def parseUnixUser (p : Parser) (sub : Item) (c : UInt8) : Curlcode × Parser :=
  match sub with
  | .prespace =>
    if c ≠ 32 ∧ p.buf.length ≠ 0 then
      (.ok, { p with itemOffset := p.buf.length - 1, itemLength := 1, unix := .user .content })
    else (.ok, p)
  | .content =>
    let p := { p with itemLength := p.itemLength + 1 }
    if c = 32 then
      let p := p.terminate (p.itemOffset + p.itemLength - 1)
      (.ok, { p with
        offsets := { p.offsets with user := p.itemOffset }
        unix := .group .prespace, itemOffset := 0, itemLength := 0 })
    else (.ok, p)

def parseUnixGroup (p : Parser) (sub : Item) (c : UInt8) : Curlcode × Parser :=
  match sub with
  | .prespace =>
    if c ≠ 32 ∧ p.buf.length ≠ 0 then
      (.ok, { p with itemOffset := p.buf.length - 1, itemLength := 1, unix := .group .content })
    else (.ok, p)
  | .content =>
    let p := { p with itemLength := p.itemLength + 1 }
    if c = 32 then
      let p := p.terminate (p.itemOffset + p.itemLength - 1)
      (.ok, { p with
        offsets := { p.offsets with group := p.itemOffset }
        unix := .size .prespace, itemOffset := 0, itemLength := 0 })
    else (.ok, p)

/-- `curlx_str_numblanks`. -/
def strNumblanks (str : Bytes) : Except StrError (Nat × Bytes) :=
  strNumber (str.dropWhile Urlglob.isBlank) curlOffTMax

def parseUnixSize (p : Parser) (sub : Item) (c : UInt8) : Curlcode × Parser :=
  match sub with
  | .prespace =>
    if c ≠ 32 then
      if isDigit c ∧ p.buf.length ≠ 0 then
        (.ok, { p with itemOffset := p.buf.length - 1, itemLength := 1, unix := .size .content })
      else (.ftpBadFileList, p)
    else (.ok, p)
  | .content =>
    let p := { p with itemLength := p.itemLength + 1 }
    if c = 32 then
      let p := p.terminate (p.itemOffset + p.itemLength - 1)
      match strNumblanks (cstr p.buf p.itemOffset) with
      | .ok (fsize, rest) =>
        let info := if rest = [] ∧ fsize ≠ curlOffTMax then
          { p.info with knownSize := true, size := fsize } else p.info
        (.ok, { p with info, itemLength := 0, itemOffset := 0, unix := .time .prepart1 })
      | .error _ => (.ok, p)
    else if !isDigit c then (.ftpBadFileList, p)
    else (.ok, p)

def parseUnixTime (p : Parser) (sub : Time) (c : UInt8) : Curlcode × Parser :=
  let alnum := Parsedate.isAlnum c
  match sub with
  | .prepart1 =>
    if c ≠ 32 then
      if alnum ∧ p.buf.length ≠ 0 then
        (.ok, { p with itemOffset := p.buf.length - 1, itemLength := 1, unix := .time .part1 })
      else (.ftpBadFileList, p)
    else (.ok, p)
  | .part1 =>
    let p := { p with itemLength := p.itemLength + 1 }
    if c = 32 then (.ok, { p with unix := .time .prepart2 })
    else if !alnum && c != 46 then (.ftpBadFileList, p)
    else (.ok, p)
  | .prepart2 =>
    let p := { p with itemLength := p.itemLength + 1 }
    if c ≠ 32 then
      if alnum then (.ok, { p with unix := .time .part2 }) else (.ftpBadFileList, p)
    else (.ok, p)
  | .part2 =>
    let p := { p with itemLength := p.itemLength + 1 }
    if c = 32 then (.ok, { p with unix := .time .prepart3 })
    else if !alnum && c != 46 then (.ftpBadFileList, p)
    else (.ok, p)
  | .prepart3 =>
    let p := { p with itemLength := p.itemLength + 1 }
    if c ≠ 32 then
      if alnum then (.ok, { p with unix := .time .part3 }) else (.ftpBadFileList, p)
    else (.ok, p)
  | .part3 =>
    let p := { p with itemLength := p.itemLength + 1 }
    if c = 32 then
      let p := p.terminate (p.itemOffset + p.itemLength - 1)
      (.ok, { p with
        offsets := { p.offsets with time := p.itemOffset }
        unix := if p.info.filetype = .symlink then .symlink .prespace else .filename .prespace })
    else if !alnum && c != 46 && c != 58 then (.ftpBadFileList, p)
    else (.ok, p)

/-- The end of a line in `parse_unix_filename`. -/
def filenameDone (compare : Bytes → Bool) (p : Parser) : Parser :=
  let p := p.terminate (p.itemOffset + p.itemLength - 1)
  ftpPlInsertFinfo compare { p with
    offsets := { p.offsets with filename := p.itemOffset }, unix := .filetype }

def parseUnixFilename (compare : Bytes → Bool) (p : Parser) (sub : Filename) (c : UInt8) :
    Curlcode × Parser :=
  match sub with
  | .prespace =>
    if c ≠ 32 ∧ p.buf.length ≠ 0 then
      (.ok, { p with itemOffset := p.buf.length - 1, itemLength := 1, unix := .filename .name })
    else (.ok, p)
  | .name =>
    let p := { p with itemLength := p.itemLength + 1 }
    if c = 13 then (.ok, { p with unix := .filename .windowseol })
    else if c = 10 then (.ok, filenameDone compare p)
    else (.ok, p)
  | .windowseol => if c = 10 then (.ok, filenameDone compare p) else (.ftpBadFileList, p)

/-- The end of a line in `parse_unix_symlink`. -/
def targetDone (compare : Bytes → Bool) (p : Parser) : Parser :=
  let p := p.terminate (p.itemOffset + p.itemLength - 1)
  ftpPlInsertFinfo compare { p with
    offsets := { p.offsets with symlinkTarget := p.itemOffset }, unix := .filetype }

/-- A state of `parse_unix_symlink` before the target: `next` if `c` is `want`. -/
def symlinkNext (p : Parser) (c want : UInt8) (next : Symlink) : Curlcode × Parser :=
  if c = want then (.ok, { p with unix := .symlink next })
  else if c = 13 ∨ c = 10 then (.ftpBadFileList, p)
  else (.ok, { p with unix := .symlink .name })

def parseUnixSymlink (compare : Bytes → Bool) (p : Parser) (sub : Symlink) (c : UInt8) :
    Curlcode × Parser :=
  let longer := { p with itemLength := p.itemLength + 1 }
  match sub with
  | .prespace =>
    if c ≠ 32 ∧ p.buf.length ≠ 0 then
      (.ok, { p with itemOffset := p.buf.length - 1, itemLength := 1, unix := .symlink .name })
    else (.ok, p)
  | .name => symlinkNext longer c 32 .pretarget1
  | .pretarget1 => symlinkNext longer c 45 .pretarget2
  | .pretarget2 => symlinkNext longer c 62 .pretarget3
  | .pretarget3 =>
    if c = 32 then
      let p := longer.terminate (longer.itemOffset + longer.itemLength - 4)
      (.ok, { p with
        unix := .symlink .pretarget4
        offsets := { p.offsets with filename := p.itemOffset }
        itemLength := 0, itemOffset := 0 })
    else symlinkNext longer c 32 .pretarget4
  | .pretarget4 =>
    if c ≠ 13 ∧ c ≠ 10 ∧ p.buf.length ≠ 0 then
      (.ok, { p with unix := .symlink .target, itemOffset := p.buf.length - 1, itemLength := 1 })
    else (.ftpBadFileList, p)
  | .target =>
    if c = 13 then (.ok, { longer with unix := .symlink .windowseol })
    else if c = 10 then (.ok, targetDone compare longer)
    else (.ok, longer)
  | .windowseol => if c = 10 then (.ok, targetDone compare p) else (.ftpBadFileList, p)

/-- `PL_UNIX_FILETYPE` in `parse_unix`. -/
def parseUnixFiletype (p : Parser) (c : UInt8) : Curlcode × Parser :=
  match unixFiletype c with
  | none => (.ftpBadFileList, p)
  | some filetype =>
    (.ok, { p with
      info := { p.info with filetype }, unix := .permission, itemLength := 0, itemOffset := 1 })

def parseUnix (compare : Bytes → Bool) (p : Parser) (c : UInt8) : Curlcode × Parser :=
  match p.unix with
  | .totalsize sub =>
    let (result, p) := parseUnixTotalsize p sub c
    if result ≠ .ok then (result, p)
    else if p.unix ≠ .filetype then (.ok, p)
    else parseUnixFiletype p c
  | .filetype => parseUnixFiletype p c
  | .permission => parseUnixPermission p c
  | .hlinks sub => parseUnixHlinks p sub c
  | .user sub => parseUnixUser p sub c
  | .group sub => parseUnixGroup p sub c
  | .size sub => parseUnixSize p sub c
  | .time sub => parseUnixTime p sub c
  | .filename sub => parseUnixFilename compare p sub c
  | .symlink sub => parseUnixSymlink compare p sub c

/-- The end of a line in `parse_winnt`. -/
def winntDone (compare : Bytes → Bool) (p : Parser) : Parser :=
  ftpPlInsertFinfo compare { p with
    offsets := { p.offsets with filename := p.itemOffset }, nt := .date }

def parseWinntDirorsize (p : Parser) (sub : Item) (c : UInt8) : Curlcode × Parser :=
  match sub with
  | .prespace =>
    if c ≠ 32 ∧ p.buf.length ≠ 0 then
      (.ok, { p with itemOffset := p.buf.length - 1, itemLength := 1, nt := .dirorsize .content })
    else (.ok, p)
  | .content =>
    let p := { p with itemLength := p.itemLength + 1 }
    if c = 32 then
      let p := p.terminate (p.itemOffset + p.itemLength - 1)
      let known (filetype : Filetype) (size : Nat) : Curlcode × Parser :=
        (.ok, { p with
          info := { p.info with filetype, size, knownSize := true }
          itemLength := 0, nt := .filename .prespace })
      if cstr p.buf p.itemOffset = ascii "<DIR>" then known .directory 0
      else match strNumblanks (cstr p.buf p.itemOffset) with
        | .ok (size, _) => known .file size
        | .error _ => (.ftpBadFileList, p)
    else (.ok, p)

def parseWinnt (compare : Bytes → Bool) (p : Parser) (c : UInt8) : Curlcode × Parser :=
  let len := p.buf.length
  match p.nt with
  | .date =>
    let p := { p with itemLength := p.itemLength + 1 }
    if p.itemLength < 9 then
      if !strchr "0123456789-" c then (.ftpBadFileList, p) else (.ok, p)
    else if p.itemLength = 9 then
      if c = 32 then (.ok, { p with nt := .time .prespace }) else (.ftpBadFileList, p)
    else (.ftpBadFileList, p)
  | .time sub =>
    let p := { p with itemLength := p.itemLength + 1 }
    match sub with
    | .prespace =>
      if !Urlglob.isBlank c then (.ok, { p with nt := .time .content }) else (.ok, p)
    | .content =>
      if c = 32 then
        let p := { p with offsets := { p.offsets with time := p.itemOffset } }
        let p := p.terminate (p.itemOffset + p.itemLength - 1)
        (.ok, { p with nt := .dirorsize .prespace, itemLength := 0 })
      else if !strchr "APM0123456789:" c then (.ftpBadFileList, p)
      else (.ok, p)
  | .dirorsize sub => parseWinntDirorsize p sub c
  | .filename .prespace =>
    if c ≠ 32 ∧ len ≠ 0 then
      (.ok, { p with itemOffset := len - 1, itemLength := 1, nt := .filename .name })
    else (.ok, p)
  | .filename .name =>
    let p := { p with itemLength := p.itemLength + 1 }
    if len = 0 then (.ftpBadFileList, p)
    else if c = 13 then (.ok, { p.terminate (len - 1) with nt := .filename .windowseol })
    else if c = 10 then (.ok, winntDone compare (p.terminate (len - 1)))
    else (.ok, p)
  | .filename .windowseol =>
    if c = 10 then (.ok, winntDone compare p) else (.ftpBadFileList, p)

/-- Parsing goes no further. -/
def Parser.fail (p : Parser) (error : Curlcode) : Parser := { p with error, fileData := false }

/-- `file_data` for the next byte. -/
def Parser.alloc (p : Parser) : Parser :=
  if p.fileData then p
  else { p with fileData := true, buf := [], info := {}, itemOffset := 0, itemLength := 0 }

/-- The switch over `os_type`. -/
def parseChar (compare : Bytes → Bool) (p : Parser) (c : UInt8) : Curlcode × Parser :=
  match p.osType with
  | .winNt => parseWinnt compare p c
  | .unix | .unknown => parseUnix compare p c

/-- A round of the loop of `Curl_ftp_parselist`. -/
def parseByte (compare : Bytes → Bool) (p : Parser) (c : UInt8) : Parser :=
  let p := p.alloc
  if 1 + p.buf.length + 1 > maxFtplistBuffer then p.fail .outOfMemory
  else
    let (result, p) := parseChar compare { p with buf := p.buf ++ [c] } c
    if result ≠ .ok then p.fail result else p

/-- The loop of `Curl_ftp_parselist`; after an error the bytes are not looked at. -/
def parseLoop (compare : Bytes → Bool) : Parser → Bytes → Parser
  | p, [] => p
  | p, c :: rest => if p.error ≠ .ok then p else parseLoop compare (parseByte compare p c) rest

/-- `Curl_ftp_parselist`. -/
def ftpParselist (compare : Bytes → Bool) (p : Parser) (buffer : Bytes) : Parser :=
  if p.error ≠ .ok then p.fail p.error
  else
    match p.osType, buffer with
    | .unknown, c :: _ =>
      parseLoop compare { p with osType := if isDigit c then .winNt else .unix } buffer
    | _, _ => parseLoop compare p buffer

end Gurl.Ftplist
