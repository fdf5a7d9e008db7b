import Gurl.Curlcode

/-! The fields of an easy handle that decide which request it makes, and the options of
`lib/setopt.c` that write them. -/

namespace Gurl

/-- `Curl_HttpReq`. -/
inductive HttpReq where
  | get | post | postForm | postMime | put | head
  deriving DecidableEq

/-- The part of `struct Curl_easy` that a request is built from. -/
structure Easy where
  /-- `set.method`. -/
  method : HttpReq
  /-- `set.opt_no_body`. -/
  optNoBody : Bool
  /-- `progress.hide`. -/
  hide : Bool
  /-- `set.postfields`. -/
  postfields : Option Bytes
  /-- `set.str[STRING_CUSTOMREQUEST]`. -/
  customrequest : Option String

namespace Easy

/-- A handle from `curl_easy_init`, as `Curl_init_userdefined` and `Curl_open` leave it. -/
def init : Easy :=
  { method := .get, optNoBody := false, hide := true, postfields := none, customrequest := none }

/-- The options of `setopt_long_bool` that touch these fields. `CURLOPT_PUT` is an alias of
`CURLOPT_UPLOAD`. -/
inductive BoolOption where
  | noprogress | nobody | upload | httpget | post

/-- `setopt_long_bool`. -/
def setoptLongBool (data : Easy) (option : BoolOption) (arg : Int) : Easy :=
  let enabled : Bool := arg ≠ 0
  match option with
  | .noprogress => { data with hide := enabled }
  | .nobody =>
    if enabled then { data with optNoBody := true, method := .head }
    else if data.method = .head then { data with optNoBody := false, method := .get }
    else { data with optNoBody := false }
  | .upload =>
    if enabled then { data with method := .put, optNoBody := false }
    else { data with method := .get }
  | .httpget => if enabled then { data with method := .get, optNoBody := false } else data
  | .post =>
    if enabled then { data with method := .post, optNoBody := false }
    else { data with method := .get }

/-- `CURLOPT_POSTFIELDS` of `setopt_cptr_http_mqtt`. -/
def setoptPostfields (data : Easy) (ptr : Bytes) : Easy :=
  { data with postfields := some ptr, method := .post }

/-- `setopt_mimepost`, with the result of `Curl_mime_set_subparts`. -/
def setoptMimepost (data : Easy) (result : Curlcode) : Easy × Curlcode :=
  if result = .ok then ({ data with method := .postMime, optNoBody := false }, .ok)
  else (data, result)

/-- `CURLOPT_CUSTOMREQUEST` keeps the method and changes the keyword of the request. -/
def setoptCustomrequest (data : Easy) (ptr : Option String) : Easy :=
  { data with customrequest := ptr }

end Easy

end Gurl
