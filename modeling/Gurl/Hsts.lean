import Gurl.Proxy.Spared
import Mathlib.Data.List.MinMax

/-! The lookup in the HSTS cache of `lib/hsts.c`. -/

namespace Gurl.Hsts

open Strcase Vtls Proxy

/-- `struct stsentry`; `hsts_create` makes none without a host. -/
structure StsEntry where
  host : Bytes
  host_ne : host ≠ []
  includeSubDomains : Bool
  expires : Int
  deriving DecidableEq

/-- `MAX_HSTS_HOSTLEN`. -/
def maxHstsHostlen : Nat := 2048

/-- The host itself. -/
def StsEntry.same (sts : StsEntry) (hostname : Bytes) : Bool :=
  hostname.length = sts.host.length && strnequal hostname sts.host hostname.length

/-- A domain of the host, with its subdomains. -/
def StsEntry.tail (sts : StsEntry) (hostname : Bytes) : Bool :=
  let offs := hostname.length - sts.host.length
  sts.includeSubDomains && sts.host.length < hostname.length && hostname.getD (offs - 1) 0 == 46 &&
    strnequal (hostname.drop offs) sts.host sts.host.length

/-- The loop of `hsts_check`: the list without expired entries, as far as it was walked, and
`bestsub`. -/
def checkLoop (now : Int) (hostname : Bytes) (subdomain : Bool) :
    List StsEntry → Option StsEntry → Nat → List StsEntry × Option StsEntry
  | [], bestsub, _ => ([], bestsub)
  | sts :: n, bestsub, blen =>
    if sts.expires ≤ now then checkLoop now hostname subdomain n bestsub blen
    else
      let best := if subdomain && sts.tail hostname && blen < sts.host.length then
        (some sts, sts.host.length) else (bestsub, blen)
      if sts.same hostname then (sts :: n, some sts)
      else
        let (list, found) := checkLoop now hostname subdomain n best.1 best.2
        (sts :: list, found)

/-- `hsts_check`. -/
def hstsCheck (h : List StsEntry) (now : Int) (hostname : Bytes) (subdomain : Bool) :
    List StsEntry × Option StsEntry :=
  if hostname.length > maxHstsHostlen ∨ hostname = [] then (h, none)
  else checkLoop now (undotted hostname) subdomain h none 0

variable {now : Int} {name : Bytes} {sts : StsEntry} {subdomain : Bool} {n : List StsEntry}
  {bestsub : Option StsEntry}

/-- The host is a domain of the name, with its subdomains. -/
def Above (name : Bytes) (e : StsEntry) : Prop :=
  e.includeSubDomains = true ∧ e.host.length < name.length ∧ InDomain name e.host

theorem same_iff : sts.same name = true ↔ upper name = upper sts.host := by
  rw [StsEntry.same, Bool.and_eq_true, decide_eq_true_eq, strnequal_iff, List.take_length]
  constructor
  · rintro ⟨hlen, heq⟩
    rwa [hlen, List.take_length] at heq
  · intro heq
    have hlen : name.length = sts.host.length := by rw [← length_upper name, heq, length_upper]
    rw [hlen, List.take_length]
    exact ⟨rfl, heq⟩

theorem tail_iff : sts.tail name = true ↔ Above name sts := by
  simp only [StsEntry.tail, Above, Bool.and_eq_true, decide_eq_true_eq, beq_iff_eq, strnequal_iff,
    List.take_length, and_assoc]
  refine and_congr_right fun _ => and_congr_right fun hlt => ?_
  rw [inDomain_tail hlt, List.take_of_length_le (by rw [List.length_drop]; omega)]

instance : Decidable (Above name sts) := decidable_of_iff _ tail_iff

/-- The entries that have not expired. -/
def live (now : Int) (h : List StsEntry) : List StsEntry := h.filter (now < ·.expires)

theorem checkLoop_eq {blen : Nat} (hblen : blen = (bestsub.map (·.host.length)).getD 0) :
    live now (checkLoop now name subdomain n bestsub blen).1 = live now n ∧
    (checkLoop now name subdomain n bestsub blen).2 = ((live now n).find? (·.same name)).or
      (((live now n).filter fun e => subdomain && e.tail name).foldl
        (List.argAux fun b c => c.host.length < b.host.length) bestsub) := by
  induction n generalizing bestsub blen with
  | nil => simp [checkLoop, live]
  | cons sts n ih =>
    rw [checkLoop]
    by_cases hexpired : sts.expires ≤ now
    · simpa [hexpired, live, Int.not_lt.mpr hexpired] using ih hblen
    have hlive := Int.not_le.mp hexpired
    by_cases hsame : sts.same name = true
    · simp [hexpired, hsame, live, hlive]
    have hstep : List.argAux (fun b c => c.host.length < b.host.length) bestsub sts =
        if blen < sts.host.length then some sts else bestsub := by
      cases bestsub with
      | none => simp [List.argAux, hblen, List.length_pos_iff.mpr sts.host_ne]
      | some b => simp [List.argAux, hblen]
    by_cases htail : (subdomain && sts.tail name) = true
    · by_cases hlonger : blen < sts.host.length
      · have hnext := @ih (some sts) sts.host.length rfl
        simpa [hexpired, hsame, live, hlive, htail, hstep, hlonger] using hnext
      · simpa [hexpired, hsame, live, hlive, htail, hstep, hlonger] using ih hblen
    · simpa [hexpired, hsame, live, hlive, htail] using ih hblen

/-- `hsts_check` keeps the entries that have not expired. It finds the first of them for the host
itself, and if there is none, the one for the longest of its domains. -/
theorem hstsCheck_finds (h : List StsEntry) (now : Int) {hostname : Bytes}
    (hlen : hostname.length ≤ maxHstsHostlen) (hhost : hostname ≠ []) (subdomain : Bool) :
    live now (hstsCheck h now hostname subdomain).1 = live now h ∧
      (hstsCheck h now hostname subdomain).2 =
        ((live now h).find? fun e => upper (undotted hostname) = upper e.host).or
          (((live now h).filter fun e => subdomain && Above (undotted hostname) e).argmax
            (·.host.length)) := by
  have hcond : ¬ (hostname.length > maxHstsHostlen ∨ hostname = []) := by simp [hlen, hhost]
  rw [hstsCheck, if_neg hcond]
  simpa [List.argmax, ← same_iff, ← tail_iff] using
    @checkLoop_eq now (undotted hostname) subdomain h none 0 rfl

theorem hstsCheck_finds_domain :
    (hstsCheck [⟨ascii "c", by decide, true, 9⟩, ⟨ascii "B.c", by decide, true, 9⟩] 3
      (ascii "a.b.c.") true).2 = some ⟨ascii "B.c", by decide, true, 9⟩ :=
  (hstsCheck_finds _ 3 (by decide) (by decide) true).2.trans (by decide)

end Gurl.Hsts
