/- The URLs that the HTTP client connects to: what of a URL names the domain, the port and the
   location. -/

import RetroArch.File.Pathname
import RetroArch.Library.CString
import RetroArch.Library.Substring

namespace RetroArch.Net.Connection

open File.Config (Str)
open File.Path (slash colon)
open File.Pathname (strlcpy strlcat)
open Library.CString (strtol scanNumber scanDigits skipSign skipBase digitOf isSpace)
open Library.Substring

/-- `http://` -/
def http : Str := [104, 116, 116, 112, 58, 47, 47]

/-- `https://` -/
def https : Str := [104, 116, 116, 112, 115, 58, 47, 47]

/-- `sizeof(new_domain)` -/
def newDomainSize : ℕ := 2048

/-- `(int)strtol(nptr, NULL, 10)` -/
def atoi (nptr : Str) : ℤ := ((strtol 10 (nptr ++ [0])).getD 0).bmod (2 ^ 32)

/-- `domain` is what lies between `conn->domain` and `conn->scan`. -/
structure HttpConnection where
  ssl : Bool
  port : ℤ
  domain : Str
  scan : Str
  location : Option Str
  deriving DecidableEq

/-- The port that is found between the colons, and what is scanned after it is taken out. There is
no result where `NULL` is searched. -/
def fetchPort (scan : Str) : Option (ℤ × Str) :=
  if colon ∉ scan then some (0, scan)
  else
    (strtok scan colon).bind fun domainPort =>
    (strtok domainPort.2 colon).map fun domainPort2 =>
      let urlPort :=
        if slash ∈ domainPort2.1 then (strtok domainPort2.1 slash).map Prod.fst
        else some domainPort2.1
      let port := urlPort.elim 0 atoi
      let newDomain := strlcpy domainPort.1 newDomainSize
      match strchr scan slash with
      | none => (port, scan)
      | some uri =>
        let newDomain :=
          match strchr uri slash with
          | none => strlcat newDomain uri newDomainSize
          | some uri =>
            strlcat (strlcat newDomain [slash] newDomainSize) (uri.drop 1) newDomainSize
        (port, strlcpy newDomain (scan.length + 1))

/-- A failure is `none` inside. -/
def netHttpConnectionNew (url : Str) : Option (Option HttpConnection) :=
  let scanned :=
    if http <+: url then some (false, url.drop http.length)
    else if https <+: url then some (true, url.drop https.length)
    else none
  match scanned with
  | none => some none
  | some (ssl, scan) =>
    if scan = [] then some none
    else
      (fetchPort scan).map fun fetched =>
        some ⟨ssl, fetched.1, [], fetched.2, none⟩

def netHttpConnectionIterate (conn : HttpConnection) : HttpConnection :=
  let passed := fun b => b ≠ slash && b ≠ colon
  { conn with
    domain := conn.domain ++ conn.scan.takeWhile passed
    scan := conn.scan.dropWhile passed }

/-- `*conn->scan` is compared to the colon when it has been made the terminator of the domain, so
that what is behind that comparison is not reached. -/
def netHttpConnectionDone (conn : HttpConnection) : Option HttpConnection :=
  if conn.scan = [] then none
  else
    let port := if conn.port = 0 then if conn.ssl then 443 else 80 else conn.port
    some { conn with port := port, location := some (conn.scan.drop 1) }

/-- The three calls in the order in which the tasks make them. -/
def connect (url : Str) : Option (Option HttpConnection) :=
  (netHttpConnectionNew url).map fun conn =>
    conn.bind fun conn => netHttpConnectionDone (netHttpConnectionIterate conn)

/-- The number that a text of digits is. -/
def decimal (digits : Str) : ℕ := digits.foldl (fun n b => n * 10 + (b.toNat - 48)) 0

/-- The digits of a port. -/
structure Digits where
  text : Str
  nonempty : text ≠ []
  digits : ∀ b ∈ text, 48 ≤ b ∧ b ≤ 57

def scheme (ssl : Bool) : Str := if ssl then https else http

structure Url where
  ssl : Bool
  host : Str
  port : Option Digits
  path : Str
  host_free : colon ∉ host ∧ slash ∉ host

namespace Url

def portText (u : Url) : Str := u.port.elim [] fun port => colon :: port.text

def text (u : Url) : Str := scheme u.ssl ++ (u.host ++ (u.portText ++ slash :: u.path))

def portNumber (u : Url) : ℤ :=
  u.port.elim (if u.ssl then 443 else 80) fun port => decimal port.text

end Url

def TakenApart (u : Url) : Prop :=
  ∃ conn, connect u.text = some (some conn) ∧ conn.domain = u.host ∧
    conn.location = some u.path ∧ conn.port = u.portNumber

/-- Without a port no colon is in the path. With one there is a host, the port is one that an
`int` has and not the zero that stands for no port, and host and path fit in `new_domain`. -/
def Plain (u : Url) : Prop :=
  match u.port with
  | none => colon ∉ u.path
  | some port =>
    u.host ≠ [] ∧ decimal port.text ≠ 0 ∧ decimal port.text < 2 ^ 31 ∧
      u.host.length + 1 + u.path.length < newDomainSize

/-- What is behind the scheme has no colon, or one between other bytes. -/
def ColonsInside (url : Str) : Prop :=
  ∀ ssl rest, url = scheme ssl ++ rest → colon ∈ rest →
    ∃ before after, rest = before ++ colon :: after ∧ (∃ b ∈ before, b ≠ colon) ∧
      ∃ b ∈ after, b ≠ colon

section Scanning

variable {conn conn' : HttpConnection} {host path : Str}

theorem passed_of_free (h : colon ∉ host ∧ slash ∉ host) :
    ∀ b ∈ host, (b ≠ slash && b ≠ colon) = true := by
  intro b hb
  have hslash : b ≠ slash := fun heq => h.2 (heq ▸ hb)
  have hcolon : b ≠ colon := fun heq => h.1 (heq ▸ hb)
  simp [hslash, hcolon]

theorem done_of_scan (h : colon ∉ host ∧ slash ∉ host) (hscan : conn.scan = host ++ slash :: path) :
    netHttpConnectionDone (netHttpConnectionIterate conn) =
      some ⟨conn.ssl, if conn.port = 0 then if conn.ssl then 443 else 80 else conn.port,
        conn.domain ++ host, slash :: path, some path⟩ := by
  have hpassed := passed_of_free h
  have htake : conn.scan.takeWhile (fun b => b ≠ slash && b ≠ colon) = host := by
    rw [hscan, List.takeWhile_append_of_pos hpassed, List.takeWhile_cons_of_neg (by simp),
      List.append_nil]
  have hdrop : conn.scan.dropWhile (fun b => b ≠ slash && b ≠ colon) = slash :: path := by
    rw [hscan, List.dropWhile_append_of_pos hpassed, List.dropWhile_cons_of_neg (by simp)]
  rw [netHttpConnectionIterate, netHttpConnectionDone]
  dsimp only
  rw [htake, hdrop]
  rfl

/-- The text is the domain, the byte that ended it, and the location. -/
theorem scan_of_done (hstart : conn.domain = [])
    (h : netHttpConnectionDone (netHttpConnectionIterate conn) = some conn')
    (hpath : conn'.location = some path) :
    (∃ b, (b = slash ∨ b = colon) ∧ conn.scan = conn'.domain ++ b :: path) ∧
      conn'.port = if conn.port = 0 then if conn.ssl then 443 else 80 else conn.port := by
  rw [netHttpConnectionDone] at h
  by_cases hnil : (netHttpConnectionIterate conn).scan = []
  · rw [if_pos hnil] at h
    exact nomatch h
  rw [if_neg hnil] at h
  obtain rfl := Option.some.inj h
  refine ⟨?_, rfl⟩
  have hwhole : conn.scan.takeWhile (fun b => b ≠ slash && b ≠ colon) ++
      conn.scan.dropWhile (fun b => b ≠ slash && b ≠ colon) = conn.scan :=
    List.takeWhile_append_dropWhile
  have hnil' : conn.scan.dropWhile (fun b => b ≠ slash && b ≠ colon) ≠ [] := hnil
  have hstop := List.head_dropWhile_not (fun b => b ≠ slash && b ≠ colon) hnil'
  have hlocation := Option.some.inj hpath
  change (conn.scan.dropWhile (fun b => b ≠ slash && b ≠ colon)).drop 1 = path at hlocation
  cases hrest : conn.scan.dropWhile (fun b => b ≠ slash && b ≠ colon) with
  | nil => exact absurd hrest hnil'
  | cons b rest =>
    simp only [hrest, List.head_cons] at hstop
    rw [hrest, List.drop_succ_cons, List.drop_zero] at hlocation
    refine ⟨b, ?_, ?_⟩
    · by_contra hne
      rw [not_or] at hne
      simp [hne] at hstop
    · rw [← hlocation, ← hrest, ← hwhole]
      simp [netHttpConnectionIterate, hstart]

end Scanning

section Ports

variable {scan host path : Str}

theorem fetchPort_isSome_iff :
    (fetchPort scan).isSome ↔ (colon ∈ scan →
      ∃ before after, scan = before ++ colon :: after ∧ (∃ b ∈ before, b ≠ colon) ∧
        ∃ b ∈ after, b ≠ colon) := by
  rw [← two_tokens_iff, fetchPort]
  by_cases hcolon : colon ∈ scan
  · rw [if_neg (not_not.mpr hcolon)]
    simp only [hcolon, true_imp_iff]
    cases hfirst : strtok scan colon with
    | none => simp
    | some first =>
      cases hsecond : strtok first.2 colon with
      | none => simp [hsecond]
      | some second => exact ⟨fun _ => ⟨first, second, rfl, hsecond⟩, fun _ => by simp [hsecond]⟩
  · simp [hcolon]

theorem strlcat_strlcpy (a b : Str) (size : ℕ) :
    strlcat (strlcpy a size) b size = strlcpy (a ++ b) size := by
  rw [strlcat, strlcpy, strlcpy, List.take_append, List.length_take]
  congr 2
  omega

/-- What is written back over the text is the first token and what is behind the first slash. -/
theorem fetchPort_tokens {first second : Str × Str} (hcolon : colon ∈ scan)
    (hfirst : strtok scan colon = some first) (hsecond : strtok first.2 colon = some second)
    {uri : Str} (huri : strchr scan slash = some (slash :: uri)) :
    fetchPort scan =
      some ((if slash ∈ second.1 then (strtok second.1 slash).map Prod.fst
          else some second.1).elim 0 atoi,
        ((first.1 ++ slash :: uri).take (newDomainSize - 1)).take scan.length) := by
  have hagain : strchr (slash :: uri) slash = some (slash :: uri) :=
    @strchr_of_not_mem _ _ slash [] List.not_mem_nil uri
  rw [fetchPort, if_neg (not_not.mpr hcolon), hfirst, Option.bind_some, hsecond, Option.map_some]
  dsimp only
  rw [huri]
  dsimp only
  rw [hagain]
  dsimp only
  rw [strlcat_strlcpy, strlcat_strlcpy, List.append_assoc]
  rfl

theorem prefix_of_fetched {first : Str × Str} {fetched : ℤ × Str} (hcolon : colon ∈ scan)
    (hfirst : strtok scan colon = some first) {uri : Str}
    (huri : strchr scan slash = some (slash :: uri)) (h : fetchPort scan = some fetched) :
    fetched.2 <+: first.1 ++ slash :: uri := by
  have hsecond : ∃ second, strtok first.2 colon = some second := by
    rw [fetchPort, if_neg (not_not.mpr hcolon), hfirst, Option.bind_some] at h
    obtain ⟨second, hsecond, -⟩ := Option.map_eq_some_iff.mp h
    exact ⟨second, hsecond⟩
  obtain ⟨second, hsecond⟩ := hsecond
  have heq := Option.some.inj ((fetchPort_tokens hcolon hfirst hsecond huri).symm.trans h)
  rw [← heq]
  exact (List.take_prefix _ _).trans (List.take_prefix _ _)

theorem digits_free (d : Digits) : colon ∉ d.text ∧ slash ∉ d.text := by
  constructor
  · intro h
    exact absurd (d.digits _ h) (by decide)
  · intro h
    exact absurd (d.digits _ h) (by decide)

theorem fetchPort_port (d : Digits) (hne : host ≠ []) (h : colon ∉ host ∧ slash ∉ host) :
    fetchPort (host ++ colon :: (d.text ++ slash :: path)) =
      some (atoi d.text, (host ++ slash :: path).take (newDomainSize - 1)) := by
  have hcolon : colon ∈ host ++ colon :: (d.text ++ slash :: path) := by simp
  have hfirst := @strtok_token _ _ colon host (d.text ++ slash :: path) hne h.1
  have hd := digits_free d
  have htake : (d.text ++ slash :: path).takeWhile (· ≠ colon) =
      d.text ++ slash :: path.takeWhile (· ≠ colon) := by
    have hall : ∀ b ∈ d.text, decide (b ≠ colon) = true := by
      intro b hb
      exact decide_eq_true fun heq => hd.1 (heq ▸ hb)
    rw [List.takeWhile_append_of_pos hall, List.takeWhile_cons_of_pos (by decide)]
  have hsecond : ∃ rest, strtok (d.text ++ slash :: path) colon =
      some (d.text ++ slash :: path.takeWhile (· ≠ colon), rest) := by
    cases htext : d.text with
    | nil => exact absurd htext d.nonempty
    | cons b text =>
      have hb : b ≠ colon := fun heq => hd.1 (htext ▸ heq ▸ List.mem_cons_self)
      rw [htext] at htake
      rw [← htake]
      exact ⟨_, strtok_cons hb _⟩
  have hthird := @strtok_token _ _ slash d.text (path.takeWhile (· ≠ colon)) d.nonempty hd.2
  have huri : strchr (host ++ colon :: (d.text ++ slash :: path)) slash = some (slash :: path) := by
    have hfree : slash ∉ host ++ colon :: d.text := by
      rw [List.mem_append, List.mem_cons, not_or, not_or]
      exact ⟨h.2, by decide, hd.2⟩
    have hfound := strchr_of_not_mem hfree path
    rwa [List.append_assoc] at hfound
  obtain ⟨rest, hsecond⟩ := hsecond
  have hmem : slash ∈ d.text ++ slash :: path.takeWhile (· ≠ colon) := by simp
  have hshort : ((host ++ slash :: path).take (newDomainSize - 1)).length ≤
      (host ++ colon :: (d.text ++ slash :: path)).length := by
    simp only [List.length_take, List.length_append, List.length_cons]
    omega
  rw [fetchPort_tokens hcolon hfirst hsecond huri, if_pos hmem, hthird,
    List.take_of_length_le hshort]
  rfl

theorem fetchPort_free (h : colon ∉ scan) : fetchPort scan = some (0, scan) := by
  rw [fetchPort, if_pos h]

end Ports

section Numbers

variable (d : Digits)

theorem digitOf_digit {b : UInt8} (h : 48 ≤ b ∧ b ≤ 57) : digitOf 10 b = some (b.toNat - 48) := by
  have hlow := UInt8.le_iff_toNat_le.mp h.1
  have hhigh := UInt8.le_iff_toNat_le.mp h.2
  change 48 ≤ b.toNat at hlow
  change b.toNat ≤ 57 at hhigh
  rw [digitOf, if_pos h, Option.filter_some, if_pos]
  exact decide_eq_true (by omega)

theorem scanDigits_digits (text : Str) (h : ∀ b ∈ text, 48 ≤ b ∧ b ≤ 57) (n : ℕ) :
    scanDigits 10 n (text ++ [0]) =
      (text.foldl (fun n b => n * 10 + (b.toNat - 48)) n, [0]) := by
  induction text generalizing n with
  | nil => rfl
  | cons b text ih =>
    rw [List.cons_append, scanDigits, digitOf_digit (h b List.mem_cons_self), List.foldl_cons]
    exact ih (fun c hc => h c (List.mem_cons_of_mem b hc)) _

theorem strtol_digits :
    strtol 10 (d.text ++ [0]) = some ((min (decimal d.text) (2 ^ 63 - 1) : ℕ) : ℤ) := by
  have hscan : scanNumber 10 (d.text ++ [0]) = (false, decimal d.text, [0]) := by
    have hbase : ∀ text : Str, skipBase 10 text = text := by
      intro text
      unfold skipBase
      split
      · exact if_neg (by simp)
      · rfl
    have hsign : skipSign ((d.text ++ [0]).dropWhile isSpace) = (false, d.text ++ [0]) := by
      cases htext : d.text with
      | nil => exact absurd htext d.nonempty
      | cons b text =>
        have hb := d.digits b (htext ▸ List.mem_cons_self)
        have hlow := UInt8.le_iff_toNat_le.mp hb.1
        change 48 ≤ b.toNat at hlow
        have hother : ∀ c : UInt8, c.toNat < 48 → b ≠ c := by
          rintro c hc rfl
          omega
        have hspace : isSpace b = false := by
          have hhigh : ¬b ≤ 13 := by
            rw [UInt8.le_iff_toNat_le]
            change ¬b.toNat ≤ 13
            omega
          simp [isSpace, hother 32 (by decide), hhigh]
        rw [List.cons_append, List.dropWhile_cons_of_neg (by simp [hspace]), skipSign,
          if_neg (hother 45 (by decide)), if_neg (hother 43 (by decide))]
    rw [scanNumber, hsign]
    dsimp only
    rw [hbase, scanDigits_digits _ d.digits, decimal]
  rw [strtol, hscan]
  rfl

theorem atoi_eq_iff : atoi d.text = decimal d.text ↔ decimal d.text < 2 ^ 31 := by
  rw [atoi, strtol_digits, Option.getD_some]
  constructor
  · intro h
    have hlt := @Int.bmod_lt (min (decimal d.text) (2 ^ 63 - 1) : ℕ) (2 ^ 32) (by decide)
    rw [h] at hlt
    omega
  · intro h
    rw [Nat.min_eq_left (by omega)]
    exact Int.bmod_eq_of_le (by omega) (by omega)

end Numbers

section Connecting

variable {u : Url}

/-- What is behind the scheme. -/
def Url.rest (u : Url) : Str := u.host ++ (u.portText ++ slash :: u.path)

theorem connect_scheme (ssl : Bool) (rest : Str) (hne : rest ≠ []) :
    connect (scheme ssl ++ rest) = (fetchPort rest).map fun fetched =>
      netHttpConnectionDone (netHttpConnectionIterate ⟨ssl, fetched.1, [], fetched.2, none⟩) := by
  have hnew : netHttpConnectionNew (scheme ssl ++ rest) =
      (fetchPort rest).map fun fetched => some ⟨ssl, fetched.1, [], fetched.2, none⟩ := by
    cases ssl with
    | false =>
      have hbegins : http <+: http ++ rest := List.prefix_append _ _
      change netHttpConnectionNew (http ++ rest) = _
      rw [netHttpConnectionNew, if_pos hbegins, List.drop_left]
      exact if_neg hne
    | true =>
      have hbegins : https <+: https ++ rest := List.prefix_append _ _
      have hnot : ¬http <+: https ++ rest := by
        intro h
        have hshort := List.prefix_of_prefix_length_le h hbegins (by decide)
        exact absurd hshort (by decide)
      change netHttpConnectionNew (https ++ rest) = _
      rw [netHttpConnectionNew, if_neg hnot, if_pos hbegins, List.drop_left]
      exact if_neg hne
  rw [connect, hnew, Option.map_map]
  rfl

theorem connect_failed {url : Str} (h : ∀ ssl rest, url = scheme ssl ++ rest → rest = []) :
    connect url = some none := by
  have hempty : ∀ ssl, scheme ssl <+: url → url.drop (scheme ssl).length = [] := by
    rintro ssl ⟨rest, hrest⟩
    rw [← hrest, List.drop_left]
    exact h ssl rest hrest.symm
  have hnew : netHttpConnectionNew url = some none := by
    rw [netHttpConnectionNew]
    by_cases hhttp : http <+: url
    · rw [if_pos hhttp]
      exact if_pos (hempty false hhttp)
    · rw [if_neg hhttp]
      by_cases hhttps : https <+: url
      · rw [if_pos hhttps]
        exact if_pos (hempty true hhttps)
      · rw [if_neg hhttps]
  rw [connect, hnew]
  rfl

theorem scheme_inj {ssl ssl' : Bool} {rest rest' : Str}
    (h : scheme ssl ++ rest = scheme ssl' ++ rest') : ssl = ssl' ∧ rest = rest' := by
  cases ssl <;> cases ssl' <;> simp [scheme, http, https] at h
  · exact ⟨rfl, h⟩
  · exact ⟨rfl, h⟩

theorem connect_isSome_iff (url : Str) : (connect url).isSome ↔ ColonsInside url := by
  by_cases h : ∃ ssl rest, url = scheme ssl ++ rest ∧ rest ≠ []
  · obtain ⟨ssl, rest, rfl, hne⟩ := h
    rw [connect_scheme ssl rest hne, Option.isSome_map, fetchPort_isSome_iff]
    constructor
    · intro hcolons ssl' rest' heq
      obtain ⟨-, rfl⟩ := scheme_inj heq
      exact hcolons
    · intro hcolons
      exact hcolons ssl rest rfl
  · have hempty : ∀ ssl rest, url = scheme ssl ++ rest → rest = [] := by
      intro ssl rest heq
      by_contra hne
      exact h ⟨ssl, rest, heq, hne⟩
    rw [connect_failed hempty]
    refine ⟨fun _ ssl rest heq hcolon => ?_, fun _ => rfl⟩
    rw [hempty ssl rest heq] at hcolon
    exact absurd hcolon List.not_mem_nil

theorem takenApart_of_fetched {port : ℤ} (hfree : colon ∉ u.host ∧ slash ∉ u.host)
    (h : fetchPort u.rest = some (port, u.host ++ slash :: u.path)) :
    TakenApart u ↔
      (if port = 0 then if u.ssl then 443 else 80 else port) = u.portNumber := by
  have hne : u.rest ≠ [] := by simp [Url.rest]
  have hdone := @done_of_scan ⟨u.ssl, port, [], u.host ++ slash :: u.path, none⟩ _ _ hfree rfl
  have hconnect := connect_scheme u.ssl u.rest hne
  rw [h, Option.map_some, hdone] at hconnect
  constructor
  · rintro ⟨conn, hconn, -, -, hport⟩
    rw [← hport]
    have heq := Option.some.inj (Option.some.inj (hconnect.symm.trans hconn))
    rw [← heq]
  · intro hport
    exact ⟨_, hconnect, rfl, rfl, hport⟩

theorem fetched_of_takenApart (h : TakenApart u) :
    ∃ fetched b, fetchPort u.rest = some fetched ∧ (b = slash ∨ b = colon) ∧
      fetched.2 = u.host ++ b :: u.path := by
  have hne : u.rest ≠ [] := by simp [Url.rest]
  obtain ⟨conn, hconn, hdomain, hlocation, -⟩ := h
  have hconnect := connect_scheme u.ssl u.rest hne
  rw [show scheme u.ssl ++ u.rest = u.text from rfl, hconn] at hconnect
  obtain ⟨fetched, hfetched, hdone⟩ := Option.map_eq_some_iff.mp hconnect.symm
  obtain ⟨⟨b, hb, hscan⟩, -⟩ := scan_of_done rfl hdone hlocation
  rw [hdomain] at hscan
  exact ⟨fetched, b, hfetched, hb, hscan⟩

theorem takenApart_iff_unported (hport : u.port = none) : TakenApart u ↔ colon ∉ u.path := by
  have hfree := u.host_free
  have hrest : u.rest = u.host ++ slash :: u.path := by
    rw [Url.rest, Url.portText, hport]
    rfl
  constructor
  · intro h hcolon
    obtain ⟨fetched, b, hfetched, -, htext⟩ := fetched_of_takenApart h
    obtain ⟨front, back, hpath, hfront⟩ := List.eq_append_cons_of_mem hcolon
    have hfirst : strtok u.rest colon = some (u.host ++ slash :: front, back) := by
      have htok : colon ∉ u.host ++ slash :: front := by
        rw [List.mem_append, List.mem_cons, not_or, not_or]
        exact ⟨hfree.1, by decide, hfront⟩
      have hfound := @strtok_token _ _ colon (u.host ++ slash :: front) back (by simp) htok
      rwa [List.append_assoc, List.cons_append, ← hpath, ← hrest] at hfound
    have huri : strchr u.rest slash = some (slash :: u.path) := by
      rw [hrest]
      exact strchr_of_not_mem hfree.2 u.path
    have hmem : colon ∈ u.rest := by simp [hrest, hcolon]
    have hbegins := prefix_of_fetched hmem hfirst huri hfetched
    rw [htext, List.append_assoc, List.prefix_append_right_inj, List.cons_append,
      List.cons_prefix_cons] at hbegins
    have htail := hbegins.2
    nth_rewrite 1 [hpath] at htail
    rw [List.prefix_append_right_inj, List.cons_prefix_cons] at htail
    exact absurd htail.1 (by decide)
  · intro hcolon
    have hmem : colon ∉ u.rest := by
      rw [hrest, List.mem_append, List.mem_cons, not_or, not_or]
      exact ⟨hfree.1, by decide, hcolon⟩
    have hfetched := fetchPort_free hmem
    nth_rewrite 2 [hrest] at hfetched
    rw [takenApart_of_fetched hfree hfetched, Url.portNumber, hport]
    rfl

theorem host_of_takenApart {d : Digits} (hport : u.port = some d) (h : TakenApart u) :
    u.host ≠ [] := by
  intro hhost
  obtain ⟨fetched, b, hfetched, hb, htext⟩ := fetched_of_takenApart h
  have hd := digits_free d
  have hrest : u.rest = colon :: (d.text ++ slash :: u.path) := by
    rw [Url.rest, Url.portText, hport, hhost]
    rfl
  cases hdigits : d.text with
  | nil => exact d.nonempty hdigits
  | cons c text =>
    have hc : c ∈ d.text := hdigits ▸ List.mem_cons_self
    have hne : c ≠ colon := fun heq => hd.1 (heq ▸ hc)
    have hfirst : ∃ tail rest, strtok u.rest colon = some (c :: tail, rest) := by
      rw [hrest, hdigits, List.cons_append, strtok_delim, strtok_cons hne,
        List.takeWhile_cons_of_pos (by simpa using hne)]
      exact ⟨_, _, rfl⟩
    obtain ⟨tail, rest, hfirst⟩ := hfirst
    have huri : strchr u.rest slash = some (slash :: u.path) := by
      have hslash : slash ∉ colon :: d.text := by
        rw [List.mem_cons, not_or]
        exact ⟨by decide, hd.2⟩
      have hfound := strchr_of_not_mem hslash u.path
      rwa [List.cons_append, ← hrest] at hfound
    have hmem : colon ∈ u.rest := hrest ▸ List.mem_cons_self
    have hbegins := prefix_of_fetched hmem hfirst huri hfetched
    rw [htext, hhost, List.nil_append, List.cons_append, List.cons_prefix_cons] at hbegins
    rcases hb with rfl | rfl
    · exact hd.2 (hbegins.1 ▸ hc)
    · exact hd.1 (hbegins.1 ▸ hc)

theorem takenApart_iff_ported {d : Digits} (hport : u.port = some d) :
    TakenApart u ↔ u.host ≠ [] ∧ decimal d.text ≠ 0 ∧ decimal d.text < 2 ^ 31 ∧
      u.host.length + 1 + u.path.length < newDomainSize := by
  have hfree := u.host_free
  have hrest : u.rest = u.host ++ colon :: (d.text ++ slash :: u.path) := by
    rw [Url.rest, Url.portText, hport]
    rfl
  have hnumber : u.portNumber = decimal d.text := by
    rw [Url.portNumber, hport]
    rfl
  have hsize : newDomainSize = 2048 := rfl
  by_cases hhost : u.host = []
  · exact ⟨fun h => absurd hhost (host_of_takenApart hport h), fun h => absurd hhost h.1⟩
  have hfetched := @fetchPort_port u.host u.path d hhost hfree
  rw [← hrest] at hfetched
  by_cases hfits : u.host.length + 1 + u.path.length < newDomainSize
  · have hwhole : (u.host ++ slash :: u.path).take (newDomainSize - 1) =
        u.host ++ slash :: u.path := by
      apply List.take_of_length_le
      rw [List.length_append, List.length_cons]
      omega
    rw [hwhole] at hfetched
    rw [takenApart_of_fetched hfree hfetched, hnumber]
    have hatoi := atoi_eq_iff d
    constructor
    · intro h
      have hdefault : (if u.ssl then 443 else 80 : ℤ) = 443 ∨
          (if u.ssl then 443 else 80 : ℤ) = 80 := by
        cases u.ssl
        · exact .inr rfl
        · exact .inl rfl
      have hbound : decimal d.text < 2 ^ 31 := by
        by_cases hzero : atoi d.text = 0
        · rw [if_pos hzero] at h
          omega
        · rw [if_neg hzero] at h
          exact hatoi.mp h
      refine ⟨hhost, ?_, hbound, hfits⟩
      intro hzero
      have hread : atoi d.text = 0 := by
        rw [hatoi.mpr hbound, hzero]
        rfl
      rw [if_pos hread, hzero] at h
      omega
    · rintro ⟨-, hzero, hbound, -⟩
      have hread := hatoi.mpr hbound
      rw [if_neg (by omega), hread]
  · refine ⟨fun h => ?_, fun h => absurd h.2.2.2 hfits⟩
    obtain ⟨fetched, b, hfetched', -, htext⟩ := fetched_of_takenApart h
    obtain rfl := Option.some.inj (hfetched.symm.trans hfetched')
    have hlen := congrArg List.length htext
    simp only [List.length_take, List.length_append, List.length_cons] at hlen
    omega

theorem takenApart_iff (u : Url) : TakenApart u ↔ Plain u := by
  cases hport : u.port with
  | none =>
    rw [Plain, hport]
    exact takenApart_iff_unported hport
  | some d =>
    rw [Plain, hport]
    exact takenApart_iff_ported hport

/-- A URL is taken apart exactly if it is plain, and `NULL` is searched exactly where a string has
a colon that is not between other bytes. -/
theorem urls_taken_apart (u : Url) (url : Str) :
    (TakenApart u ↔ Plain u) ∧ ((connect url).isSome ↔ ColonsInside url) :=
  ⟨takenApart_iff u, connect_isSome_iff url⟩

/-- `http://h/a:b` -/
def colonUrl : Url := ⟨false, [104], none, [97, 58, 98], by decide⟩

/-- The location of `http://h/a:b` becomes `a/a`. -/
theorem colon_in_path_lost :
    ¬((∀ u : Url, TakenApart u) ∧ ∀ url : Str, (connect url).isSome) := by
  rintro ⟨h, -⟩
  have hconnect : connect colonUrl.text =
      some (some ⟨false, 80, [104], [47, 97, 47, 97], some [97, 47, 97]⟩) := by decide
  obtain ⟨conn, hconn, -, hlocation, -⟩ := h colonUrl
  obtain rfl := Option.some.inj (Option.some.inj (hconnect.symm.trans hconn))
  exact absurd hlocation (by decide)

end Connecting

end RetroArch.Net.Connection
