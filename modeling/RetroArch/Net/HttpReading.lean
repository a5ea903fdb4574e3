/- Calls of the HTTP client while the header of a well-formed response comes in. -/

import RetroArch.Net.HttpResponse
import RetroArch.Net.HttpSafety

namespace RetroArch.Net.Http

open Library.CString Library.Memory Socket

/-- `net_http_update` has returned true. -/
def Place.finished : Place → Bool
  | .returned ret _ => ret
  | _ => false

/-- A step of a caller that calls until it is told that the response is there. -/
def Turn (junk : Junk) (c c' : Client) : Prop :=
  c.place.finished = false ∧ netHttpUpdate junk c = some c'

abbrev Leads (junk : Junk) : Client → Client → Prop := Relation.ReflTransGen (Turn junk)

/-- What some reads have handed over together. -/
def readBytes (calls : List (ℕ × RecvRet)) : List UInt8 :=
  calls.flatMap fun c =>
    match c.2 with
    | .data bs => bs
    | _ => []

@[simp] theorem readBytes_nil : readBytes [] = [] := rfl

@[simp] theorem readBytes_append (calls more : List (ℕ × RecvRet)) :
    readBytes (calls ++ more) = readBytes calls ++ readBytes more :=
  List.flatMap_append

/-- As long as bytes of the response are outstanding, the platform goes on answering, and
neither closes nor fails. -/
def Fair (junk : Junk) (fd : RecvEnd) : Prop :=
  ∀ c, Leads junk (start junk fd) c → c.fd.stream ≠ [] →
    ∃ answer script, c.fd.script = answer :: script ∧ answer ≠ .closed ∧ answer ≠ .error

/-- A read that handed over `bs`, or nothing for now. -/
structure Brought (fd fd' : RecvEnd) (bs : List UInt8) : Prop where
  stream : fd.stream = bs ++ fd'.stream
  calls : ∃ n, fd'.calls = fd.calls ++ [(n, if bs = [] then .again else .data bs)]
  script : fd'.script = fd.script.tail

/-- A read that found the connection closed or broken. -/
structure Ended (fd fd' : RecvEnd) : Prop where
  stream : fd'.stream = fd.stream
  calls : ∃ n ret, fd'.calls = fd.calls ++ [(n, ret)] ∧ ret ≠ .again ∧ readBytes [(n, ret)] = []
  script : ∃ rest, fd.script = .closed :: rest ∨ fd.script = .error :: rest

theorem readBytes_brought {fd fd' : RecvEnd} {bs : List UInt8} (h : Brought fd fd' bs) :
    readBytes fd'.calls = readBytes fd.calls ++ bs := by
  obtain ⟨n, hcalls⟩ := h.calls
  rw [hcalls, readBytes_append]
  split_ifs with hnil
  · rw [hnil]
    rfl
  · simp [readBytes]

theorem socketReceive_cases (fd : RecvEnd) (size : ℕ) (hsize : 0 < size) :
    (∃ bs fd', socketReceiveAllNonblocking fd size = (some bs, fd') ∧ bs.length ≤ size ∧
        Brought fd fd' bs) ∨
      ∃ fd', socketReceiveAllNonblocking fd size = (none, fd') ∧ Ended fd fd' := by
  obtain ⟨stream, script, calls⟩ := fd
  rw [socketReceiveAllNonblocking, recv, if_neg (by omega)]
  cases script with
  | nil => exact .inl ⟨[], _, rfl, Nat.zero_le _, rfl, ⟨size, rfl⟩, rfl⟩
  | cons event script =>
    cases event with
    | again => exact .inl ⟨[], _, rfl, Nat.zero_le _, rfl, ⟨size, rfl⟩, rfl⟩
    | closed => exact .inr ⟨_, rfl, rfl, ⟨size, .data [], rfl, by simp, rfl⟩, script, .inl rfl⟩
    | error => exact .inr ⟨_, rfl, rfl, ⟨size, .error, rfl, by simp, rfl⟩, script, .inr rfl⟩
    | ready n =>
      left
      have hlen := List.length_take_le (min (n + 1) size) stream
      cases htake : stream.take (min (n + 1) size) with
      | nil =>
        simp only [htake]
        exact ⟨[], _, rfl, Nat.zero_le _, rfl, ⟨size, rfl⟩, rfl⟩
      | cons b bs =>
        rw [htake] at hlen
        simp only [htake]
        refine ⟨b :: bs, _, rfl, by omega, ?_, ⟨size, ?_⟩, rfl⟩
        · simp only
          rw [← htake, List.take_append_drop]
        · simp

theorem Fair.not_ended {junk : Junk} {fd : RecvEnd} {c : Client} {fd' : RecvEnd}
    (hfair : Fair junk fd) (hreach : Leads junk (start junk fd) c) (hstream : c.fd.stream ≠ []) :
    ¬ Ended c.fd fd' := by
  intro hended
  obtain ⟨answer, script, hscript, hclosed, herror⟩ := hfair c hreach hstream
  obtain ⟨rest, hrest | hrest⟩ := hended.script
  · exact hclosed (List.cons.inj (hscript.symm.trans hrest)).1
  · exact herror (List.cons.inj (hscript.symm.trans hrest)).1

theorem Fair.script_lt {junk : Junk} {fd : RecvEnd} {c : Client} {fd' : RecvEnd}
    {bs : List UInt8} (hfair : Fair junk fd) (hreach : Leads junk (start junk fd) c)
    (hstream : c.fd.stream ≠ []) (hbrought : Brought c.fd fd' bs) :
    fd'.script.length < c.fd.script.length := by
  obtain ⟨answer, script, hscript, -⟩ := hfair c hreach hstream
  rw [hbrought.script, hscript, List.tail_cons, List.length_cons]
  exact Nat.lt_succ_self _

section Receiving

variable {h : HttpT}

theorem take_pokes (data : List UInt8) (pos : ℕ) (bs : List UInt8)
    (hfits : pos + bs.length ≤ data.length) :
    ∃ data', pokes data pos bs = some data' ∧ data'.length = data.length ∧
      data'.take (pos + bs.length) = data.take pos ++ bs := by
  have hpokes : pokes data pos bs = some (data.take pos ++ bs ++ data.drop (pos + bs.length)) := by
    rw [pokes, if_pos hfits]
  refine ⟨_, hpokes, length_pokes hpokes, ?_⟩
  apply List.take_left'
  rw [List.length_append, List.length_take]
  omega

theorem receive_cases (fd : RecvEnd) (hroomy : h.Roomy 0) :
    (∃ bs data fd', receive h fd = some (some bs.length, { h with data := data }, fd') ∧
        data.length = h.data.length ∧ h.pos + bs.length ≤ h.buflen ∧
        data.take (h.pos + bs.length) = h.data.take h.pos ++ bs ∧ Brought fd fd' bs) ∨
      ∃ fd', receive h fd = some (none, { h with error := true }, fd') ∧ Ended fd fd' := by
  have hroom := hroomy.room
  have hlength := hroomy.length
  have hsize : h.pos + (h.buflen - h.pos) ≤ h.data.length := by omega
  rw [receive, sizeSub, if_pos (by omega), Option.bind_some, if_pos hsize]
  rcases socketReceive_cases fd (h.buflen - h.pos) (by omega) with
    ⟨bs, fd', hread, hlen, hbrought⟩ | ⟨fd', hread, hended⟩
  · left
    obtain ⟨data, hpokes, hdata, htake⟩ := take_pokes h.data h.pos bs (by omega)
    refine ⟨bs, data, fd', ?_, hdata, by omega, htake, hbrought⟩
    rw [hread]
    simp only [hpokes, Option.map_some]
  · right
    exact ⟨fd', by rw [hread], hended⟩

theorem take_realloc (junk : Junk) {data : List UInt8} {n size : ℕ} (hn : n ≤ data.length)
    (hsize : n ≤ size) : (realloc junk data size).take n = data.take n := by
  rw [realloc, List.take_append_of_le_length (by rw [List.length_take]; omega), List.take_take,
    Nat.min_eq_left hsize]

theorem grow_spec (junk : Junk) {newlen : ℕ} (hlength : h.data.length = h.buflen)
    (hleast : 512 ≤ h.buflen) (hfits : h.pos + newlen ≤ h.buflen) :
    ∃ data buflen, grow junk h newlen = { h with data := data, buflen := buflen } ∧
      (grow junk h newlen).Roomy newlen ∧
      data.take (h.pos + newlen) = h.data.take (h.pos + newlen) := by
  have hroomy := grow_roomy junk hlength hleast hfits
  rw [grow] at hroomy ⊢
  split_ifs at hroomy ⊢ with hfull
  · exact ⟨_, _, rfl, hroomy, take_realloc junk (by omega) (by omega)⟩
  · exact ⟨h.data, h.buflen, rfl, hroomy, rfl⟩

end Receiving

section Lines

variable {h : HttpT} {line more : List UInt8}

theorem line_there {xs ys line rest : List UInt8} (hline : Text line)
    (h : xs ++ ys = line ++ 13 :: 10 :: rest) :
    (∃ more, xs = line ++ 13 :: 10 :: more ∧ more ++ ys = rest) ∨
      ((10 : UInt8) ∉ xs ∧ rest.length < ys.length) := by
  have hsplit : xs ++ ys = (line ++ [13, 10]) ++ rest := by simpa using h
  rcases List.append_eq_append_iff.mp hsplit with ⟨more, hxs, hys⟩ | ⟨more, hxs, hys⟩
  · cases hlast : more.reverse with
    | nil =>
      rw [List.reverse_eq_nil_iff] at hlast
      subst hlast
      left
      exact ⟨[], by simpa using hxs.symm, by simpa using hys⟩
    | cons b bs =>
      right
      rw [List.reverse_eq_cons_iff] at hlast
      subst hlast
      have hinit : line ++ [13] = xs ++ bs.reverse := by
        have heq : (line ++ [13]) ++ [10] = (xs ++ bs.reverse) ++ [b] := by
          simpa using hxs
        exact (List.append_inj' heq rfl).1
      refine ⟨?_, by rw [hys]; simp; omega⟩
      intro hmem
      have hin : (10 : UInt8) ∈ line ++ [13] := hinit ▸ List.mem_append_left _ hmem
      rcases List.mem_append.mp hin with hl | hl
      · exact (hline 10 hl).2.1 rfl
      · exact absurd hl (by decide)
  · left
    exact ⟨more, by simpa using hxs, hys.symm⟩

theorem endLine_absent (hpos : h.pos ≤ h.data.length)
    (habsent : (10 : UInt8) ∉ h.data.take h.pos) : endLine h = some none := by
  rw [endLine, memchr_absent 0 h.pos (by omega) (by rw [List.drop_zero]; exact habsent)]
  rfl

theorem endLine_text (hpos : h.pos ≤ h.data.length) (hline : Text line)
    (htake : h.data.take h.pos = line ++ 13 :: 10 :: more) :
    endLine h = some (some (line.length + 1, line ++ 0 :: 0 :: (more ++ h.data.drop h.pos))) := by
  have hdata : h.data = line ++ 13 :: 10 :: (more ++ h.data.drop h.pos) := by
    conv_lhs => rw [← List.take_append_drop h.pos h.data, htake]
    simp
  have hbefore : (10 : UInt8) ∉ line ++ [13] := by
    intro hmem
    rcases List.mem_append.mp hmem with hl | hl
    · exact (hline 10 hl).2.1 rfl
    · exact absurd hl (by decide)
  have hfound : memchr h.data 10 0 h.pos = some (some (line.length + 1)) := by
    rw [memchr_first 0 h.pos (line ++ [13]) more (by omega)
      (by rw [List.drop_zero, htake]; simp) hbefore]
    simp
  have hset : h.data.set (line.length + 1) 0 =
      line ++ 13 :: 0 :: (more ++ h.data.drop h.pos) := by
    conv_lhs => rw [hdata]
    rw [List.set_append_right _ _ (by omega)]
    simp
  have hlong : line.length + 1 < h.data.length := by
    rw [hdata]
    simp
  rw [endLine, hfound, Option.bind_some]
  simp only [poke_of_lt hlong, Option.bind_some, hset]
  rw [if_neg (by omega), Nat.add_sub_cancel, peeks_of_le (by simp), Option.bind_some,
    List.drop_left, List.take_succ_cons, List.take_zero, if_pos rfl, poke_of_lt (by simp),
    Option.map_some, List.set_append_right _ _ (Nat.le_refl _), Nat.sub_self, List.set_cons_zero]

theorem dropLine_text {beyond : List UInt8}
    (hdata : h.data = line ++ 0 :: 0 :: (more ++ beyond))
    (hpos : h.pos = line.length + 2 + more.length) :
    ∃ data, dropLine h (line.length + 1) = some { h with data := data, pos := more.length } ∧
      data.length = h.data.length ∧ data.take more.length = more := by
  have hdrop : (h.data.drop (line.length + 1 + 1)).take more.length = more := by
    have hsplit : h.data = (line ++ [0, 0]) ++ (more ++ beyond) := by simp [hdata]
    rw [hsplit, List.drop_left' (by simp), List.take_left' rfl]
  have hlong : line.length + 2 + more.length ≤ h.data.length := by
    rw [hdata]
    simp only [List.length_append, List.length_cons]
    omega
  obtain ⟨data, hpokes, hlen, htake⟩ := take_pokes h.data 0 more (by omega)
  refine ⟨data, ?_, hlen, by simpa using htake⟩
  rw [dropLine, sizeSub, if_pos (by omega), Option.bind_some,
    show h.pos - (line.length + 1 + 1) = more.length by omega, memmove,
    peeks_of_le (by omega), Option.bind_some, hdrop, hpokes, Option.map_some]

theorem text_no_nul (hline : Text line) : (0 : UInt8) ∉ line := fun hmem => (hline 0 hmem).1 rfl

theorem lengthHeader_text {rest : List UInt8} (hdata : h.data = line ++ 0 :: rest) :
    lengthHeader h = some
      (if contentLength <+: line then { h with bodytype := .len, len := lengthOf line }
      else h) := by
  rw [lengthHeader, hdata, startsWith_string contentLength line rest (by decide),
    Option.bind_some]
  by_cases hname : contentLength <+: line
  · have hlong : 16 ≤ line.length := hname.length_le
    have hdrop : (line ++ 0 :: rest).drop 16 = (line.drop 16 ++ [0]) ++ rest := by
      rw [List.drop_append_of_le_length hlong]
      simp
    have hends : NumberEnds 10 (line.drop 16 ++ [0]) := numberEnds_of_nul 10 (by simp)
    obtain ⟨n, hn⟩ := strtol_isSome hends
    rw [if_pos (by simpa using hname), if_pos hname, hdrop, strtol_append rest hends, lengthOf, hn]
    rfl
  · rw [if_neg (by simpa using hname), if_neg hname]

theorem codingHeader_text {rest : List UInt8} (hline : Text line)
    (hdata : h.data = line ++ 0 :: rest) :
    codingHeader h = some
      (if line = transferEncodingChunked then { h with bodytype := .chunk } else h) := by
  rw [codingHeader, hdata, strcmpEq_string transferEncodingChunked line rest (by decide)
    (text_no_nul hline), Option.map_some]
  by_cases hcoding : line = transferEncodingChunked
  · rw [if_pos (by simpa using hcoding), if_pos hcoding]
  · rw [if_neg (by simpa using hcoding), if_neg hcoding]

theorem emptyLine_text {rest : List UInt8} (hline : Text line)
    (hdata : h.data = line ++ 0 :: rest) :
    emptyLine h = some
      (if line = [] then
        { h with part := if h.bodytype = .chunk then .bodyChunklen else .body }
      else h) := by
  rw [emptyLine, hdata]
  cases line with
  | nil => rfl
  | cons b bs =>
    have hb : b ≠ 0 := (hline b List.mem_cons_self).1
    rw [peeks_of_le (by simp), Option.map_some, List.drop_zero, List.cons_append,
      List.take_succ_cons, List.take_zero, if_neg (by simpa using hb), if_neg (by simp)]

theorem headerLine_text {rest : List UInt8} (hline : Text line) (hne : line ≠ [])
    (hdata : h.data = line ++ 0 :: rest) :
    headerLine h = some { h with
      bodytype := (hear (h.bodytype, h.len) line).1
      len := (hear (h.bodytype, h.len) line).2 } := by
  have hheard : ∀ h' : HttpT, h'.data = h.data →
      (codingHeader h').bind emptyLine = some
        (if line = transferEncodingChunked then { h' with bodytype := .chunk } else h') := by
    intro h' hdata'
    have hcoded : ∀ h'' : HttpT, h''.data = h.data → emptyLine h'' = some h'' := by
      intro h'' hdata''
      rw [emptyLine_text hline (hdata''.trans hdata), if_neg hne]
    rw [codingHeader_text hline (hdata'.trans hdata), Option.bind_some]
    split_ifs
    · exact hcoded _ hdata'
    · exact hcoded _ hdata'
  rw [headerLine, lengthHeader_text hdata, Option.bind_some, hear]
  by_cases hname : contentLength <+: line
  · simp only [if_pos hname]
    rw [hheard { h with bodytype := .len, len := lengthOf line } rfl]
    split_ifs <;> rfl
  · simp only [if_neg hname]
    rw [hheard h rfl]
    split_ifs <;> rfl

theorem headerLine_empty {rest : List UInt8} (hdata : h.data = 0 :: rest) :
    headerLine h = some
      { h with part := if h.bodytype = .chunk then .bodyChunklen else .body } := by
  have htext : Text [] := fun b hb => absurd hb List.not_mem_nil
  have hstring : h.data = [] ++ 0 :: rest := hdata
  rw [headerLine, lengthHeader_text hstring, if_neg (by decide), Option.bind_some,
    codingHeader_text htext hstring, if_neg (by decide), Option.bind_some,
    emptyLine_text htext hstring, if_pos rfl]

end Lines

section Headers

variable {r : Response} {h : HttpT} {fd : RecvEnd} {junk : Junk}

def Response.status (r : Response) : ℤ := numeral 10 r.code

/-- The lines that are still to come, for where the client stands in the header. -/
inductive Stage (r : Response) (h : HttpT) : List (List UInt8) → Prop
  | top (hpart : h.part = .headerTop) (hkind : (h.bodytype, h.len) = (.full, 0)) :
      Stage r h (r.statusLine :: r.fields)
  | fields (done lines : List (List UInt8)) (hfields : r.fields = done ++ lines)
      (hpart : h.part = .header) (hstatus : h.status = r.status)
      (hkind : (h.bodytype, h.len) = heard done) : Stage r h lines

/-- What is in the buffer and what is on its way are the lines to come and the body. -/
structure Listening (r : Response) (h : HttpT) (fd : RecvEnd) (lines : List (List UInt8)) :
    Prop where
  roomy : h.Roomy 0
  live : h.error = false
  log : readBytes fd.calls ++ fd.stream = r.bytes
  bytes : h.data.take h.pos ++ fd.stream = headText lines ++ r.wire
  stage : Stage r h lines

/-- The header is over, and `k` bytes of the body have come with it. -/
structure Headed (r : Response) (h : HttpT) (fd : RecvEnd) (k : ℕ) : Prop where
  roomy : h.Roomy k
  live : h.error = false
  log : readBytes fd.calls ++ fd.stream = r.bytes
  pos : h.pos = 0
  bytes : h.data.take k ++ fd.stream = r.wire
  part : h.part = if h.bodytype = .chunk then .bodyChunklen else .body
  status : h.status = r.status
  kind : (h.bodytype, h.len) = heard r.fields

theorem Stage.inHeader {lines : List (List UInt8)} (hs : Stage r h lines) :
    h.part.inHeader = true := by
  cases hs with
  | top hpart => rw [hpart]; rfl
  | fields _ _ _ hpart => rw [hpart]; rfl

theorem headText_cons (line : List UInt8) (lines : List (List UInt8)) :
    headText (line :: lines) = line ++ 13 :: 10 :: headText lines := by
  simp [headText, crlf]

theorem headText_nil : headText [] = 13 :: 10 :: [] := rfl

theorem numeral_foldl_lt {base : ℕ} (digits : List UInt8)
    (hdigits : ∀ b ∈ digits, (digitOf base b).isSome) (n m : ℕ) (hn : n < m) :
    digits.foldl (fun n b => n * base + (digitOf base b).getD 0) n < m * base ^ digits.length := by
  induction digits generalizing n m with
  | nil => simpa using hn
  | cons b bs ih =>
    obtain ⟨d, hd⟩ := Option.isSome_iff_exists.mp (hdigits b List.mem_cons_self)
    have hlt : d < base := by
      rw [digitOf, Option.filter_eq_some_iff] at hd
      simpa using hd.2
    rw [List.foldl_cons, hd, Option.getD_some, List.length_cons, Nat.pow_succ', ← Nat.mul_assoc]
    apply ih (fun b hb => hdigits b (List.mem_cons_of_mem _ hb))
    calc n * base + d < n * base + base := Nat.add_lt_add_left hlt _
      _ = (n + 1) * base := (Nat.succ_mul n base).symm
      _ ≤ m * base := Nat.mul_le_mul_right base hn

theorem numeral_lt {base : ℕ} {digits : List UInt8} (hdigits : Digits base digits) :
    numeral base digits < base ^ digits.length := by
  have hlt := numeral_foldl_lt digits hdigits.2 0 1 Nat.zero_lt_one
  rwa [Nat.one_mul] at hlt

theorem text_digits {base : ℕ} {digits : List UInt8} (h : ∀ b ∈ digits, (digitOf base b).isSome) :
    Text digits := by
  intro b hb
  have hleast := digit_least (h b hb)
  refine ⟨?_, ?_, ?_⟩
  all_goals
    rintro rfl
    exact absurd hleast (by decide)

theorem text_statusLine (hr : r.WellFormed) : Text r.statusLine := by
  intro b hb
  rw [Response.statusLine, List.mem_append, List.mem_append, List.mem_cons] at hb
  rcases hb with (hb | hb) | rfl | hb
  · have hname : Text (httpOne ++ [49, 32]) := text_of_all (by decide)
    exact hname b hb
  · exact text_digits hr.code.1.2 b hb
  · decide
  · exact hr.reason b hb

theorem statusLine_text (hr : r.WellFormed) {rest : List UInt8}
    (hdata : h.data = r.statusLine ++ 0 :: rest) :
    statusLine h = some (some { h with status := r.status, part := .header }) := by
  have hhttp : httpOne <+: r.statusLine := ⟨[49, 32] ++ r.code ++ 32 :: r.reason, by
    simp [Response.statusLine]⟩
  have hdrop : (r.statusLine ++ 0 :: rest).drop 9 =
      [] ++ r.code ++ 32 :: (r.reason ++ 0 :: rest) := by
    have hsplit : r.statusLine ++ 0 :: rest =
        (httpOne ++ [49, 32]) ++ (r.code ++ 32 :: (r.reason ++ 0 :: rest)) := by
      simp [Response.statusLine]
    rw [hsplit, List.nil_append]
    rfl
  have hlt := numeral_lt hr.code.1
  rw [hr.code.2] at hlt
  have hread : strtoul 10 ((r.statusLine ++ 0 :: rest).drop 9) = some (numeral 10 r.code) := by
    rw [hdrop]
    exact strtoul_numeral [] r.code _ (fun b hb => absurd hb List.not_mem_nil) hr.code.1.1
      hr.code.1.2 ⟨32, _, rfl, rfl, by decide, by decide⟩ (Nat.lt_trans hlt (by decide))
  have hint : (BitVec.ofNat 32 (numeral 10 r.code)).toInt = r.status := by
    have hnat : (BitVec.ofNat 32 (numeral 10 r.code)).toNat = numeral 10 r.code := by
      rw [BitVec.toNat_ofNat, Nat.mod_eq_of_lt (by omega)]
    rw [BitVec.toInt_eq_toNat_of_lt (by rw [hnat]; omega), hnat, Response.status]
  rw [statusLine, hdata, startsWith_string httpOne r.statusLine rest (by decide),
    Option.bind_some, if_pos (by simpa using hhttp), hread, Option.map_some, hint]

theorem stepHeaders_line {line more : List UInt8} (fd : RecvEnd) (h' : HttpT)
    (hheader : h.part.inHeader = true) (hpos : h.pos ≤ h.data.length) (hline : Text line)
    (htake : h.data.take h.pos = line ++ 13 :: 10 :: more)
    (hparsed : ∀ data, data = line ++ 0 :: 0 :: (more ++ h.data.drop h.pos) →
      if h.part = .headerTop then
        statusLine { h with data := data } = some (some { h' with data := data })
      else headerLine { h with data := data } = some { h' with data := data })
    (hpos' : h'.pos = h.pos) :
    ∃ data, stepHeaders h fd =
        some ⟨{ h' with data := data, pos := more.length }, fd, .headers⟩ ∧
      data.length = h.data.length ∧ data.take more.length = more := by
  have hlen : h.pos = line.length + 2 + more.length := by
    have htaken := congrArg List.length htake
    rw [List.length_take, List.length_append, List.length_cons, List.length_cons] at htaken
    omega
  obtain ⟨data, hdrop, hdata, hkept⟩ := dropLine_text
    (h := { h' with data := line ++ 0 :: 0 :: (more ++ h.data.drop h.pos) }) rfl
    (hpos'.trans hlen)
  refine ⟨data, ?_, ?_, hkept⟩
  · rw [stepHeaders, if_pos hheader, endLine_text hpos hline htake, Option.bind_some]
    have hunderstood := hparsed _ rfl
    by_cases htop : h.part = .headerTop
    · rw [if_pos htop] at hunderstood
      simp only [if_pos htop]
      rw [hunderstood, Option.bind_some]
      simp only [hdrop, Option.map_some]
    · rw [if_neg htop] at hunderstood
      simp only [if_neg htop]
      rw [hunderstood, Option.bind_some]
      simp only [hdrop, Option.map_some]
  · rw [hdata, List.length_append, List.length_cons, List.length_cons, List.length_append,
      List.length_drop]
    omega

theorem stepHeaders_absent (fd : RecvEnd) (hheader : h.part.inHeader = true)
    (hpos : h.pos ≤ h.data.length) (habsent : (10 : UInt8) ∉ h.data.take h.pos) :
    stepHeaders h fd = some (finish h fd) := by
  rw [stepHeaders, if_pos hheader, endLine_absent hpos habsent]
  rfl

theorem Listening.pos_le {lines : List (List UInt8)} (hl : Listening r h fd lines) :
    h.pos ≤ h.data.length := by
  have hroom := hl.roomy.room
  have hlength := hl.roomy.length
  omega

theorem headers_turn {c : Client} (hstep : stepHeaders h fd = some c) :
    Turn junk ⟨h, fd, .headers⟩ c := ⟨rfl, hstep⟩

theorem headers_wait (junk : Junk) {lines : List (List UInt8)} (hl : Listening r h fd lines)
    (habsent : (10 : UInt8) ∉ h.data.take h.pos) :
    ∃ out, Leads junk ⟨h, fd, .headers⟩ ⟨h, fd, .returned false out⟩ := by
  have hstep := stepHeaders_absent fd hl.stage.inHeader hl.pos_le habsent
  have hnot : h.part ≠ .done := by
    intro hdone
    have hheader := hl.stage.inHeader
    rw [hdone] at hheader
    exact absurd hheader (by decide)
  have hfinish : finish h fd =
      ⟨h, fd, .returned false (some (h.pos, if h.bodytype = .len then h.len else 0))⟩ := by
    rw [finish, decide_eq_false hnot]
  exact ⟨_, .single (headers_turn (hfinish ▸ hstep))⟩

/-- What a listening client holds after it has taken a line out of its buffer. -/
theorem Listening.next {line more : List UInt8} {lines lines' : List (List UInt8)} {h' : HttpT}
    {data : List UInt8} (hl : Listening r h fd lines)
    (htake : h.data.take h.pos = line ++ 13 :: 10 :: more) (hdata : data.length = h.data.length)
    (hkept : data.take more.length = more) (hbuflen : h'.buflen = h.buflen)
    (herror : h'.error = h.error) (hmore : more ++ fd.stream = headText lines' ++ r.wire)
    (hstage : Stage r { h' with data := data, pos := more.length } lines') :
    Listening r { h' with data := data, pos := more.length } fd lines' := by
  have hroom := hl.roomy.room
  have hlen := congrArg List.length htake
  rw [List.length_take, List.length_append, List.length_cons, List.length_cons] at hlen
  refine ⟨⟨?_, ?_, ?_⟩, herror.trans hl.live, hl.log, ?_, hstage⟩
  · exact (hdata.trans hl.roomy.length).trans hbuflen.symm
  · exact hbuflen ▸ hl.roomy.least
  · simp only
    omega
  · simp only
    rw [hkept, hmore]

theorem headers_loop (junk : Junk) (hr : r.WellFormed) (lines : List (List UInt8))
    (hl : Listening r h fd lines) :
    ∃ c, Leads junk ⟨h, fd, .headers⟩ c ∧
      ((∃ h' lines' out, c = ⟨h', fd, .returned false out⟩ ∧ Listening r h' fd lines' ∧
          r.wire.length < fd.stream.length) ∨
        ∃ h' k, c = ⟨h', fd, .body k⟩ ∧ Headed r h' fd k) := by
  induction lines generalizing h with
  | nil =>
    have hbytes := hl.bytes
    rw [headText_nil] at hbytes
    have hempty : Text [] := fun b hb => absurd hb List.not_mem_nil
    rcases line_there hempty (hbytes : _ = [] ++ 13 :: 10 :: r.wire) with
      ⟨more, htake, hmore⟩ | ⟨habsent, hlong⟩
    · cases hl.stage with
      | fields done _ hfields hpart hstatus hkind =>
        obtain ⟨data, hstep, hdata, hkept⟩ := stepHeaders_line fd
          { h with part := if h.bodytype = .chunk then .bodyChunklen else .body }
          hl.stage.inHeader hl.pos_le hempty htake
          (fun data hdata => by
            rw [if_neg (by rw [hpart]; decide)]
            exact headerLine_empty hdata) rfl
        have hroom := hl.roomy.room
        have hlen := congrArg List.length htake
        rw [List.length_take, List.nil_append, List.length_cons, List.length_cons] at hlen
        -- behind the empty line the loop is left
        have hout : stepHeaders
            { h with
              part := if h.bodytype = .chunk then .bodyChunklen else .body
              data := data
              pos := more.length } fd =
            some ⟨{ h with
              part := if h.bodytype = .chunk then .bodyChunklen else .body
              data := data
              pos := 0 }, fd, .body more.length⟩ := by
          rw [stepHeaders, if_neg]
          simp only
          split_ifs <;> decide
        refine ⟨_, .head (headers_turn hstep) (.single (headers_turn hout)),
          .inr ⟨_, more.length, rfl, ?_⟩⟩
        refine ⟨⟨hdata.trans hl.roomy.length, hl.roomy.least, ?_⟩, hl.live, hl.log, rfl, ?_,
          rfl, hstatus, ?_⟩
        · simp only
          omega
        · simp only
          rw [hkept, hmore]
          rfl
        · rw [hfields, List.append_nil]
          exact hkind
    · obtain ⟨out, hwait⟩ := headers_wait junk hl habsent
      exact ⟨_, hwait, .inl ⟨h, [], out, rfl, hl, hlong⟩⟩
  | cons line lines ih =>
    have hbytes := hl.bytes
    rw [headText_cons, List.append_assoc, List.cons_append, List.cons_append] at hbytes
    have htext : Text line := by
      cases hl.stage with
      | top => exact text_statusLine hr
      | fields done _ hfields => exact (hr.fields line (by simp [hfields])).1
    rcases line_there htext hbytes with ⟨more, htake, hmore⟩ | ⟨habsent, hlong⟩
    · obtain ⟨h', data, hstep, hnext⟩ : ∃ (h' : HttpT) (data : List UInt8),
          stepHeaders h fd =
            some ⟨{ h' with data := data, pos := more.length }, fd, .headers⟩ ∧
          Listening r { h' with data := data, pos := more.length } fd lines := by
        cases hl.stage with
        | top hpart hkind =>
          obtain ⟨data, hstep, hdata, hkept⟩ := stepHeaders_line fd
            { h with status := r.status, part := .header } hl.stage.inHeader
            hl.pos_le htext htake
            (fun data hdata => by
              rw [if_pos hpart]
              exact statusLine_text (h := { h with data := data }) hr hdata) rfl
          exact ⟨{ h with status := r.status, part := .header }, data, hstep,
            hl.next htake hdata hkept rfl rfl hmore (.fields [] _ rfl rfl rfl hkind)⟩
        | fields done _ hfields hpart hstatus hkind =>
          have hne := (hr.fields line (by simp [hfields])).2
          obtain ⟨data, hstep, hdata, hkept⟩ := stepHeaders_line fd
            { h with
              bodytype := (hear (h.bodytype, h.len) line).1
              len := (hear (h.bodytype, h.len) line).2 } hl.stage.inHeader
            hl.pos_le htext htake
            (fun data hdata => by
              rw [if_neg (by rw [hpart]; decide)]
              exact headerLine_text (h := { h with data := data }) htext hne hdata) rfl
          refine ⟨_, data, hstep, hl.next htake hdata hkept rfl rfl hmore
            (.fields (done ++ [line]) _ (by simp [hfields]) hpart hstatus ?_)⟩
          rw [heard, List.foldl_append, List.foldl_cons, List.foldl_nil, ← heard, ← hkind]
      obtain ⟨c, hleads, hend⟩ := ih hnext
      exact ⟨c, .head (headers_turn hstep) hleads, hend⟩
    · obtain ⟨out, hwait⟩ := headers_wait junk hl habsent
      refine ⟨_, hwait, .inl ⟨h, line :: lines, out, rfl, hl, ?_⟩⟩
      rw [List.length_append] at hlong
      omega

end Headers

end RetroArch.Net.Http
