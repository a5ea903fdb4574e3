/- What the HTTP client hands out for a well-formed response, however its bytes arrive. -/

import RetroArch.Net.HttpReading

set_option maxRecDepth 10000

namespace RetroArch.Net.Http

open Library.CString Library.Memory Socket

section Verdict

variable {r : Response}

/-- No error, the status, and exactly the body with its length; without `accept_error` the data
is handed out for the codes from 200 to 299. -/
def Delivered (r : Response) (c : Client) : Prop :=
  c.state.error = false ∧ netHttpStatus c.state = r.status ∧
    ∀ acceptError : Bool, acceptError = true ∨ (200 ≤ r.status ∧ r.status ≤ 299) →
      netHttpData c.state acceptError = (some r.body, r.body.length)

/-- Some reads end exactly with the header, and the read after them brings nothing for now. -/
def Quiet (r : Response) (calls : List (ℕ × RecvRet)) : Prop :=
  ∃ before n after, calls = before ++ (n, .again) :: after ∧ readBytes before = r.header

/-- The header spells the coding as `Transfer-Encoding: chunked`, or the length behind
`Content-Length: ` and there is a body; or there is no body and no close right after the header. -/
def Understood (r : Response) (calls : List (ℕ × RecvRet)) : Prop :=
  transferEncodingChunked ∈ r.fields ∨ (NamesLength r.fields ∧ r.body ≠ []) ∨
    (r.body = [] ∧ Quiet r calls)

/-- The call has returned true, and the body is there just when the response was understood. -/
def Settled (r : Response) (c : Client) : Prop :=
  c.place.finished = true ∧ (Delivered r c ↔ Understood r c.fd.calls)

/-- The header was not complete before the last read. -/
def Late (r : Response) (calls : List (ℕ × RecvRet)) : Prop :=
  ∃ before last, calls = before ++ [last] ∧ (readBytes before).length < r.header.length

theorem not_quiet_of_late {calls : List (ℕ × RecvRet)} (hlate : Late r calls) :
    ¬ Quiet r calls := by
  obtain ⟨before, last, rfl, hlt⟩ := hlate
  rintro ⟨pre, n, post, heq, hheader⟩
  have hlen := congrArg List.length heq
  simp only [List.length_append, List.length_cons, List.length_nil] at hlen
  have hp : pre <+: before :=
    List.prefix_of_prefix_length_le ⟨(n, .again) :: post, heq.symm⟩ ⟨[last], rfl⟩ (by omega)
  obtain ⟨rest, rfl⟩ := hp
  rw [readBytes_append, List.length_append, hheader] at hlt
  omega

theorem not_quiet_next {calls : List (ℕ × RecvRet)} (hlate : Late r calls) {n : ℕ}
    {ret : RecvRet} (hret : ret ≠ .again) : ¬ Quiet r (calls ++ [(n, ret)]) := by
  rintro ⟨pre, m, post, heq, hheader⟩
  rcases List.eq_nil_or_concat post with rfl | ⟨post, last, rfl⟩
  · obtain ⟨-, hlast⟩ := List.append_inj' heq rfl
    obtain ⟨hlast, -⟩ := List.cons.inj hlast
    exact hret (congrArg Prod.snd hlast)
  · have hsplit : calls ++ [(n, ret)] = (pre ++ (m, .again) :: post) ++ [last] := by
      simpa using heq
    exact not_quiet_of_late hlate ⟨pre, m, post, (List.append_inj' hsplit rfl).1, hheader⟩

theorem delivered_of_body {c : Client} (hlive : c.state.error = false)
    (hstatus : c.state.status = r.status) (hdata : c.state.data = r.body)
    (hlen : c.state.len = r.body.length) : Delivered r c := by
  refine ⟨hlive, hstatus, ?_⟩
  intro acceptError haccept
  have hpass : (!acceptError && netHttpError c.state) = false := by
    rcases haccept with rfl | ⟨hlow, hhigh⟩
    · rfl
    · have hok : netHttpError c.state = false := by
        simp [netHttpError, hlive, hstatus]
        omega
      rw [hok, Bool.and_false]
  rw [netHttpData, hpass, if_neg (by decide), hdata, hlen]

end Verdict

section First

variable {junk : Junk} {r : Response} {h : HttpT} {fd : RecvEnd}

theorem stepBody_read (junk : Junk) (fd : RecvEnd) (hroomy : h.Roomy 0)
    (hbody : h.part.inBody = true) :
    (∃ bs data buflen fd',
        stepBody junk h fd 0 =
          some ⟨{ h with data := data, buflen := buflen }, fd', .parseAgain bs.length⟩ ∧
        ({ h with data := data, buflen := buflen } : HttpT).Roomy bs.length ∧
        data.take (h.pos + bs.length) = h.data.take h.pos ++ bs ∧ Brought fd fd' bs) ∨
      ∃ fd', Ended fd fd' ∧ stepBody junk h fd 0 = some
        (if h.bodytype = .full then
          ⟨grow junk (finishBody junk { h with error := true }) 0, fd', .parseAgain 0⟩
        else fail { h with error := true } fd') := by
  rw [stepBody, if_pos hbody, if_pos rfl]
  rcases receive_cases fd hroomy with
    ⟨bs, data, fd', hreceive, hdata, hfits, htake, hbrought⟩ | ⟨fd', hreceive, hended⟩
  · left
    obtain ⟨data', buflen, hgrow, hgrown, hkept⟩ := grow_spec junk
      (h := { h with data := data }) (hdata.trans hroomy.length) hroomy.least hfits
    rw [hgrow] at hgrown
    refine ⟨bs, data', buflen, fd', ?_, hgrown, hkept.trans htake, hbrought⟩
    rw [hreceive, Option.map_some]
    simp only [hgrow]
  · right
    refine ⟨fd', hended, ?_⟩
    rw [hreceive, Option.map_some]

theorem body_turn {newlen : ℕ} {c : Client} (hstep : stepBody junk h fd newlen = some c) :
    Turn junk ⟨h, fd, .body newlen⟩ c := ⟨rfl, hstep⟩

theorem parse_turn {newlen : ℕ} {c : Client} (hstep : stepParse junk h fd newlen = some c) :
    Turn junk ⟨h, fd, .parseAgain newlen⟩ c := ⟨rfl, hstep⟩

theorem Headed.inBody {k : ℕ} (hh : Headed r h fd k) : h.part.inBody = true := by
  rw [hh.part]
  split_ifs <;> rfl

theorem unnamed_fails (junk : Junk) (fd : RecvEnd) {k : ℕ} (hkind : h.bodytype ≠ .chunk)
    (hzero : h.len = 0) (hpos : h.pos = 0) (hk : k ≠ 0) :
    stepParse junk h fd k = some (fail { h with pos := h.pos + k } fd) := by
  have hne : ¬ h.pos + k = h.len := by omega
  have hgt : h.pos + k > h.len := by omega
  rw [stepParse, if_neg hkind, stepWhole]
  simp only [if_neg hne, if_pos hgt]

theorem unnamed_ends (junk : Junk) (fd : RecvEnd) (hkind : h.bodytype ≠ .chunk)
    (hzero : h.len = 0) (hpos : h.pos = 0) :
    ∃ out, stepParse junk h fd 0 =
      some ⟨finishBody junk h, fd, .returned true out⟩ := by
  have heq : h.pos + 0 = h.len := by omega
  have hstate : ({ h with pos := h.pos + 0 } : HttpT) = h := rfl
  rw [stepParse, if_neg hkind, stepWhole]
  simp only [if_pos heq, hstate]
  rw [if_neg (by simp only [finishBody]; omega)]
  exact ⟨_, rfl⟩

theorem fail_settled {c : HttpT} (hnot : ¬ Understood r fd.calls) : Settled r (fail c fd) := by
  refine ⟨rfl, ⟨fun hdelivered => ?_, fun hunderstood => absurd hunderstood hnot⟩⟩
  exact absurd hdelivered.1 (by simp [fail])

/-- A response whose framing is not understood, or that has the length 0, is settled by the
first look at its body. -/
theorem unnamed_settled (junk : Junk) {k : ℕ} (hh : Headed r h fd k) (hlate : Late r fd.calls)
    (hkind : h.bodytype ≠ .chunk) (hzero : h.len = 0)
    (hcoding : transferEncodingChunked ∉ r.fields) (hlength : NamesLength r.fields → r.body = []) :
    ∃ c, Leads junk ⟨h, fd, .body k⟩ c ∧ Settled r c := by
  have hunderstood : ∀ calls, Understood r calls ↔ r.body = [] ∧ Quiet r calls := by
    intro calls
    constructor
    · rintro (hmem | ⟨hnames, hbody⟩ | hquiet)
      · exact absurd hmem hcoding
      · exact absurd (hlength hnames) hbody
      · exact hquiet
    · exact fun hquiet => .inr (.inr hquiet)
  by_cases hk : k = 0
  · subst hk
    have hwire : fd.stream = r.wire := by
      have hbytes := hh.bytes
      rwa [List.take_zero, List.nil_append] at hbytes
    have hheader : readBytes fd.calls = r.header := by
      have hlog := hh.log
      rw [hwire, Response.bytes] at hlog
      exact List.append_cancel_right hlog
    rcases stepBody_read junk fd hh.roomy hh.inBody with
      ⟨bs, data, buflen, fd', hstep, -, -, hbrought⟩ | ⟨fd', hended, hstep⟩
    · obtain ⟨n, hcalls⟩ := hbrought.calls
      cases bs with
      | nil =>
        obtain ⟨out, hparse⟩ := unnamed_ends junk fd'
          (h := { h with data := data, buflen := buflen }) hkind hzero hh.pos
        refine ⟨_, .head (body_turn hstep) (.single (parse_turn hparse)), rfl, ?_⟩
        have hquiet : Quiet r fd'.calls := ⟨fd.calls, n, [], hcalls, hheader⟩
        rw [hunderstood, and_iff_left hquiet]
        constructor
        · intro hdelivered
          have hdata := hdelivered.2.2 true (.inl rfl)
          have hlen := congrArg Prod.snd hdata
          exact List.length_eq_zero_iff.mp (hlen.symm.trans hzero)
        · intro hempty
          apply delivered_of_body hh.live hh.status
          · simp [finishBody, hzero, realloc, hempty]
          · simp [finishBody, hzero, hempty]
      | cons b bs =>
        have hfails := unnamed_fails junk fd' (k := (b :: bs).length)
          (h := { h with data := data, buflen := buflen }) hkind hzero hh.pos (by simp)
        refine ⟨_, .head (body_turn hstep) (.single (parse_turn hfails)), fail_settled ?_⟩
        rw [hunderstood, hcalls, if_neg (by simp)]
        exact fun hquiet => not_quiet_next hlate (by simp) hquiet.2
    · obtain ⟨n, ret, hcalls, hret, -⟩ := hended.calls
      have hnot : ¬ Understood r fd'.calls := by
        rw [hunderstood, hcalls]
        exact fun hquiet => not_quiet_next hlate hret hquiet.2
      split_ifs at hstep with hfull
      · -- the error of the read stays
        obtain ⟨out, hparse⟩ := unnamed_ends junk fd'
          (h := grow junk (finishBody junk { h with error := true }) 0)
          (by simpa [finishBody] using hkind) (by simpa [finishBody] using hzero)
          (by simpa [finishBody] using hh.pos)
        refine ⟨_, .head (body_turn hstep) (.single (parse_turn hparse)), rfl, ?_⟩
        constructor
        · intro hdelivered
          have hlive := hdelivered.1
          simp [finishBody] at hlive
        · exact fun hunder => absurd hunder hnot
      · exact ⟨_, .single (body_turn hstep), fail_settled hnot⟩
  · have hstep : stepBody junk h fd k = some ⟨h, fd, .parseAgain k⟩ := by
      rw [stepBody, if_pos hh.inBody, if_neg hk]
    have hfails := unnamed_fails junk fd hkind hzero hh.pos hk
    refine ⟨_, .head (body_turn hstep) (.single (parse_turn hfails)), fail_settled ?_⟩
    rw [hunderstood]
    exact fun hquiet => not_quiet_of_late hlate hquiet.2

end First

section Chunks

variable {junk : Junk} {r : Response} {h : HttpT} {fd : RecvEnd} {k : ℕ}

/-- A counted body of which a part is there. -/
structure Counting (r : Response) (h : HttpT) (fd : RecvEnd) (k : ℕ) : Prop where
  roomy : h.Roomy k
  live : h.error = false
  status : h.status = r.status
  bodytype : h.bodytype = .len
  part : h.part = .body
  len : h.len = r.body.length
  bytes : h.data.take (h.pos + k) ++ fd.stream = r.body

/-- Behind the decoded bytes `done` the size of a chunk is expected, and the bytes `held` are
there of its line and what follows; `lead` is the line end of the chunk before. -/
structure Sizing (r : Response) (h : HttpT) (fd : RecvEnd) (k : ℕ)
    (done held lead wire body : List UInt8) : Prop where
  roomy : h.Roomy k
  live : h.error = false
  status : h.status = r.status
  bodytype : h.bodytype = .chunk
  part : h.part = .bodyChunklen
  data : h.data.take (h.pos + k) = done ++ held
  len : h.len = done.length
  bytes : held ++ fd.stream = lead ++ wire
  lead : lead = [] ∨ lead = crlf
  coding : Chunked wire body
  whole : done ++ body = r.body

/-- Behind the decoded bytes `done` the rest of a chunk is expected. -/
structure Taking (r : Response) (h : HttpT) (fd : RecvEnd) (k : ℕ)
    (done held chunk wire body : List UInt8) : Prop where
  roomy : h.Roomy k
  live : h.error = false
  status : h.status = r.status
  bodytype : h.bodytype = .chunk
  part : h.part = .body
  data : h.data.take (h.pos + k) = done ++ held
  pos : h.pos = done.length
  len : h.len = chunk.length
  ne : chunk ≠ []
  bytes : held ++ fd.stream = chunk ++ (crlf ++ wire)
  coding : Chunked wire body
  whole : done ++ (chunk ++ body) = r.body

/-- The body is not complete, and the client waits for the next read. -/
inductive Pausing (r : Response) (fd : RecvEnd) (h : HttpT) : Prop
  | counting (hc : Counting r h fd 0) (hstream : fd.stream ≠ [])
  | sizing (done held lead wire body : List UInt8)
      (hs : Sizing r h fd 0 done held lead wire body) (hstream : fd.stream ≠ [])
  | taking (done held chunk wire body : List UInt8)
      (ht : Taking r h fd 0 done held chunk wire body) (hstream : fd.stream ≠ [])

/-- The call hands out the body, or returns false and goes on with the next one. -/
def Proceeds (junk : Junk) (r : Response) (fd : RecvEnd) (c : Client) : Prop :=
  ∃ c', Leads junk c c' ∧ ((c'.place.finished = true ∧ Delivered r c') ∨
    ∃ h' out, c' = ⟨h', fd, .returned false out⟩ ∧ Pausing r fd h')

theorem Proceeds.head {c c' : Client} (hturn : Turn junk c c') (hp : Proceeds junk r fd c') :
    Proceeds junk r fd c := by
  obtain ⟨c'', hleads, hend⟩ := hp
  exact ⟨c'', .head hturn hleads, hend⟩

theorem pause {c : Client} {h' : HttpT} (hturn : Turn junk c (finish h' fd))
    (hpart : h'.part ≠ .done) (hp : Pausing r fd h') : Proceeds junk r fd c := by
  have hfinish : finish h' fd =
      ⟨h', fd, .returned false (some (h'.pos, if h'.bodytype = .len then h'.len else 0))⟩ := by
    rw [finish, decide_eq_false hpart]
  exact ⟨_, .single hturn, .inr ⟨h', _, hfinish, hp⟩⟩

theorem realloc_shrinks (junk : Junk) {data : List UInt8} {size : ℕ} (hsize : size ≤ data.length) :
    realloc junk data size = data.take size := by
  rw [realloc, List.drop_of_length_le (by rw [List.length_range]; exact hsize), List.map_nil,
    List.append_nil]

theorem length_of_take (hroomy : h.Roomy k) {bytes : List UInt8}
    (hdata : h.data.take (h.pos + k) = bytes) : h.pos + k = bytes.length := by
  have hroom := hroomy.room
  have hlength := hroomy.length
  have hlen := congrArg List.length hdata
  rw [List.length_take] at hlen
  omega

theorem counting_proceeds (hc : Counting r h fd k) :
    Proceeds junk r fd ⟨h, fd, .parseAgain k⟩ := by
  have hlen := length_of_take hc.roomy rfl
  have hsum := congrArg List.length hc.bytes
  rw [List.length_append, ← hlen] at hsum
  have hkind : h.bodytype ≠ .chunk := by rw [hc.bodytype]; decide
  have hstep : stepParse junk h fd k = some (stepWhole junk h fd k) := by
    rw [stepParse, if_neg hkind]
  rw [stepWhole] at hstep
  by_cases hend : h.pos + k = h.len
  · simp only [if_pos hend] at hstep
    rw [if_neg (by simp only [finishBody]; omega)] at hstep
    refine ⟨_, .single (parse_turn hstep), .inl ⟨rfl, ?_⟩⟩
    have hstream : fd.stream = [] := by
      rw [← List.length_eq_zero_iff]
      have := hc.len
      omega
    have hbytes := hc.bytes
    rw [hstream, List.append_nil] at hbytes
    apply delivered_of_body hc.live hc.status
    · have hroom := hc.roomy.room
      have hlength := hc.roomy.length
      have hdata : realloc junk h.data h.len = r.body := by
        rw [realloc_shrinks junk (by omega), ← hend, hbytes]
      exact hdata
    · exact hc.len
  · simp only [if_neg hend] at hstep
    have hle := hc.len
    rw [if_neg (by omega)] at hstep
    refine pause (parse_turn hstep) (by simp only; rw [hc.part]; decide)
      (.counting ⟨⟨hc.roomy.length, hc.roomy.least, hc.roomy.room⟩, hc.live, hc.status,
        hc.bodytype, hc.part, hc.len, hc.bytes⟩ ?_)
    intro hnil
    rw [hnil, List.length_nil] at hsum
    omega

/-- The line with the size of a chunk is there, behind the line end before it, or no line end
has come from its third byte on. -/
theorem sizeLine_there {held stream lead line rest : List UInt8} (hline : Text line)
    (hlead : lead = [] ∨ lead = crlf) (h : held ++ stream = lead ++ (line ++ 13 :: 10 :: rest)) :
    (∃ more, held = lead ++ (line ++ 13 :: 10 :: more) ∧ more ++ stream = rest) ∨
      ((10 : UInt8) ∉ held.drop 2 ∧ stream ≠ []) := by
  rcases List.append_eq_append_iff.mp h with ⟨more, hheld, hstream⟩ | ⟨more, hheld, hstream⟩
  · right
    have hshort : held.length ≤ 2 := by
      have hlen := congrArg List.length hheld
      rw [List.length_append] at hlen
      rcases hlead with rfl | rfl
      · simp at hlen
        omega
      · simp [crlf] at hlen
        omega
    rw [List.drop_of_length_le hshort, hstream]
    exact ⟨List.not_mem_nil, by simp⟩
  · rcases line_there hline hstream.symm with ⟨rest', hmore, hrest⟩ | ⟨habsent, hlong⟩
    · exact .inl ⟨rest', by rw [hheld, hmore], hrest⟩
    · right
      refine ⟨?_, List.ne_nil_of_length_pos (by omega)⟩
      rw [hheld]
      rcases hlead with rfl | rfl
      · exact fun hmem => habsent (List.mem_of_mem_drop hmem)
      · exact habsent

theorem text_sizeLine {digits ext : List UInt8} (hdigits : Digits 16 digits)
    (hext : Extension ext) : Text (digits ++ ext) := by
  intro b hb
  rcases List.mem_append.mp hb with hd | he
  · exact text_digits hdigits.2 b hd
  · exact hext.1 b he

theorem extension_stops {ext rest : List UInt8} (hext : Extension ext) :
    Stops 16 (ext ++ 13 :: rest) := by
  cases ext with
  | nil => exact ⟨13, rest, rfl, rfl, by decide, by decide⟩
  | cons b bs =>
    refine ⟨b, bs ++ 13 :: rest, rfl, ?_⟩
    rcases hext.2 b rfl with rfl | rfl | rfl <;> decide

/-- A whole line with the size of a chunk is cut out of the data. -/
theorem stepChunklen_line (junk : Junk) (fd : RecvEnd) {done held lead digits ext more : List UInt8}
    (hroomy : h.Roomy k) (hdata : h.data.take (h.pos + k) = done ++ held)
    (hlen : h.len = done.length) (hlead : lead = [] ∨ lead = crlf) (hdigits : Digits 16 digits)
    (hext : Extension ext) (hsmall : numeral 16 digits < 2 ^ 64)
    (hheld : held = lead ++ ((digits ++ ext) ++ 13 :: 10 :: more)) :
    ∃ data, data.length = h.data.length ∧ data.take (h.len + more.length) = done ++ more ∧
      stepChunklen junk h fd k = some
        ⟨if numeral 16 digits = 0 then
            finishBody junk { h with data := data, pos := h.len, part := .body, len := h.len }
          else { h with data := data, pos := h.len, part := .body, len := numeral 16 digits },
          fd, .parseAgain more.length⟩ := by
  have hroom := hroomy.room
  have hlength := hroomy.length
  have hsum := length_of_take hroomy hdata
  rw [List.length_append] at hsum
  have hbytes : h.data = done ++ (held ++ h.data.drop (h.pos + k)) := by
    conv_lhs => rw [← List.take_append_drop (h.pos + k) h.data, hdata]
    rw [List.append_assoc]
  have htext := text_sizeLine hdigits hext
  have hlong : 1 ≤ (digits ++ ext).length := by
    rw [List.length_append]
    have := List.length_pos_of_ne_nil hdigits.1
    omega
  obtain ⟨front, hfront, hsplit, habsent⟩ : ∃ front : List UInt8,
      front.length + 2 = lead.length + (digits ++ ext).length + 1 ∧
      held.drop 2 = front ++ 10 :: more ∧ (10 : UInt8) ∉ front := by
    have hno : (10 : UInt8) ∉ (digits ++ ext) ++ [13] := by
      intro hmem
      rcases List.mem_append.mp hmem with hl | hl
      · exact (htext 10 hl).2.1 rfl
      · exact absurd hl (by decide)
    rcases hlead with rfl | rfl
    · refine ⟨((digits ++ ext) ++ [13]).drop 2, ?_, ?_, fun hmem => hno (List.mem_of_mem_drop hmem)⟩
      · rw [List.length_drop, List.length_append, List.length_nil, List.length_singleton]
        omega
      · rw [hheld, List.nil_append, ← List.drop_append_of_le_length
          (by rw [List.length_append, List.length_singleton]; omega)]
        simp
    · exact ⟨(digits ++ ext) ++ [13], by simp [crlf]; omega, by simp [hheld, crlf], hno⟩
  have hheldlen : held.length = lead.length + (digits ++ ext).length + 2 + more.length := by
    rw [hheld]
    simp only [List.length_append, List.length_cons]
    omega
  have hdrop : h.data.drop h.len = held ++ h.data.drop (h.pos + k) := by
    rw [hlen]
    conv_lhs => rw [hbytes]
    rw [List.drop_left]
  have hfound : memchr h.data 10 (h.len + 2) (h.pos + k - (h.len + 2)) =
      some (some (h.len + 2 + front.length)) := by
    apply memchr_first _ _ front more (by omega) _ habsent
    rw [← List.drop_drop, hdrop, List.drop_append_of_le_length (by omega), hsplit]
    apply List.take_left'
    have hcount := congrArg List.length hsplit
    rw [List.length_drop] at hcount
    omega
  have hsize : strtoul 16 (h.data.drop h.len) = some (numeral 16 digits) := by
    rw [hdrop, hheld]
    have hspace : ∀ b ∈ lead, isSpace b = true := by
      rcases hlead with rfl | rfl
      · exact fun b hb => absurd hb List.not_mem_nil
      · exact List.all_eq_true.mp (by decide)
    have hread := strtoul_numeral lead digits
      (ext ++ 13 :: (10 :: (more ++ h.data.drop (h.pos + k)))) hspace hdigits.1 hdigits.2
      (extension_stops hext) hsmall
    rw [← hread]
    simp
  have hrest : (h.data.drop (h.len + 2 + front.length + 1)).take more.length = more := by
    have hskip : h.len + 2 + front.length + 1 = h.len + (2 + (front.length + 1)) := by omega
    have hjoin : front ++ 10 :: more ++ h.data.drop (h.pos + k) =
        (front ++ [10]) ++ (more ++ h.data.drop (h.pos + k)) := by simp
    rw [hskip, ← List.drop_drop, hdrop, ← List.drop_drop,
      List.drop_append_of_le_length (by omega), hsplit, hjoin, List.drop_left' (by simp),
      List.take_left' rfl]
  obtain ⟨data, hpokes, hdlen, htake⟩ := take_pokes h.data h.len more (by omega)
  refine ⟨data, hdlen, ?_, ?_⟩
  · rw [htake, hlen]
    conv_lhs => rw [hbytes]
    rw [List.take_left]
  · have hsub : wrapSub (h.pos + k) h.len = h.pos + k - h.len := if_pos (by omega)
    have htwo : h.pos + k - h.len ≥ 2 := by omega
    rw [stepChunklen]
    simp only [hsub, if_pos htwo]
    rw [sizeSub, if_pos (by omega), Option.bind_some, hfound, Option.bind_some]
    simp only [hsize, Option.bind_some]
    rw [sizeSub, if_pos (by omega), Option.bind_some,
      show h.pos + k - (h.len + 2 + front.length + 1) = more.length by omega, memmove,
      peeks_of_le (by omega), Option.bind_some, hrest, hpokes, Option.map_some]

theorem memchr_waits {done held : List UInt8} (hroomy : h.Roomy k)
    (hdata : h.data.take (h.pos + k) = done ++ held) (hlen : h.len = done.length)
    (htwo : 2 ≤ held.length) (habsent : (10 : UInt8) ∉ held.drop 2) :
    memchr h.data 10 (h.len + 2) (h.pos + k - (h.len + 2)) = some none := by
  have hroom := hroomy.room
  have hlength := hroomy.length
  have hsum := length_of_take hroomy hdata
  rw [List.length_append] at hsum
  apply memchr_absent _ _ (by omega)
  have hpart : (h.data.drop (h.len + 2)).take (h.pos + k - (h.len + 2)) = held.drop 2 := by
    rw [List.take_drop, show h.len + 2 + (h.pos + k - (h.len + 2)) = h.pos + k by omega, hdata,
      hlen, ← List.drop_drop, List.drop_left]
  rw [hpart]
  exact habsent

theorem sizing_waits {done held lead wire body : List UInt8}
    (hs : Sizing r h fd k done held lead wire body) (habsent : (10 : UInt8) ∉ held.drop 2)
    (hstream : fd.stream ≠ []) : Proceeds junk r fd ⟨h, fd, .parseAgain k⟩ := by
  have hsum := length_of_take hs.roomy hs.data
  rw [List.length_append] at hsum
  have hlen := hs.len
  have hsub : wrapSub (h.pos + k) h.len = h.pos + k - h.len := if_pos (by omega)
  have hstep : stepParse junk h fd k = some (finish { h with pos := h.pos + k } fd) := by
    rw [stepParse, if_pos hs.bodytype, if_pos hs.part, stepChunklen]
    simp only [hsub]
    split_ifs with htwo
    · rw [sizeSub, if_pos (by omega), Option.bind_some,
        memchr_waits hs.roomy hs.data hs.len (by omega) habsent, Option.bind_some]
    · rfl
  refine pause (parse_turn hstep) (by simp only; rw [hs.part]; decide) (.sizing done held lead
    wire body ⟨⟨hs.roomy.length, hs.roomy.least, hs.roomy.room⟩, hs.live, hs.status, hs.bodytype,
      hs.part, hs.data, hs.len, hs.bytes, hs.lead, hs.coding, hs.whole⟩ hstream)

theorem taking_proceeds (done held chunk : List UInt8) {wire body : List UInt8}
    (ht : Taking r h fd k done held chunk wire body)
    (hnext : ∀ h' k' done' held', Sizing r h' fd k' done' held' crlf wire body →
      Proceeds junk r fd ⟨h', fd, .parseAgain k'⟩) :
    Proceeds junk r fd ⟨h, fd, .parseAgain k⟩ := by
  have hsum := length_of_take ht.roomy ht.data
  rw [List.length_append] at hsum
  have hpos := ht.pos
  have hlen := ht.len
  have hroom := ht.roomy.room
  have hstep : stepParse junk h fd k = some (stepChunk h fd k) := by
    rw [stepParse, if_pos ht.bodytype, if_neg (by rw [ht.part]; decide), if_pos ht.part]
  rw [stepChunk] at hstep
  by_cases hall : k < h.len
  · rcases List.append_eq_append_iff.mp ht.bytes with
      ⟨more, hchunk, hstream⟩ | ⟨more, hheld, -⟩
    · have hcount := congrArg List.length hchunk
      rw [List.length_append] at hcount
      have hmore : more ≠ [] := List.ne_nil_of_length_pos (by omega)
      rw [if_neg (by omega)] at hstep
      refine pause (parse_turn hstep) (by simp only; rw [ht.part]; decide)
        (.taking (done ++ held) [] more wire body
          ⟨⟨ht.roomy.length, ht.roomy.least, by simp only; omega⟩, ht.live, ht.status,
            ht.bodytype, ht.part, by simpa using ht.data, ?_, ?_, hmore, ?_, ht.coding, ?_⟩ ?_)
      · simp only [List.length_append]
        omega
      · simp only
        omega
      · rw [hstream, List.nil_append]
      · rw [← ht.whole, hchunk]
        simp
      · rw [hstream]
        simp [hmore]
    · have hcount := congrArg List.length hheld
      rw [List.length_append] at hcount
      omega
  · obtain ⟨more, hheld, hstream⟩ : ∃ more, held = chunk ++ more ∧
        more ++ fd.stream = crlf ++ wire := by
      have hp : chunk <+: held :=
        List.prefix_of_prefix_length_le ⟨crlf ++ wire, ht.bytes.symm⟩ ⟨fd.stream, rfl⟩ (by omega)
      obtain ⟨more, rfl⟩ := hp
      have hbytes := ht.bytes
      rw [List.append_assoc] at hbytes
      exact ⟨more, rfl, List.append_cancel_left hbytes⟩
    have hcount := congrArg List.length hheld
    rw [List.length_append] at hcount
    rw [if_pos (by omega)] at hstep
    refine Proceeds.head (parse_turn hstep) (hnext _ _ (done ++ chunk) more ?_)
    refine ⟨⟨ht.roomy.length, ht.roomy.least, ?_⟩, ht.live, ht.status, ht.bodytype, rfl, ?_, ?_,
      hstream, .inr rfl, ht.coding, ?_⟩
    · simp only
      omega
    · simp only
      rw [show h.pos + h.len + (k - h.len) = h.pos + k by omega, ht.data, hheld,
        List.append_assoc]
    · simp only [List.length_append]
      omega
    · rw [← ht.whole, List.append_assoc]

theorem last_proceeds {done held lead digits ext more wire body : List UInt8}
    (hs : Sizing r h fd k done held lead wire body) (hbody : body = [])
    (hdigits : Digits 16 digits) (hzero : numeral 16 digits = 0) (hext : Extension ext)
    (hheld : held = lead ++ ((digits ++ ext) ++ 13 :: 10 :: more)) :
    Proceeds junk r fd ⟨h, fd, .parseAgain k⟩ := by
  obtain ⟨data, hdata, htake, hline⟩ := stepChunklen_line junk fd hs.roomy
    hs.data hs.len hs.lead hdigits hext (by rw [hzero]; decide) hheld
  have hstep : stepParse junk h fd k = stepChunklen junk h fd k := by
    rw [stepParse, if_pos hs.bodytype, if_pos hs.part]
  rw [hline, if_pos hzero] at hstep
  have hend : stepParse junk
      (finishBody junk { h with data := data, pos := h.len, part := .body, len := h.len }) fd
      more.length = some (finish (finishBody junk
        { h with data := data, pos := h.len, part := .body, len := h.len }) fd) := by
    rw [stepParse, if_pos (by exact hs.bodytype), if_neg (by simp [finishBody]),
      if_neg (by simp [finishBody])]
  refine ⟨_, .head (parse_turn hstep) (.single (parse_turn hend)), .inl ⟨rfl, ?_⟩⟩
  have hwhole := hs.whole
  rw [hbody, List.append_nil] at hwhole
  have hlen := hs.len
  have hroom := hs.roomy.room
  have hlength := hs.roomy.length
  have hsum := length_of_take hs.roomy hs.data
  rw [List.length_append] at hsum
  apply delivered_of_body hs.live hs.status
  · have hdone : realloc junk data h.len = r.body := by
      rw [realloc_shrinks junk (by omega), ← hwhole]
      have hshort := congrArg (List.take h.len) htake
      rwa [List.take_take, Nat.min_eq_left (Nat.le_add_right _ _), hlen, List.take_left,
        ← hlen] at hshort
    exact hdone
  · exact hlen.trans (congrArg List.length hwhole)

/-- Every chunk is decoded, by induction on the coding. -/
theorem sizing_proceeds {wire body : List UInt8} (hcoding : Chunked wire body)
    (hfits : r.body.length < 2 ^ 64) (done held lead : List UInt8)
    (hs : Sizing r h fd k done held lead wire body) :
    Proceeds junk r fd ⟨h, fd, .parseAgain k⟩ := by
  induction hcoding generalizing h k done held lead with
  | last digits ext trailer hdigits hzero hext htrailer =>
    have hbytes : held ++ fd.stream = lead ++ ((digits ++ ext) ++
        13 :: 10 :: (trailer.flatMap (· ++ crlf) ++ crlf)) := by
      rw [hs.bytes]
      simp [crlf]
    rcases sizeLine_there (text_sizeLine hdigits hext) hs.lead hbytes with
      ⟨more, hheld, -⟩ | ⟨habsent, hstream⟩
    · exact last_proceeds hs rfl hdigits hzero hext hheld
    · exact sizing_waits hs habsent hstream
  | chunk digits ext chunk wire body hdigits hsize hne hext hrest ih =>
    have hbytes : held ++ fd.stream = lead ++ ((digits ++ ext) ++
        13 :: 10 :: (chunk ++ (crlf ++ wire))) := by
      rw [hs.bytes]
      simp [crlf]
    rcases sizeLine_there (text_sizeLine hdigits hext) hs.lead hbytes with
      ⟨more, hheld, hmore⟩ | ⟨habsent, hstream⟩
    · have hwhole := congrArg List.length hs.whole
      simp only [List.length_append] at hwhole
      obtain ⟨data, hdata, htake, hline⟩ := stepChunklen_line junk fd hs.roomy
        hs.data hs.len hs.lead hdigits hext (by omega) hheld
      have hpositive := List.length_pos_of_ne_nil hne
      have hstep : stepParse junk h fd k = stepChunklen junk h fd k := by
        rw [stepParse, if_pos hs.bodytype, if_pos hs.part]
      rw [hline, if_neg (by omega)] at hstep
      have hsum := length_of_take hs.roomy hs.data
      have hheldlen := congrArg List.length hheld
      have hlen := hs.len
      have hroom := hs.roomy.room
      simp only [List.length_append, List.length_cons] at hsum hheldlen
      refine Proceeds.head (parse_turn hstep) (taking_proceeds done more
        chunk ⟨⟨hdata.trans hs.roomy.length, hs.roomy.least, ?_⟩, hs.live, hs.status,
          hs.bodytype, rfl, htake, hlen, hsize, hne, hmore, hrest, hs.whole⟩
        fun h' k' done' held' hs' => ih done' held' crlf hs')
      simp only
      omega
    · exact sizing_waits hs habsent hstream

end Chunks

section Calls

variable {junk : Junk} {r : Response} {h : HttpT} {fd : RecvEnd}

theorem chunked_length {wire body : List UInt8} (hcoding : Chunked wire body) :
    body.length ≤ wire.length := by
  induction hcoding with
  | last => exact Nat.zero_le _
  | chunk digits ext data wire body _ _ _ _ _ ih =>
    simp only [List.length_append]
    omega

/-- Where a call may stop before the response is there. -/
inductive Waiting (r : Response) (fd : RecvEnd) (h : HttpT) : Prop
  | header (lines : List (List UInt8)) (hl : Listening r h fd lines)
      (hlong : r.wire.length < fd.stream.length)
  | body (hp : Pausing r fd h) (hunderstood : ∀ calls, Understood r calls)

/-- A call ends with the response settled, or waits again with fewer answers to come. -/
def Advances (junk : Junk) (r : Response) (fd : RecvEnd) (c : Client) : Prop :=
  ∃ c', Leads junk c c' ∧ (Settled r c' ∨
    ∃ h' fd' out, c' = ⟨h', fd', .returned false out⟩ ∧ Waiting r fd' h' ∧
      fd'.script.length < fd.script.length)

theorem Proceeds.advances {c : Client} {fd' : RecvEnd} (hp : Proceeds junk r fd' c)
    (hunderstood : ∀ calls, Understood r calls) (hscript : fd'.script.length < fd.script.length) :
    Advances junk r fd c := by
  obtain ⟨c', hleads, ⟨hfinished, hdelivered⟩ | ⟨h', out, rfl, hpausing⟩⟩ := hp
  · exact ⟨c', hleads, .inl ⟨hfinished, iff_of_true hdelivered (hunderstood _)⟩⟩
  · exact ⟨_, hleads, .inr ⟨h', fd', out, rfl, .body hpausing hunderstood, hscript⟩⟩

theorem Advances.head {c c' : Client} (hleads : Leads junk c c') (ha : Advances junk r fd c') :
    Advances junk r fd c := by
  obtain ⟨c'', hleads', hend⟩ := ha
  exact ⟨c'', hleads.trans hleads', hend⟩

theorem body_small (hr : r.WellFormed) : r.body.length < 2 ^ 64 := by
  obtain ⟨code, reason, fields, wire, body⟩ := r
  have hfits := hr.fits
  rw [Response.bytes, List.length_append] at hfits
  have hdelimited := hr.delimited
  simp only at hfits hdelimited ⊢
  have hle : body.length ≤ wire.length := by
    cases hdelimited with
    | length => exact Nat.le_refl _
    | chunked _ _ _ _ _ _ _ _ hwire => exact chunked_length hwire
    | close => exact Nat.le_refl _
  omega

theorem chunked_ne_nil {wire body : List UInt8} (hcoding : Chunked wire body) : wire ≠ [] := by
  cases hcoding with
  | last digits ext trailer => simp [crlf]
  | chunk digits ext data wire body => simp [crlf]

theorem body_start {fd₀ : RecvEnd} {k : ℕ} (hfair : Fair junk fd₀)
    (hreach : Leads junk (start junk fd₀) ⟨h, fd, .body k⟩) (hh : Headed r h fd k)
    (hwire : r.wire ≠ []) :
    ∃ data buflen fd' k', Leads junk ⟨h, fd, .body k⟩
        ⟨{ h with data := data, buflen := buflen }, fd', .parseAgain k'⟩ ∧
      ({ h with data := data, buflen := buflen } : HttpT).Roomy k' ∧
      data.take k' ++ fd'.stream = r.wire ∧ fd'.script.length ≤ fd.script.length := by
  by_cases hk : k = 0
  · subst hk
    have hstream : fd.stream = r.wire := by
      have hbytes := hh.bytes
      rwa [List.take_zero, List.nil_append] at hbytes
    rcases stepBody_read junk fd hh.roomy hh.inBody with
      ⟨bs, data, buflen, fd', hstep, hroomy, htake, hbrought⟩ | ⟨fd', hended, -⟩
    · refine ⟨data, buflen, fd', bs.length, .single (body_turn hstep), hroomy, ?_, ?_⟩
      · rw [hh.pos, Nat.zero_add, List.take_zero, List.nil_append] at htake
        rw [htake, ← hbrought.stream, hstream]
      · rw [hbrought.script, List.length_tail]
        omega
    · exact absurd hended (hfair.not_ended hreach (by rw [hstream]; exact hwire))
  · have hstep : stepBody junk h fd k = some ⟨h, fd, .parseAgain k⟩ := by
      rw [stepBody, if_pos hh.inBody, if_neg hk]
    exact ⟨h.data, h.buflen, fd, k, .single (body_turn hstep), hh.roomy, hh.bytes, Nat.le_refl _⟩

theorem body_advances {fd₀ fd' : RecvEnd} {k : ℕ} (hr : r.WellFormed) (hfair : Fair junk fd₀)
    (hreach : Leads junk (start junk fd₀) ⟨h, fd', .body k⟩) (hh : Headed r h fd' k)
    (hlate : Late r fd'.calls) (hscript : fd'.script.length < fd.script.length) :
    Advances junk r fd ⟨h, fd', .body k⟩ := by
  have hfits := hr.fits
  rw [Response.bytes, List.length_append] at hfits
  rcases heard_fields hr with ⟨hcoding, hheard, hchunked⟩ | ⟨hcoding, hnames, hheard, hwire⟩ |
    ⟨hcoding, hnames, hheard⟩
  · obtain ⟨htype, hlen⟩ := Prod.mk.inj (hh.kind.trans hheard)
    obtain ⟨data, buflen, fd'', k', hleads, hroomy, hbytes, hle⟩ :=
      body_start hfair hreach hh (chunked_ne_nil hchunked)
    have hpart := hh.part
    rw [if_pos htype] at hpart
    have hpos := hh.pos
    refine Advances.head hleads (Proceeds.advances (sizing_proceeds hchunked ?_
      [] (data.take k') [] ⟨hroomy, hh.live, hh.status, htype, hpart,
        by simp [hpos], hlen, hbytes, .inl rfl, hchunked, rfl⟩) (fun _ => .inl hcoding) (by omega))
    have := chunked_length hchunked
    omega
  · obtain ⟨htype, hlen⟩ := Prod.mk.inj (hh.kind.trans hheard)
    by_cases hbody : r.body = []
    · obtain ⟨c, hleads, hsettled⟩ := unnamed_settled junk hh hlate
        (by rw [htype]; decide) (by rw [hlen, hbody]; rfl) hcoding fun _ => hbody
      exact ⟨c, hleads, .inl hsettled⟩
    · obtain ⟨data, buflen, fd'', k', hleads, hroomy, hbytes, hle⟩ :=
        body_start hfair hreach hh (hwire ▸ hbody)
      have hpart := hh.part
      rw [if_neg (by rw [htype]; decide)] at hpart
      have hpos := hh.pos
      refine Advances.head hleads (Proceeds.advances (counting_proceeds
        ⟨hroomy, hh.live, hh.status, htype, hpart, hlen, ?_⟩)
        (fun _ => .inr (.inl ⟨hnames, hbody⟩)) (by omega))
      simp only [hpos, Nat.zero_add]
      exact hbytes.trans hwire
  · obtain ⟨htype, hlen⟩ := Prod.mk.inj (hh.kind.trans hheard)
    obtain ⟨c, hleads, hsettled⟩ := unnamed_settled junk hh hlate
      (by rw [htype]; decide) hlen hcoding fun h => absurd h hnames
    exact ⟨c, hleads, .inl hsettled⟩

theorem header_advances {fd₀ : RecvEnd} {lines : List (List UInt8)} (hr : r.WellFormed)
    (hfair : Fair junk fd₀) (hreach : Leads junk (start junk fd₀) ⟨h, fd, .called⟩)
    (hl : Listening r h fd lines) (hlong : r.wire.length < fd.stream.length) :
    Advances junk r fd ⟨h, fd, .called⟩ := by
  have hstream : fd.stream ≠ [] := List.ne_nil_of_length_pos (by omega)
  rcases receive_cases fd hl.roomy with
    ⟨bs, data, fd', hreceive, hdata, hfits, htake, hbrought⟩ | ⟨fd', -, hended⟩
  · obtain ⟨data', buflen, hgrow, hgrown, hkept⟩ := grow_spec junk
      (h := { h with data := data }) (hdata.trans hl.roomy.length) hl.roomy.least hfits
    have hstep : stepCalled junk h fd = some
        ⟨{ h with data := data', buflen := buflen, pos := h.pos + bs.length }, fd', .headers⟩ := by
      rw [stepCalled, if_neg (by rw [hl.live]; decide), if_pos hl.stage.inHeader, hreceive,
        Option.map_some]
      simp only [hgrow]
    have hturn : Turn junk ⟨h, fd, .called⟩
        ⟨{ h with data := data', buflen := buflen, pos := h.pos + bs.length }, fd', .headers⟩ :=
      ⟨rfl, hstep⟩
    rw [hgrow] at hgrown
    have hl' : Listening r { h with data := data', buflen := buflen, pos := h.pos + bs.length } fd'
        lines := by
      refine ⟨⟨hgrown.length, hgrown.least, hgrown.room⟩, hl.live, ?_, ?_, ?_⟩
      · rw [readBytes_brought hbrought, List.append_assoc, ← hbrought.stream, hl.log]
      · simp only
        rw [hkept.trans htake, List.append_assoc, ← hbrought.stream, hl.bytes]
      · cases hl.stage with
        | top hpart hkind => exact .top hpart hkind
        | fields done _ hfields hpart hstatus hkind =>
          exact .fields done _ hfields hpart hstatus hkind
    have hscript := hfair.script_lt hreach hstream hbrought
    have hlate : Late r fd'.calls := by
      obtain ⟨n, hcalls⟩ := hbrought.calls
      refine ⟨fd.calls, _, hcalls, ?_⟩
      have hlog := congrArg List.length hl.log
      rw [Response.bytes, List.length_append, List.length_append] at hlog
      omega
    obtain ⟨c, hleads, ⟨h', lines', out, rfl, hl'', hlong'⟩ | ⟨h', k, rfl, hh⟩⟩ :=
      headers_loop junk hr lines hl'
    · exact ⟨_, .head hturn hleads, .inr ⟨h', fd', out, rfl, .header lines' hl'' hlong', hscript⟩⟩
    · have hbody : Leads junk (start junk fd₀) ⟨h', fd', .body k⟩ :=
        (hreach.tail hturn).trans hleads
      exact Advances.head (.head hturn hleads) (body_advances hr hfair hbody hh hlate hscript)
  · exact absurd hended (hfair.not_ended hreach hstream)

theorem pausing_advances {fd₀ : RecvEnd} (hr : r.WellFormed) (hfair : Fair junk fd₀)
    (hreach : Leads junk (start junk fd₀) ⟨h, fd, .called⟩) (hp : Pausing r fd h)
    (hunderstood : ∀ calls, Understood r calls) : Advances junk r fd ⟨h, fd, .called⟩ := by
  have hsmall := body_small hr
  obtain ⟨hroomy, hlive, hbody, hstream⟩ : h.Roomy 0 ∧ h.error = false ∧
      h.part.inBody = true ∧ fd.stream ≠ [] := by
    cases hp with
    | counting hc hstream => exact ⟨hc.roomy, hc.live, by rw [hc.part]; rfl, hstream⟩
    | sizing _ _ _ _ _ hs hstream => exact ⟨hs.roomy, hs.live, by rw [hs.part]; rfl, hstream⟩
    | taking _ _ _ _ _ ht hstream => exact ⟨ht.roomy, ht.live, by rw [ht.part]; rfl, hstream⟩
  have hheader : ¬ h.part.inHeader = true := by
    intro hin
    cases hpart : h.part <;> rw [hpart] at hin hbody <;> simp [Part.inHeader, Part.inBody] at *
  have hturn : Turn junk ⟨h, fd, .called⟩ ⟨h, fd, .body 0⟩ := by
    refine ⟨rfl, ?_⟩
    rw [netHttpUpdate, stepCalled, if_neg (by rw [hlive]; decide), if_neg hheader]
  rcases stepBody_read junk fd hroomy hbody with
    ⟨bs, data, buflen, fd', hstep, hgrown, htake, hbrought⟩ | ⟨fd', hended, -⟩
  · have hscript := hfair.script_lt hreach hstream hbrought
    refine Advances.head (.head hturn (.single (body_turn hstep))) ?_
    cases hp with
    | counting hc =>
      refine Proceeds.advances (counting_proceeds ⟨hgrown, hc.live, hc.status, hc.bodytype,
        hc.part, hc.len, ?_⟩) hunderstood hscript
      simp only
      rw [htake, List.append_assoc, ← hbrought.stream]
      exact hc.bytes
    | sizing done held lead wire body hs =>
      refine Proceeds.advances (sizing_proceeds hs.coding hsmall done
        (held ++ bs) lead ⟨hgrown, hs.live, hs.status, hs.bodytype, hs.part,
          ?_, hs.len, ?_, hs.lead, hs.coding, hs.whole⟩) hunderstood hscript
      · simp only
        rw [htake, ← List.append_assoc]
        exact congrArg (· ++ bs) hs.data
      · rw [List.append_assoc, ← hbrought.stream]
        exact hs.bytes
    | taking done held chunk wire body ht =>
      refine Proceeds.advances (taking_proceeds done (held ++ bs)
        chunk ⟨hgrown, ht.live, ht.status, ht.bodytype, ht.part, ?_, ht.pos, ht.len,
          ht.ne, ?_, ht.coding, ht.whole⟩
        fun h' k' done' held' hs' => sizing_proceeds ht.coding hsmall done' held' crlf hs')
        hunderstood hscript
      · simp only
        rw [htake, ← List.append_assoc]
        exact congrArg (· ++ bs) ht.data
      · rw [List.append_assoc, ← hbrought.stream]
        exact ht.bytes
  · exact absurd hended (hfair.not_ended hreach hstream)

theorem waiting_advances {fd₀ : RecvEnd} (hr : r.WellFormed) (hfair : Fair junk fd₀)
    (hreach : Leads junk (start junk fd₀) ⟨h, fd, .called⟩) (hw : Waiting r fd h) :
    Advances junk r fd ⟨h, fd, .called⟩ := by
  cases hw with
  | header lines hl hlong => exact header_advances hr hfair hreach hl hlong
  | body hp hunderstood => exact pausing_advances hr hfair hreach hp hunderstood

theorem waiting_settles {fd₀ : RecvEnd} (hr : r.WellFormed) (hfair : Fair junk fd₀) (n : ℕ)
    (hn : fd.script.length ≤ n) (hreach : Leads junk (start junk fd₀) ⟨h, fd, .called⟩)
    (hw : Waiting r fd h) : ∃ c, Leads junk ⟨h, fd, .called⟩ c ∧ Settled r c := by
  induction n generalizing h fd with
  | zero =>
    obtain ⟨c, hleads, hsettled | ⟨h', fd', out, rfl, -, hlt⟩⟩ :=
      waiting_advances hr hfair hreach hw
    · exact ⟨c, hleads, hsettled⟩
    · omega
  | succ n ih =>
    obtain ⟨c, hleads, hsettled | ⟨h', fd', out, rfl, hw', hlt⟩⟩ :=
      waiting_advances hr hfair hreach hw
    · exact ⟨c, hleads, hsettled⟩
    · have hagain : Turn junk ⟨h', fd', .returned false out⟩ ⟨h', fd', .called⟩ := ⟨rfl, rfl⟩
      have hreach' := (hreach.trans hleads).tail hagain
      obtain ⟨c, hleads', hsettled⟩ := ih (by omega) hreach' hw'
      exact ⟨c, (hleads.tail hagain).trans hleads', hsettled⟩

/-- For every well-formed response and every way its bytes arrive, the calls come to an end, and
they hand out exactly the body if and only if the client understands the response. -/
theorem delivered_iff (junk : Junk) (r : Response) (script : List RecvAnswer)
    (hr : r.WellFormed) (hfair : Fair junk ⟨r.bytes, script, []⟩) :
    ∃ c, Leads junk (start junk ⟨r.bytes, script, []⟩) c ∧ c.place.finished = true ∧
      (Delivered r c ↔ Understood r c.fd.calls) := by
  have hlistening : Listening r (newState junk) ⟨r.bytes, script, []⟩
      (r.statusLine :: r.fields) := by
    refine ⟨⟨length_realloc junk [] 512, Nat.le_refl 512, by simp [newState]⟩, rfl, rfl, ?_,
      .top rfl rfl⟩
    simp [newState, Response.bytes, Response.header]
  have hlong : r.wire.length < r.bytes.length := by
    simp [Response.bytes, Response.header, headText, crlf]
    omega
  exact waiting_settles hr hfair _ (Nat.le_refl _) .refl (.header _ hlistening hlong)

end Calls

section Scripts

variable {junk : Junk}

/-- The steps of a caller, counted. -/
def turns (junk : Junk) (c : Client) : ℕ → Option Client
  | 0 => some c
  | n + 1 =>
    (turns junk c n).bind fun c => if c.place.finished then none else netHttpUpdate junk c

theorem leads_of_turns {c c' : Client} {n : ℕ} (h : turns junk c n = some c') :
    Leads junk c c' := by
  induction n generalizing c' with
  | zero =>
    obtain rfl := Option.some.inj h
    exact .refl
  | succ n ih =>
    obtain ⟨m, hm, hstep⟩ := Option.bind_eq_some_iff.mp h
    split_ifs at hstep with hfinished
    exact (ih hm).tail ⟨by simpa using hfinished, hstep⟩

theorem turns_of_leads {c c' : Client} (h : Leads junk c c') :
    ∃ n, turns junk c n = some c' := by
  induction h with
  | refl => exact ⟨0, rfl⟩
  | tail _ hturn ih =>
    obtain ⟨n, hn⟩ := ih
    refine ⟨n + 1, ?_⟩
    rw [turns, hn, Option.bind_some, if_neg (by rw [hturn.1]; decide), hturn.2]

theorem turns_stop {c c' : Client} {n m : ℕ} (h : turns junk c n = some c')
    (hfinished : c'.place.finished = true) (hm : n < m) : turns junk c m = none := by
  induction m with
  | zero => omega
  | succ m ih =>
    rw [turns]
    rcases Nat.lt_succ_iff_lt_or_eq.mp hm with hlt | rfl
    · rw [ih hlt]
      rfl
    · rw [h, Option.bind_some, if_pos hfinished]

def keepsAnswering (c : Client) : Bool :=
  c.fd.stream = [] ||
    match c.fd.script with
    | [] => false
    | answer :: _ => answer ≠ .closed && answer ≠ .error

theorem fair_of_turns {fd : RecvEnd} {n : ℕ}
    (hdone : (turns junk (start junk fd) n).any (·.place.finished) = true)
    (hfair : ∀ m ∈ List.range (n + 1),
      (turns junk (start junk fd) m).all keepsAnswering = true) : Fair junk fd := by
  intro c hreach hstream
  obtain ⟨m, hm⟩ := turns_of_leads hreach
  obtain ⟨t, ht, hfinished⟩ : ∃ t, turns junk (start junk fd) n = some t ∧
      t.place.finished = true := by
    cases hend : turns junk (start junk fd) n with
    | none => simp [hend] at hdone
    | some t => exact ⟨t, rfl, by simpa [hend] using hdone⟩
  have hle : m < n + 1 := by
    by_contra hlt
    rw [turns_stop ht hfinished (by omega)] at hm
    exact nomatch hm
  have hkeeps := hfair m (List.mem_range.mpr hle)
  rw [hm, Option.all_some, keepsAnswering] at hkeeps
  cases hscript : c.fd.script with
  | nil => simp [hstream, hscript] at hkeeps
  | cons answer script =>
    refine ⟨answer, script, rfl, ?_⟩
    simpa [hstream, hscript] using hkeeps

/-- `hello` in one chunk. -/
def helloChunked : Response where
  code := [50, 48, 48]
  reason := [79, 75]
  fields := [transferEncodingChunked]
  wire := [53, 13, 10, 104, 101, 108, 108, 111, 13, 10, 48, 13, 10, 13, 10]
  body := [104, 101, 108, 108, 111]

/-- `hello`, delimited by the end of the connection. -/
def helloClosed : Response where
  code := [50, 48, 48]
  reason := [79, 75]
  fields := []
  wire := [104, 101, 108, 108, 111]
  body := [104, 101, 108, 108, 111]

theorem helloChunked_wellFormed : helloChunked.WellFormed where
  code := ⟨digits_of_all (by decide) (by decide), rfl⟩
  reason := text_of_all (by decide)
  fields := by
    intro line hline
    rw [List.mem_singleton.mp hline]
    exact ⟨text_of_all (by decide), by decide⟩
  delimited := by
    have hcoding : Chunked helloChunked.wire helloChunked.body :=
      .chunk [53] [] [104, 101, 108, 108, 111] [48, 13, 10, 13, 10] []
        (digits_of_all (by decide) (by decide)) (by decide) (by decide) ⟨text_of_all rfl, fun b hb => nomatch hb⟩
        (.last [48] [] [] (digits_of_all (by decide) (by decide)) (by decide)
          ⟨text_of_all rfl, fun b hb => nomatch hb⟩
          fun line hline => absurd hline List.not_mem_nil)
    exact .chunked [] [] transferEncodingChunked _ _ (fun l hl => absurd hl List.not_mem_nil)
      (fun l hl => absurd hl List.not_mem_nil)
      ⟨rfl, [32], [99, 104, 117, 110, 107, 101, 100], [], rfl, by
        intro b hb
        exact .inl (List.mem_singleton.mp hb), fun b hb => absurd hb List.not_mem_nil, rfl⟩ hcoding
  fits := by decide

theorem helloClosed_wellFormed : helloClosed.WellFormed where
  code := ⟨digits_of_all (by decide) (by decide), rfl⟩
  reason := text_of_all (by decide)
  fields := fun line hline => absurd hline List.not_mem_nil
  delimited := .close [] _ fun l hl => absurd hl List.not_mem_nil
  fits := by decide

theorem helloChunked_delivered :
    ∃ c, Leads (fun _ _ => 0) (start (fun _ _ => 0)
        ⟨helloChunked.bytes, [.ready 39, .again, .ready 4, .ready 511], []⟩) c ∧
      c.place.finished = true ∧ Delivered helloChunked c := by
  obtain ⟨c, hleads, hfinished, hiff⟩ := delivered_iff (fun _ _ => 0) helloChunked
    [.ready 39, .again, .ready 4, .ready 511] helloChunked_wellFormed
    (fair_of_turns (n := 19) (by decide) (by decide))
  exact ⟨c, hleads, hfinished, hiff.mpr (.inl List.mem_cons_self)⟩

/-- The body that the end of the connection delimits makes the call fail. -/
theorem helloClosed_lost :
    helloClosed.WellFormed ∧
      Fair (fun _ _ => 0) ⟨helloClosed.bytes, [.ready 511, .closed], []⟩ ∧
      ∃ c, Leads (fun _ _ => 0)
          (start (fun _ _ => 0) ⟨helloClosed.bytes, [.ready 511, .closed], []⟩) c ∧
        c.place.finished = true ∧ c.state.error = true ∧
        netHttpData c.state false = (none, 0) ∧ ¬ Delivered helloClosed c := by
  refine ⟨helloClosed_wellFormed,
    fair_of_turns (n := 6) (by decide) (by decide), ?_⟩
  have hend : (turns (fun _ _ => 0)
      (start (fun _ _ => 0) ⟨helloClosed.bytes, [.ready 511, .closed], []⟩) 6).map
        (fun c => (c.place.finished, c.state.error, netHttpData c.state false)) =
      some (true, true, (none, 0)) := by
    decide
  obtain ⟨c, hc, hstate⟩ := Option.map_eq_some_iff.mp hend
  obtain ⟨hfinished, hstate⟩ := Prod.mk.inj hstate
  obtain ⟨herror, hdata⟩ := Prod.mk.inj hstate
  refine ⟨c, leads_of_turns hc, hfinished, herror, hdata, ?_⟩
  intro hdelivered
  exact absurd (hdelivered.1.symm.trans herror) (by decide)

end Scripts

end RetroArch.Net.Http
