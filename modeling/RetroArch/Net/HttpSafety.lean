/- Every access of the HTTP client stays inside its buffer as long as the numbers it reads end
   and a chunked body starts with nothing left of another length. -/

import Mathlib.Data.List.Infix
import RetroArch.Library.Run
import RetroArch.Net.Http

set_option maxRecDepth 10000

namespace RetroArch.Net.Http

open Library.CString Library.Memory Library.Run Socket

/-- Among the bytes that have arrived, the number that is read at the ninth byte of the first
line comes to an end. -/
def StatusEnds (h : HttpT) : Prop :=
  h.part = .headerTop → ∀ line ∈ endLine h, ∀ ended ∈ line,
    startsWith httpOne ended.2 = some true → NumberEnds 10 ((ended.2.take h.pos).drop 9)

/-- The data of a chunked body reaches up to where its next chunk is expected, and the size of
that chunk comes to an end among the bytes that have arrived. -/
def ChunkEnds (h : HttpT) (newlen : ℕ) : Prop :=
  h.bodytype = .chunk → h.part = .bodyChunklen →
    h.len ≤ h.pos + newlen ∧
      ∀ found ∈ memchr h.data 10 (h.len + 2) (h.pos + newlen - (h.len + 2)),
        found ≠ none → NumberEnds 16 ((h.data.take (h.pos + newlen)).drop h.len)

def Framed (c : Client) : Prop :=
  match c.place with
  | .headers => StatusEnds c.state
  | .parseAgain newlen => ChunkEnds c.state newlen
  | _ => True

instance (h : HttpT) : Decidable (StatusEnds h) := inferInstanceAs (Decidable (_ → _))

instance (h : HttpT) (newlen : ℕ) : Decidable (ChunkEnds h newlen) :=
  inferInstanceAs (Decidable (_ → _))

instance (c : Client) : Decidable (Framed c) :=
  match c with
  | ⟨h, _, .headers⟩ => inferInstanceAs (Decidable (StatusEnds h))
  | ⟨h, _, .parseAgain newlen⟩ => inferInstanceAs (Decidable (ChunkEnds h newlen))
  | ⟨_, _, .called⟩ => inferInstanceAs (Decidable True)
  | ⟨_, _, .body _⟩ => inferInstanceAs (Decidable True)
  | ⟨_, _, .returned _ _⟩ => inferInstanceAs (Decidable True)

/-- The bytes behind `pos` that are still to be looked at. -/
def Place.arrived : Place → ℕ
  | .body newlen => newlen
  | .parseAgain newlen => newlen
  | _ => 0

/-- The response is not at its end yet. -/
def HttpT.Open (h : HttpT) : Prop := h.part.inHeader = true ∨ h.part.inBody = true

/-- The buffer of an open response is as long as `buflen` says, and a read has room in it. -/
structure HttpT.Roomy (h : HttpT) (arrived : ℕ) : Prop where
  length : h.data.length = h.buflen
  least : 512 ≤ h.buflen
  room : h.pos + arrived + 64 < h.buflen

structure Sound (c : Client) : Prop where
  fits : c.state.pos + c.place.arrived ≤ c.state.buflen
  roomy : c.state.Open → c.state.Roomy c.place.arrived

theorem HttpT.Roomy.sound {h : HttpT} {fd : RecvEnd} {place : Place}
    (hroom : h.Roomy place.arrived) : Sound ⟨h, fd, place⟩ :=
  ⟨by have := hroom.room; simp only; omega, fun _ => hroom⟩

theorem not_open_done {h : HttpT} (hdone : h.part = .done) : ¬ h.Open := by
  simp [HttpT.Open, hdone, Part.inHeader, Part.inBody]

theorem not_open_error {h : HttpT} (herror : h.part = .error) : ¬ h.Open := by
  simp [HttpT.Open, herror, Part.inHeader, Part.inBody]

theorem length_realloc (junk : Junk) (data : List UInt8) (size : ℕ) :
    (realloc junk data size).length = size := by
  rw [realloc, List.length_append, List.length_take, List.length_map, List.length_drop,
    List.length_range]
  omega

theorem start_sound (junk : Junk) (fd : RecvEnd) : Sound (start junk fd) := by
  apply HttpT.Roomy.sound
  exact ⟨length_realloc junk [] 512, Nat.le_refl 512, by simp [newState, Place.arrived]⟩

theorem fail_sound {h : HttpT} (fd : RecvEnd) (hpos : h.pos ≤ h.buflen) : Sound (fail h fd) :=
  ⟨hpos, fun hopen => absurd hopen (not_open_error rfl)⟩

theorem finish_sound {h : HttpT} (fd : RecvEnd) (hpos : h.pos ≤ h.buflen)
    (hroomy : h.Open → h.Roomy 0) : Sound (finish h fd) := ⟨hpos, hroomy⟩

theorem finishBody_sound {junk : Junk} {h : HttpT} (fd : RecvEnd) (place : Place)
    (hpos : h.pos + place.arrived ≤ h.buflen) : Sound ⟨finishBody junk h, fd, place⟩ :=
  ⟨hpos, fun hopen => absurd hopen (not_open_done rfl)⟩

theorem grow_roomy (junk : Junk) {h : HttpT} {newlen : ℕ} (hlength : h.data.length = h.buflen)
    (hleast : 512 ≤ h.buflen) (hfits : h.pos + newlen ≤ h.buflen) :
    (grow junk h newlen).Roomy newlen := by
  have hsub : wrapSub h.buflen 64 = h.buflen - 64 := if_pos (by omega)
  rw [grow, hsub]
  split_ifs with hfull
  · exact ⟨length_realloc _ _ _, by simp only; omega, by simp only; omega⟩
  · exact ⟨hlength, hleast, by omega⟩

@[simp] theorem grow_pos (junk : Junk) (h : HttpT) (newlen : ℕ) :
    (grow junk h newlen).pos = h.pos := by
  rw [grow]
  split_ifs <;> rfl

@[simp] theorem grow_part (junk : Junk) (h : HttpT) (newlen : ℕ) :
    (grow junk h newlen).part = h.part := by
  rw [grow]
  split_ifs <;> rfl

@[simp] theorem grow_bodytype (junk : Junk) (h : HttpT) (newlen : ℕ) :
    (grow junk h newlen).bodytype = h.bodytype := by
  rw [grow]
  split_ifs <;> rfl

@[simp] theorem grow_len (junk : Junk) (h : HttpT) (newlen : ℕ) :
    (grow junk h newlen).len = h.len := by
  rw [grow]
  split_ifs <;> rfl

@[simp] theorem grow_error (junk : Junk) (h : HttpT) (newlen : ℕ) :
    (grow junk h newlen).error = h.error := by
  rw [grow]
  split_ifs <;> rfl

theorem le_grow_buflen (junk : Junk) (h : HttpT) (newlen : ℕ) :
    h.buflen ≤ (grow junk h newlen).buflen := by
  rw [grow]
  split_ifs
  · simp only
    omega
  · exact Nat.le_refl _

section Pieces

variable {h : HttpT}

theorem receive_spec (fd : RecvEnd) (hlength : h.data.length = h.buflen)
    (hpos : h.pos ≤ h.buflen) :
    ∃ got data error fd', receive h fd = some (got, { h with data := data, error := error }, fd') ∧
      data.length = h.data.length ∧ ∀ n, got = some n → h.pos + n ≤ h.buflen := by
  have hsize : h.pos + (h.buflen - h.pos) ≤ h.data.length := by omega
  rw [receive, sizeSub, if_pos hpos, Option.bind_some, if_pos hsize]
  rcases hread : socketReceiveAllNonblocking fd (h.buflen - h.pos) with ⟨_ | bs, fd'⟩
  · exact ⟨none, h.data, true, fd', rfl, rfl, by simp⟩
  · obtain ⟨-, hlen, -⟩ := socketReceiveAllNonblocking_spec fd fd' _ _ hread
    have hpokes : pokes h.data h.pos bs =
        some (h.data.take h.pos ++ bs ++ h.data.drop (h.pos + bs.length)) := by
      rw [pokes, if_pos (by omega)]
    refine ⟨some bs.length, _, h.error, fd', ?_, length_pokes hpokes, ?_⟩
    · simp only [hpokes, Option.map_some]
    · intro n hn
      obtain rfl := Option.some.inj hn
      omega

theorem endLine_spec (hpos : h.pos ≤ h.data.length) :
    ∃ line, endLine h = some line ∧ ∀ lineend data, line = some (lineend, data) →
      lineend < h.pos ∧ data.length = h.data.length ∧ data[lineend]? = some 0 := by
  obtain ⟨found, hfound, hrange⟩ := memchr_spec h.data 10 0 h.pos (by omega)
  rw [endLine, hfound, Option.bind_some]
  cases found with
  | none => exact ⟨none, rfl, by simp⟩
  | some i =>
    obtain ⟨-, hi⟩ := hrange i rfl
    have hlt : i < h.data.length := by omega
    have hlen : (h.data.set i 0).length = h.data.length := List.length_set
    have hnul : (h.data.set i 0)[i]? = some 0 := by
      rw [List.getElem?_set_self (by omega)]
    simp only [poke_of_lt hlt, Option.bind_some]
    by_cases hzero : i = 0
    · rw [if_pos hzero]
      refine ⟨_, rfl, ?_⟩
      rintro lineend data ⟨⟩
      exact ⟨by omega, hlen, hnul⟩
    · rw [if_neg hzero, peeks_of_le (by omega), Option.bind_some]
      split_ifs
      · rw [poke_of_lt (by omega), Option.map_some]
        refine ⟨_, rfl, ?_⟩
        rintro lineend data ⟨⟩
        refine ⟨by omega, List.length_set.trans hlen, ?_⟩
        rw [List.getElem?_set_ne (by omega), hnul]
      · refine ⟨_, rfl, ?_⟩
        rintro lineend data ⟨⟩
        exact ⟨by omega, hlen, hnul⟩

theorem statusLine_spec (hlen : 512 ≤ h.data.length)
    (hends : startsWith httpOne h.data = some true → NumberEnds 10 (h.data.drop 9)) :
    ∃ parsed, statusLine h = some parsed ∧ ∀ h', parsed = some h' →
      ∃ status, h' = { h with status := status, part := .header } := by
  obtain ⟨http, hhttp⟩ := startsWith_isSome httpOne h.data (by simp [httpOne]; omega)
  rw [statusLine, hhttp, Option.bind_some]
  cases http with
  | false => exact ⟨none, rfl, by simp⟩
  | true =>
    obtain ⟨status, hstatus⟩ := strtoul_isSome (hends hhttp)
    rw [if_pos rfl, hstatus, Option.map_some]
    refine ⟨_, rfl, ?_⟩
    rintro h' ⟨⟩
    exact ⟨_, rfl⟩

theorem lengthHeader_spec (hlen : 512 ≤ h.data.length) {lineend : ℕ}
    (hnul : h.data[lineend]? = some 0) :
    ∃ bodytype len, lengthHeader h = some { h with bodytype := bodytype, len := len } := by
  obtain ⟨length, hlength⟩ := startsWith_isSome contentLength h.data
    (by simp [contentLength]; omega)
  rw [lengthHeader, hlength, Option.bind_some]
  cases length with
  | false => exact ⟨h.bodytype, h.len, rfl⟩
  | true =>
    -- the NUL does not stand among the sixteen characters of the name
    have hbehind : 16 ≤ lineend := by
      by_contra hin
      have htake := startsWith_true hlength
      have hget : (h.data.take contentLength.length)[lineend]? = some 0 := by
        rw [List.getElem?_take_of_lt (by simp [contentLength]; omega), hnul]
      rw [htake] at hget
      have hmem : (0 : UInt8) ∈ contentLength := List.mem_of_getElem? hget
      exact absurd hmem (by decide)
    have hmem : (0 : UInt8) ∈ h.data.drop 16 := by
      apply List.mem_of_getElem? (i := lineend - 16)
      rw [List.getElem?_drop, show 16 + (lineend - 16) = lineend by omega, hnul]
    obtain ⟨n, hn⟩ := strtol_isSome (numberEnds_of_nul 10 hmem)
    exact ⟨.len, (n % 2 ^ 64).toNat, by rw [if_pos rfl, hn]; rfl⟩

theorem codingHeader_spec (hlen : 512 ≤ h.data.length) :
    ∃ bodytype, codingHeader h = some { h with bodytype := bodytype } := by
  obtain ⟨chunked, hchunked⟩ := strcmpEq_isSome transferEncodingChunked h.data
    (by simp [transferEncodingChunked]; omega)
  rw [codingHeader, hchunked, Option.map_some]
  cases chunked with
  | false => exact ⟨h.bodytype, rfl⟩
  | true => exact ⟨.chunk, rfl⟩

theorem emptyLine_spec (hlen : 512 ≤ h.data.length) :
    ∃ part, emptyLine h = some { h with part := part } := by
  rw [emptyLine, peeks_of_le (by omega), Option.map_some]
  split_ifs
  · exact ⟨.bodyChunklen, rfl⟩
  · exact ⟨.body, rfl⟩
  · exact ⟨h.part, rfl⟩

/-- A header line with its NUL is read inside the buffer, and only the kind, the length and the
place of the body may change. -/
theorem headerLine_spec (hlen : 512 ≤ h.data.length) {lineend : ℕ}
    (hnul : h.data[lineend]? = some 0) :
    ∃ bodytype len part, headerLine h =
      some { h with bodytype := bodytype, len := len, part := part } := by
  obtain ⟨bodytype, len, hlength⟩ := lengthHeader_spec hlen hnul
  obtain ⟨bodytype', hcoding⟩ := codingHeader_spec
    (h := { h with bodytype := bodytype, len := len }) hlen
  obtain ⟨part, hempty⟩ := emptyLine_spec
    (h := { h with bodytype := bodytype', len := len }) hlen
  exact ⟨bodytype', len, part, by
    rw [headerLine, hlength, Option.bind_some, hcoding, Option.bind_some, hempty]⟩

theorem dropLine_spec {lineend : ℕ} (hline : lineend < h.pos) (hpos : h.pos ≤ h.data.length) :
    ∃ data, dropLine h lineend = some { h with data := data, pos := h.pos - (lineend + 1) } ∧
      data.length = h.data.length := by
  obtain ⟨data, hmove, hlen⟩ := memmove_spec h.data 0 (lineend + 1) (h.pos - (lineend + 1))
    (by omega) (by omega)
  refine ⟨data, ?_, hlen⟩
  rw [dropLine, sizeSub, if_pos (by omega), Option.bind_some, hmove, Option.map_some]

end Pieces

section Steps

variable {junk : Junk} {h : HttpT}

theorem stepCalled_sound (fd : RecvEnd) (hs : Sound ⟨h, fd, .called⟩) :
    ∃ c, stepCalled junk h fd = some c ∧ Sound c := by
  rw [stepCalled]
  split_ifs with herror hheader
  · exact ⟨_, rfl, fail_sound fd hs.fits⟩
  · have hroomy : h.Roomy 0 := hs.roomy (.inl hheader)
    obtain ⟨got, data, error, fd', hreceive, hdata, hgot⟩ :=
      receive_spec fd hroomy.length hs.fits
    rw [hreceive, Option.map_some]
    cases got with
    | none => exact ⟨_, rfl, fail_sound fd' hs.fits⟩
    | some n =>
      have hgrown := grow_roomy junk (h := { h with data := data, error := error })
        (hdata.trans hroomy.length) hroomy.least (hgot n rfl)
      refine ⟨_, rfl, HttpT.Roomy.sound ?_⟩
      exact ⟨hgrown.length, hgrown.least, by simpa [Place.arrived] using hgrown.room⟩
  · exact ⟨_, rfl, hs.fits, hs.roomy⟩

theorem stepHeaders_sound (fd : RecvEnd) (hs : Sound ⟨h, fd, .headers⟩) (hends : StatusEnds h) :
    ∃ c, stepHeaders h fd = some c ∧ Sound c := by
  rw [stepHeaders]
  by_cases hheader : h.part.inHeader
  · rw [if_pos hheader]
    have hroomy : h.Roomy 0 := hs.roomy (.inl hheader)
    have hroom := hroomy.room
    have hlength := hroomy.length
    have hleast := hroomy.least
    have hpos : h.pos ≤ h.data.length := by omega
    obtain ⟨line, hline, hfound⟩ := endLine_spec hpos
    rw [hline, Option.bind_some]
    rcases line with _ | ⟨lineend, data⟩
    · exact ⟨_, rfl, finish_sound fd hs.fits fun _ => hroomy⟩
    · obtain ⟨hlt, hdata, hnul⟩ := hfound lineend data rfl
      -- whatever the line says, the rest of the data is moved in front of it
      have hdropped : ∀ h' : HttpT, h'.pos = h.pos → h'.buflen = h.buflen → h'.data = data →
          ∃ c, (dropLine h' lineend).map (fun h => (⟨h, fd, .headers⟩ : Client)) = some c ∧
            Sound c := by
        intro h' hpos' hbuflen' hdata'
        have hline' : lineend < h'.pos := by omega
        obtain ⟨moved, hdrop, hmoved⟩ := dropLine_spec hline' (by rw [hdata', hdata]; omega)
        refine ⟨_, by rw [hdrop, Option.map_some], HttpT.Roomy.sound ?_⟩
        refine ⟨?_, by simp only; omega, ?_⟩
        · simp only
          rw [hmoved, hdata', hdata, hlength, hbuflen']
        · simp only [Place.arrived]
          omega
      by_cases htop : h.part = .headerTop
      · simp only [if_pos htop]
        have hnumber : startsWith httpOne data = some true → NumberEnds 10 (data.drop 9) := by
          intro hhttp
          have hread := hends htop _ hline _ rfl hhttp
          exact hread.of_isPrefix ((List.take_prefix h.pos data).drop 9)
        obtain ⟨parsed, hparsed, hstatus⟩ := statusLine_spec (h := { h with data := data })
          (by simp only; omega) hnumber
        rw [hparsed, Option.bind_some]
        cases parsed with
        | none => exact ⟨_, rfl, fail_sound fd hs.fits⟩
        | some h' =>
          obtain ⟨status, rfl⟩ := hstatus h' rfl
          exact hdropped _ rfl rfl rfl
      · simp only [if_neg htop]
        obtain ⟨bodytype, len, part, hparsed⟩ := headerLine_spec (h := { h with data := data })
          (by simp only; omega) hnul
        rw [hparsed, Option.bind_some]
        exact hdropped _ rfl rfl rfl
  · rw [if_neg hheader]
    refine ⟨_, rfl, ?_, ?_⟩
    · simpa [Place.arrived] using hs.fits
    · intro hopen
      have hroomy : h.Roomy 0 := hs.roomy hopen
      exact ⟨hroomy.length, hroomy.least, by simpa [Place.arrived] using hroomy.room⟩

theorem stepBody_sound (fd : RecvEnd) (newlen : ℕ) (hs : Sound ⟨h, fd, .body newlen⟩) :
    ∃ c, stepBody junk h fd newlen = some c ∧ Sound c := by
  have hfits : h.pos + newlen ≤ h.buflen := hs.fits
  rw [stepBody]
  split_ifs with hbody hnone
  · have hroomy : h.Roomy newlen := hs.roomy (.inr hbody)
    obtain ⟨got, data, error, fd', hreceive, hdata, hgot⟩ :=
      receive_spec fd hroomy.length (by omega)
    rw [hreceive, Option.map_some]
    cases got with
    | none =>
      simp only
      split_ifs with hfull
      · refine ⟨_, rfl, ?_, ?_⟩
        · simp only [Place.arrived, grow_pos]
          exact Nat.le_trans (by simp only [finishBody]; omega) (le_grow_buflen junk _ 0)
        · exact fun hopen => absurd hopen (not_open_done (by rw [grow_part]; rfl))
      · exact ⟨_, rfl, fail_sound fd' (by simp only; omega)⟩
    | some n =>
      exact ⟨_, rfl, HttpT.Roomy.sound (grow_roomy junk (hdata.trans hroomy.length)
        hroomy.least (hgot n rfl))⟩
  · exact ⟨_, rfl, hfits, hs.roomy⟩
  · refine ⟨_, rfl, finish_sound fd (by omega) ?_⟩
    intro hopen
    have hroomy : h.Roomy newlen := hs.roomy hopen
    have hroom := hroomy.room
    exact ⟨hroomy.length, hroomy.least, by omega⟩

theorem stepChunklen_sound (fd : RecvEnd) (newlen : ℕ) (hs : Sound ⟨h, fd, .parseAgain newlen⟩)
    (hpart : h.part = .bodyChunklen) (hlen : h.len ≤ h.pos + newlen)
    (hends : ∀ found ∈ memchr h.data 10 (h.len + 2) (h.pos + newlen - (h.len + 2)),
      found ≠ none → NumberEnds 16 ((h.data.take (h.pos + newlen)).drop h.len)) :
    ∃ c, stepChunklen junk h fd newlen = some c ∧ Sound c := by
  have hfits : h.pos + newlen ≤ h.buflen := hs.fits
  have hroomy : h.Roomy newlen := hs.roomy (.inr (by simp [hpart, Part.inBody]))
  have hroom := hroomy.room
  have hlength := hroomy.length
  have hleast := hroomy.least
  have hmore : ({ h with pos := h.pos + newlen } : HttpT).Roomy 0 :=
    ⟨hlength, hleast, by simp only; omega⟩
  have hsub : wrapSub (h.pos + newlen) h.len = h.pos + newlen - h.len := if_pos hlen
  rw [stepChunklen]
  simp only [hsub]
  split_ifs with htwo
  · rw [sizeSub, if_pos (by omega), Option.bind_some]
    obtain ⟨found, hfound, hrange⟩ := memchr_spec h.data 10 (h.len + 2)
      (h.pos + newlen - (h.len + 2)) (by omega)
    rw [hfound, Option.bind_some]
    cases found with
    | none => exact ⟨_, rfl, finish_sound fd hfits fun _ => hmore⟩
    | some lineend =>
      obtain ⟨hafter, hbefore⟩ := hrange lineend rfl
      have hnumber : NumberEnds 16 (h.data.drop h.len) :=
        (hends _ hfound (by simp)).of_isPrefix ((List.take_prefix _ h.data).drop h.len)
      obtain ⟨chunklen, hchunklen⟩ := strtoul_isSome hnumber
      obtain ⟨data, hmove, hdata⟩ := memmove_spec h.data h.len (lineend + 1)
        (h.pos + newlen - (lineend + 1)) (by omega) (by omega)
      simp only [hchunklen, Option.bind_some]
      rw [sizeSub, if_pos (by omega), Option.bind_some, hmove, Option.map_some]
      refine ⟨_, rfl, ?_⟩
      split_ifs with hzero
      · exact finishBody_sound fd _ (by simp only [Place.arrived]; omega)
      · exact HttpT.Roomy.sound ⟨hdata.trans hlength, hleast,
          by simp only [Place.arrived]; omega⟩
  · exact ⟨_, rfl, finish_sound fd hfits fun _ => hmore⟩

theorem stepChunk_sound (fd : RecvEnd) (newlen : ℕ) (hs : Sound ⟨h, fd, .parseAgain newlen⟩)
    (hpart : h.part = .body) : Sound (stepChunk h fd newlen) := by
  have hroomy : h.Roomy newlen := hs.roomy (.inr (by simp [hpart, Part.inBody]))
  have hroom := hroomy.room
  rw [stepChunk]
  split_ifs with hmore
  · exact HttpT.Roomy.sound ⟨hroomy.length, hroomy.least, by simp only [Place.arrived]; omega⟩
  · exact finish_sound fd (by simp only; omega)
      fun _ => ⟨hroomy.length, hroomy.least, by simp only; omega⟩

theorem stepWhole_sound (fd : RecvEnd) (newlen : ℕ)
    (hs : Sound ⟨h, fd, .parseAgain newlen⟩) : Sound (stepWhole junk h fd newlen) := by
  have hfits : h.pos + newlen ≤ h.buflen := hs.fits
  rw [stepWhole]
  by_cases hend : h.pos + newlen = h.len
  · simp only [hend, if_true]
    rw [if_neg (by simp [finishBody])]
    exact finish_sound fd (by simp only [finishBody]; omega)
      fun hopen => absurd hopen (not_open_done rfl)
  · simp only [hend, if_false]
    split_ifs
    · exact fail_sound fd hfits
    · refine finish_sound fd hfits fun hopen => ?_
      have hroomy : h.Roomy newlen := hs.roomy hopen
      have hroom := hroomy.room
      exact ⟨hroomy.length, hroomy.least, by simp only; omega⟩

theorem stepParse_sound (fd : RecvEnd) (newlen : ℕ) (hs : Sound ⟨h, fd, .parseAgain newlen⟩)
    (hends : ChunkEnds h newlen) : ∃ c, stepParse junk h fd newlen = some c ∧ Sound c := by
  rw [stepParse]
  split_ifs with hchunk hlen hbody
  · obtain ⟨hle, hnumber⟩ := hends hchunk hlen
    exact stepChunklen_sound fd newlen hs hlen hle hnumber
  · exact ⟨_, rfl, stepChunk_sound fd newlen hs hbody⟩
  · have hfits := hs.fits
    simp only [Place.arrived] at hfits
    refine ⟨_, rfl, finish_sound fd (by omega) fun hopen => ?_⟩
    have hroomy : h.Roomy newlen := hs.roomy hopen
    have hroom := hroomy.room
    exact ⟨hroomy.length, hroomy.least, by omega⟩
  · exact ⟨_, rfl, stepWhole_sound fd newlen hs⟩

theorem step_sound (junk : Junk) {c : Client} (hs : Sound c) (hframed : Framed c) :
    ∃ c', netHttpUpdate junk c = some c' ∧ Sound c' := by
  obtain ⟨h, fd, place⟩ := c
  cases place with
  | called => exact stepCalled_sound fd hs
  | headers => exact stepHeaders_sound fd hs hframed
  | body newlen => exact stepBody_sound fd newlen hs
  | parseAgain newlen => exact stepParse_sound fd newlen hs hframed
  | returned ret out => exact ⟨_, rfl, hs.fits, hs.roomy⟩

end Steps

/-- A response in one chunk: `HTTP/1.1 200 OK`, `Transfer-Encoding: chunked`, and `hello`. -/
def chunkedHello : RecvEnd where
  stream :=
    [72, 84, 84, 80, 47, 49, 46, 49, 32, 50, 48, 48, 32, 79, 75, 13, 10, 84, 114, 97, 110, 115,
      102, 101, 114, 45, 69, 110, 99, 111, 100, 105, 110, 103, 58, 32, 99, 104, 117, 110, 107, 101,
      100, 13, 10, 13, 10, 53, 13, 10, 104, 101, 108, 108, 111, 13, 10, 48, 13, 10, 13, 10]
  script := [.ready 39, .again, .ready 511]
  calls := []

/-- The same with `Content-Length: 100` before the coding. -/
def lengthChunkedHello : RecvEnd where
  stream :=
    [72, 84, 84, 80, 47, 49, 46, 49, 32, 50, 48, 48, 32, 79, 75, 13, 10, 67, 111, 110, 116, 101,
      110, 116, 45, 76, 101, 110, 103, 116, 104, 58, 32, 49, 48, 48, 13, 10, 84, 114, 97, 110, 115,
      102, 101, 114, 45, 69, 110, 99, 111, 100, 105, 110, 103, 58, 32, 99, 104, 117, 110, 107, 101,
      100, 13, 10, 13, 10, 53, 13, 10, 104, 101, 108, 108, 111, 13, 10, 48, 13, 10, 13, 10]
  script := [.ready 511]
  calls := []

end RetroArch.Net.Http
