/- Responses as a server may send them: the lines of the header, the ways to delimit a body, and
   what `net_http.c` makes of the header lines. -/

import RetroArch.Net.Http

namespace RetroArch.Net.Http

open Library.CString

section Grammar

def crlf : List UInt8 := [13, 10]

/-- Bytes that may stand in a line: no NUL and no part of a line end. -/
def Text (line : List UInt8) : Prop := ∀ b ∈ line, b ≠ 0 ∧ b ≠ 10 ∧ b ≠ 13

def Blank (bytes : List UInt8) : Prop := ∀ b ∈ bytes, b = 32 ∨ b = 9

def Digits (base : ℕ) (digits : List UInt8) : Prop :=
  digits ≠ [] ∧ ∀ b ∈ digits, (digitOf base b).isSome

def lower (b : UInt8) : UInt8 := if 65 ≤ b ∧ b ≤ 90 then b + 32 else b

/-- What stands before the colon; the case does not matter. -/
def fieldName (line : List UInt8) : List UInt8 := (line.takeWhile (· ≠ 58)).map lower

def fieldRest (line : List UInt8) : List UInt8 := (line.dropWhile (· ≠ 58)).drop 1

/-- `"content-length"` -/
def lengthName : List UInt8 :=
  [99, 111, 110, 116, 101, 110, 116, 45, 108, 101, 110, 103, 116, 104]

/-- `"transfer-encoding"` -/
def codingName : List UInt8 :=
  [116, 114, 97, 110, 115, 102, 101, 114, 45, 101, 110, 99, 111, 100, 105, 110, 103]

/-- `"chunked"` -/
def chunkedValue : List UInt8 := [99, 104, 117, 110, 107, 101, 100]

def LengthField (line : List UInt8) (n : ℕ) : Prop :=
  fieldName line = lengthName ∧ ∃ before digits after,
    fieldRest line = before ++ digits ++ after ∧ Blank before ∧ Blank after ∧
      Digits 10 digits ∧ numeral 10 digits = n

def ChunkedField (line : List UInt8) : Prop :=
  fieldName line = codingName ∧ ∃ before value after,
    fieldRest line = before ++ value ++ after ∧ Blank before ∧ Blank after ∧
      value.map lower = chunkedValue

/-- A line that says nothing about where the body ends. -/
def Plain (line : List UInt8) : Prop := fieldName line ≠ lengthName ∧ fieldName line ≠ codingName

/-- What may follow the size of a chunk in its line. -/
def Extension (ext : List UInt8) : Prop :=
  Text ext ∧ ∀ b ∈ ext.head?, b = 59 ∨ b = 32 ∨ b = 9

/-- The chunked coding of a body. The last chunk has the size 0; lines may come behind it. -/
inductive Chunked : List UInt8 → List UInt8 → Prop
  | last (digits ext : List UInt8) (trailer : List (List UInt8)) (hdigits : Digits 16 digits)
      (hzero : numeral 16 digits = 0) (hext : Extension ext)
      (htrailer : ∀ line ∈ trailer, Text line ∧ line ≠ []) :
      Chunked (digits ++ ext ++ crlf ++ (trailer.flatMap (· ++ crlf) ++ crlf)) []
  | chunk (digits ext data wire body : List UInt8) (hdigits : Digits 16 digits)
      (hsize : numeral 16 digits = data.length) (hdata : data ≠ []) (hext : Extension ext)
      (hrest : Chunked wire body) :
      Chunked (digits ++ ext ++ crlf ++ (data ++ (crlf ++ wire))) (data ++ body)

/-- How the header lines delimit a body, and what is sent for it. -/
inductive Delimited : List (List UInt8) → List UInt8 → List UInt8 → Prop
  | length (before after : List (List UInt8)) (line body : List UInt8)
      (hbefore : ∀ l ∈ before, Plain l) (hafter : ∀ l ∈ after, Plain l)
      (hline : LengthField line body.length) : Delimited (before ++ line :: after) body body
  | chunked (before after : List (List UInt8)) (line wire body : List UInt8)
      (hbefore : ∀ l ∈ before, Plain l) (hafter : ∀ l ∈ after, Plain l)
      (hline : ChunkedField line) (hwire : Chunked wire body) :
      Delimited (before ++ line :: after) wire body
  | close (fields : List (List UInt8)) (body : List UInt8) (hfields : ∀ l ∈ fields, Plain l) :
      Delimited fields body body

structure Response where
  code : List UInt8
  reason : List UInt8
  fields : List (List UInt8)
  wire : List UInt8
  body : List UInt8

/-- Lines of a header with the empty line that ends it. -/
def headText (lines : List (List UInt8)) : List UInt8 := lines.flatMap (· ++ crlf) ++ crlf

namespace Response

variable (r : Response)

/-- `HTTP/1.1`, the code and the reason. -/
def statusLine : List UInt8 := httpOne ++ [49, 32] ++ r.code ++ 32 :: r.reason

def header : List UInt8 := headText (r.statusLine :: r.fields)

def bytes : List UInt8 := r.header ++ r.wire

/-- A response that is longer than any block of memory is none. -/
structure WellFormed : Prop where
  code : Digits 10 r.code ∧ r.code.length = 3
  reason : Text r.reason
  fields : ∀ line ∈ r.fields, Text line ∧ line ≠ []
  delimited : Delimited r.fields r.wire r.body
  fits : r.bytes.length < 2 ^ 63

end Response

end Grammar

def lengthOf (line : List UInt8) : ℕ :=
  ((strtol 10 (line.drop 16 ++ [0])).getD 0 % 2 ^ 64).toNat

theorem text_of_all {line : List UInt8}
    (h : line.all (fun b => b ≠ 0 && b ≠ 10 && b ≠ 13) = true) : Text line := by
  intro b hb
  simpa [and_assoc] using List.all_eq_true.mp h b hb

theorem digits_of_all {base : ℕ} {digits : List UInt8} (hne : digits ≠ [])
    (h : digits.all (fun b => (digitOf base b).isSome) = true) : Digits base digits :=
  ⟨hne, List.all_eq_true.mp h⟩

/-- What one line changes of the kind and the length of the body. -/
def hear (kind : Bodytype × ℕ) (line : List UInt8) : Bodytype × ℕ :=
  let kind := if contentLength <+: line then (.len, lengthOf line) else kind
  if line = transferEncodingChunked then (.chunk, kind.2) else kind

def heard (lines : List (List UInt8)) : Bodytype × ℕ := lines.foldl hear (.full, 0)

/-- The length is named in the spelling that `net_http_update` looks for. -/
def NamesLength (fields : List (List UInt8)) : Prop := ∃ line ∈ fields, contentLength <+: line

theorem fieldName_contentLength {line : List UInt8} (h : contentLength <+: line) :
    fieldName line = lengthName ∧ fieldRest line = 32 :: line.drop 16 := by
  obtain ⟨rest, rfl⟩ := h
  exact ⟨rfl, rfl⟩

theorem hear_plain {line : List UInt8} (h : Plain line) (kind : Bodytype × ℕ) :
    hear kind line = kind := by
  have hlength : ¬ contentLength <+: line := fun hp => h.1 (fieldName_contentLength hp).1
  have hcoding : line ≠ transferEncodingChunked := by
    rintro rfl
    exact h.2 rfl
  rw [hear, if_neg hlength, if_neg hcoding]

theorem foldl_hear_plain {lines : List (List UInt8)} (h : ∀ line ∈ lines, Plain line)
    (kind : Bodytype × ℕ) : lines.foldl hear kind = kind := by
  induction lines generalizing kind with
  | nil => rfl
  | cons line lines ih =>
    rw [List.foldl_cons, hear_plain (h line List.mem_cons_self)]
    exact ih (fun l hl => h l (List.mem_cons_of_mem _ hl)) kind

theorem heard_between {before after : List (List UInt8)} (line : List UInt8)
    (hbefore : ∀ l ∈ before, Plain l) (hafter : ∀ l ∈ after, Plain l) :
    heard (before ++ line :: after) = hear (.full, 0) line := by
  rw [heard, List.foldl_append, foldl_hear_plain hbefore, List.foldl_cons,
    foldl_hear_plain hafter]

theorem blank_isSpace {bytes : List UInt8} (h : Blank bytes) : ∀ b ∈ bytes, isSpace b = true := by
  intro b hb
  rcases h b hb with rfl | rfl <;> rfl

theorem blank_stops {after rest : List UInt8} {b : UInt8} (h : Blank after)
    (hb : digitOf 10 b = none ∧ b ≠ 120 ∧ b ≠ 88) : Stops 10 (after ++ b :: rest) := by
  cases after with
  | nil => exact ⟨b, rest, rfl, hb⟩
  | cons a after =>
    refine ⟨a, after ++ b :: rest, rfl, ?_⟩
    rcases h a List.mem_cons_self with rfl | rfl <;> decide

theorem lengthOf_field {line : List UInt8} {n : ℕ} (hline : LengthField line n)
    (hname : contentLength <+: line) (hn : n < 2 ^ 63) : lengthOf line = n := by
  obtain ⟨-, before, digits, after, hrest, hbefore, hafter, hdigits, hnum⟩ := hline
  rw [(fieldName_contentLength hname).2] at hrest
  obtain ⟨blanks, hblanks, hdrop⟩ : ∃ blanks, Blank blanks ∧
      line.drop 16 = blanks ++ digits ++ after := by
    cases before with
    | nil =>
      -- the space after the colon is no digit
      obtain ⟨d, ds, rfl⟩ := List.exists_cons_of_ne_nil hdigits.1
      rw [List.nil_append, List.cons_append] at hrest
      obtain ⟨rfl, -⟩ := List.cons.inj hrest
      exact absurd (hdigits.2 32 List.mem_cons_self) (by decide)
    | cons b before =>
      rw [List.cons_append, List.cons_append] at hrest
      obtain ⟨-, hrest⟩ := List.cons.inj hrest
      exact ⟨before, fun b hb => hbefore b (List.mem_cons_of_mem _ hb), hrest⟩
  have hread := strtol_numeral blanks digits (after ++ [0]) (blank_isSpace hblanks) hdigits.1
    hdigits.2 (blank_stops hafter ⟨rfl, by decide, by decide⟩) (hnum ▸ hn)
  rw [lengthOf, hdrop, List.append_assoc _ after, hread, Option.getD_some, hnum,
    Int.emod_eq_of_lt (by omega) (by omega), Int.toNat_natCast]

theorem not_namesLength_plain {fields : List (List UInt8)} (h : ∀ line ∈ fields, Plain line) :
    ¬ NamesLength fields := by
  rintro ⟨line, hmem, hp⟩
  exact (h line hmem).1 (fieldName_contentLength hp).1

theorem not_mem_plain {fields : List (List UInt8)} (h : ∀ line ∈ fields, Plain line) :
    transferEncodingChunked ∉ fields := fun hmem => (h _ hmem).2 rfl

theorem heard_length {before after : List (List UInt8)} {line : List UInt8} {n : ℕ}
    (hbefore : ∀ l ∈ before, Plain l) (hafter : ∀ l ∈ after, Plain l)
    (hline : LengthField line n) (hn : n < 2 ^ 63) :
    transferEncodingChunked ∉ before ++ line :: after ∧
      ((NamesLength (before ++ line :: after) ∧ heard (before ++ line :: after) = (.len, n)) ∨
        (¬ NamesLength (before ++ line :: after) ∧
          heard (before ++ line :: after) = (.full, 0))) := by
  have hcoding : line ≠ transferEncodingChunked := by
    rintro rfl
    exact absurd hline.1 (by decide)
  refine ⟨?_, ?_⟩
  · simp only [List.mem_append, List.mem_cons, not_or]
    exact ⟨not_mem_plain hbefore, hcoding.symm, not_mem_plain hafter⟩
  · rw [heard_between line hbefore hafter, hear]
    by_cases hname : contentLength <+: line
    · left
      refine ⟨⟨line, by simp, hname⟩, ?_⟩
      rw [if_pos hname, if_neg hcoding, lengthOf_field hline hname hn]
    · right
      refine ⟨?_, by rw [if_neg hname, if_neg hcoding]⟩
      rintro ⟨l, hmem, hp⟩
      rcases List.mem_append.mp hmem with hl | hl
      · exact not_namesLength_plain hbefore ⟨l, hl, hp⟩
      · rcases List.mem_cons.mp hl with rfl | hl
        · exact hname hp
        · exact not_namesLength_plain hafter ⟨l, hl, hp⟩

theorem heard_chunked {before after : List (List UInt8)} {line : List UInt8}
    (hbefore : ∀ l ∈ before, Plain l) (hafter : ∀ l ∈ after, Plain l)
    (hline : ChunkedField line) :
    ¬ NamesLength (before ++ line :: after) ∧
      ((transferEncodingChunked ∈ before ++ line :: after ∧
          heard (before ++ line :: after) = (.chunk, 0)) ∨
        (transferEncodingChunked ∉ before ++ line :: after ∧
          heard (before ++ line :: after) = (.full, 0))) := by
  have hlength : ¬ contentLength <+: line := by
    intro hp
    have hname := (fieldName_contentLength hp).1
    rw [hline.1] at hname
    exact absurd hname (by decide)
  refine ⟨?_, ?_⟩
  · rintro ⟨l, hmem, hp⟩
    rcases List.mem_append.mp hmem with hl | hl
    · exact not_namesLength_plain hbefore ⟨l, hl, hp⟩
    · rcases List.mem_cons.mp hl with rfl | hl
      · exact hlength hp
      · exact not_namesLength_plain hafter ⟨l, hl, hp⟩
  · rw [heard_between line hbefore hafter, hear, if_neg hlength]
    by_cases hcoding : line = transferEncodingChunked
    · exact .inl ⟨by simp [hcoding], by rw [if_pos hcoding]⟩
    · refine .inr ⟨?_, by rw [if_neg hcoding]⟩
      simp only [List.mem_append, List.mem_cons, not_or]
      exact ⟨not_mem_plain hbefore, Ne.symm hcoding, not_mem_plain hafter⟩

theorem heard_fields {r : Response} (hr : r.WellFormed) :
    (transferEncodingChunked ∈ r.fields ∧ heard r.fields = (.chunk, 0) ∧
        Chunked r.wire r.body) ∨
      (transferEncodingChunked ∉ r.fields ∧ NamesLength r.fields ∧
        heard r.fields = (.len, r.body.length) ∧ r.wire = r.body) ∨
      (transferEncodingChunked ∉ r.fields ∧ ¬ NamesLength r.fields ∧
        heard r.fields = (.full, 0)) := by
  obtain ⟨code, reason, fields, wire, body⟩ := r
  have hfits := hr.fits
  rw [Response.bytes, List.length_append] at hfits
  have hdelimited := hr.delimited
  simp only at hfits hdelimited ⊢
  cases hdelimited with
  | length before after line _ hbefore hafter hline =>
    obtain ⟨hno, ⟨hnames, hheard⟩ | ⟨hnames, hheard⟩⟩ :=
      heard_length hbefore hafter hline (by omega)
    · exact .inr (.inl ⟨hno, hnames, hheard, rfl⟩)
    · exact .inr (.inr ⟨hno, hnames, hheard⟩)
  | chunked before after line _ _ hbefore hafter hline hwire =>
    obtain ⟨hno, ⟨hmem, hheard⟩ | ⟨hmem, hheard⟩⟩ := heard_chunked hbefore hafter hline
    · exact .inl ⟨hmem, hheard, hwire⟩
    · exact .inr (.inr ⟨hmem, hno, hheard⟩)
  | close _ _ hfields =>
    exact .inr (.inr ⟨not_mem_plain hfields, not_namesLength_plain hfields,
      foldl_hear_plain hfields _⟩)

end RetroArch.Net.Http
