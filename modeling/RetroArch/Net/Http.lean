/- The HTTP client of `net_http.c`: one buffer that holds header lines first and then the body,
   filled by reads of a non-blocking socket. Each turn of a loop is a step of its own. -/

import RetroArch.Library.CString
import RetroArch.Net.Socket

namespace RetroArch.Net.Http

open Library.CString Library.Memory Socket

inductive Part
  | headerTop
  | header
  | body
  | bodyChunklen
  | done
  | error
  deriving DecidableEq, Repr

/-- `part < P_BODY` -/
def Part.inHeader (part : Part) : Bool := part = .headerTop || part = .header

/-- `part >= P_BODY && part < P_DONE` -/
def Part.inBody (part : Part) : Bool := part = .body || part = .bodyChunklen

inductive Bodytype
  | full
  | len
  | chunk
  deriving DecidableEq, Repr

structure HttpT where
  status : ℤ
  part : Part
  bodytype : Bodytype
  error : Bool
  pos : ℕ
  len : ℕ
  buflen : ℕ
  data : List UInt8
  deriving DecidableEq

/-- Where `net_http_update` stands. `body` and `parseAgain` are reached with the number of
bytes that have come behind `pos`; `returned` has what is left in `*progress` and `*total`. -/
inductive Place
  | called
  | headers
  | body (newlen : ℕ)
  | parseAgain (newlen : ℕ)
  | returned (ret : Bool) (out : Option (ℕ × ℕ))
  deriving DecidableEq

structure Client where
  state : HttpT
  fd : RecvEnd
  place : Place
  deriving DecidableEq

/-- The difference of two `size_t`. -/
def wrapSub (a b : ℕ) : ℕ := if b ≤ a then a - b else 2 ^ 64 + a - b

/-- A difference that is passed on as a size must not wrap around. -/
def sizeSub (a b : ℕ) : Option ℕ := if b ≤ a then some (a - b) else none

/-- What a block of memory holds before it is written, for its size and the index. -/
abbrev Junk := ℕ → ℕ → UInt8

def realloc (junk : Junk) (data : List UInt8) (size : ℕ) : List UInt8 :=
  data.take size ++ ((List.range size).drop data.length).map (junk size)

/-- The state that `net_http_new` allocates. -/
def newState (junk : Junk) : HttpT where
  status := -1
  part := .headerTop
  bodytype := .full
  error := false
  pos := 0
  len := 0
  buflen := 512
  data := realloc junk [] 512

def start (junk : Junk) (fd : RecvEnd) : Client := ⟨newState junk, fd, .called⟩

/-- `"HTTP/1."` -/
def httpOne : List UInt8 := [72, 84, 84, 80, 47, 49, 46]

/-- `"Content-Length: "` -/
def contentLength : List UInt8 :=
  [67, 111, 110, 116, 101, 110, 116, 45, 76, 101, 110, 103, 116, 104, 58, 32]

/-- `"Transfer-Encoding: chunked"` -/
def transferEncodingChunked : List UInt8 :=
  [84, 114, 97, 110, 115, 102, 101, 114, 45, 69, 110, 99, 111, 100, 105, 110, 103, 58, 32,
    99, 104, 117, 110, 107, 101, 100]

section Update

variable (junk : Junk)

/-- The label `fail`. -/
def fail (h : HttpT) (fd : RecvEnd) : Client :=
  ⟨{ h with error := true, part := .error, status := -1 }, fd, .returned true none⟩

/-- The end of the function after the label `parse_again`. -/
def finish (h : HttpT) (fd : RecvEnd) : Client :=
  ⟨h, fd, .returned (h.part = .done) (some (h.pos, if h.bodytype = .len then h.len else 0))⟩

/-- A read into the free part of the buffer; the inner `none` is a negative count. -/
def receive (h : HttpT) (fd : RecvEnd) : Option (Option ℕ × HttpT × RecvEnd) :=
  (sizeSub h.buflen h.pos).bind fun size =>
    if h.pos + size ≤ h.data.length then
      match socketReceiveAllNonblocking fd size with
      | (none, fd) => some (none, { h with error := true }, fd)
      | (some bs, fd) =>
        (pokes h.data h.pos bs).map fun data => (some bs.length, { h with data := data }, fd)
    else none

/-- The buffer is doubled when fewer than 64 bytes of it are free. -/
def grow (h : HttpT) (newlen : ℕ) : HttpT :=
  if h.pos + newlen ≥ wrapSub h.buflen 64 then
    { h with buflen := h.buflen * 2, data := realloc junk h.data (h.buflen * 2) }
  else h

def finishBody (h : HttpT) : HttpT := { h with part := .done, data := realloc junk h.data h.len }

/-- The line end is looked for, and it and a `\r` before it are overwritten with NULs. -/
def endLine (h : HttpT) : Option (Option (ℕ × List UInt8)) :=
  (memchr h.data 10 0 h.pos).bind fun found =>
    match found with
    | none => some none
    | some lineend =>
      (poke h.data lineend 0).bind fun data =>
        if lineend = 0 then some (some (lineend, data))
        else
          (peeks data (lineend - 1) 1).bind fun before =>
            if before = [13] then
              (poke data (lineend - 1) 0).map fun data => some (lineend, data)
            else some (some (lineend, data))

/-- The status line; the inner `none` is the jump to `fail`. -/
def statusLine (h : HttpT) : Option (Option HttpT) :=
  (startsWith httpOne h.data).bind fun http =>
    if http then
      (strtoul 10 (h.data.drop 9)).map fun status =>
        some { h with status := (BitVec.ofNat 32 status).toInt, part := .header }
    else some none

def lengthHeader (h : HttpT) : Option HttpT :=
  (startsWith contentLength h.data).bind fun length =>
    if length then
      (strtol 10 (h.data.drop 16)).map fun len =>
        { h with bodytype := .len, len := (len % 2 ^ 64).toNat }
    else some h

def codingHeader (h : HttpT) : Option HttpT :=
  (strcmpEq transferEncodingChunked h.data).map fun chunked =>
    if chunked then { h with bodytype := .chunk } else h

/-- The empty line after the header. -/
def emptyLine (h : HttpT) : Option HttpT :=
  (peeks h.data 0 1).map fun first =>
    if first = [0] then { h with part := if h.bodytype = .chunk then .bodyChunklen else .body }
    else h

def headerLine (h : HttpT) : Option HttpT :=
  (lengthHeader h).bind fun h => (codingHeader h).bind emptyLine

/-- What follows the line is moved to the start of the buffer. -/
def dropLine (h : HttpT) (lineend : ℕ) : Option HttpT :=
  (sizeSub h.pos (lineend + 1)).bind fun rest =>
    (memmove h.data 0 (lineend + 1) rest).map fun data => { h with data := data, pos := rest }

/-- One turn of the loop over the lines, and the way out of it. -/
def stepHeaders (h : HttpT) (fd : RecvEnd) : Option Client :=
  if h.part.inHeader then
    (endLine h).bind fun line =>
      match line with
      | none => some (finish h fd)
      | some (lineend, data) =>
        if h.part = .headerTop then
          (statusLine { h with data := data }).bind fun parsed =>
            match parsed with
            | none => some (fail { h with data := data } fd)
            | some h => (dropLine h lineend).map fun h => ⟨h, fd, .headers⟩
        else
          (headerLine { h with data := data }).bind fun h =>
            (dropLine h lineend).map fun h => ⟨h, fd, .headers⟩
  else some ⟨{ h with pos := 0 }, fd, .body h.pos⟩

def stepCalled (h : HttpT) (fd : RecvEnd) : Option Client :=
  if h.error then some (fail h fd)
  else if h.part.inHeader then
    (receive h fd).map fun (got, h, fd) =>
      match got with
      | none => fail h fd
      | some newlen =>
        let h := grow junk h newlen
        ⟨{ h with pos := h.pos + newlen }, fd, .headers⟩
  else some ⟨h, fd, .body 0⟩

/-- The read in front of `parse_again`, which is left out when the header came with a part of
the body behind it. -/
def stepBody (h : HttpT) (fd : RecvEnd) (newlen : ℕ) : Option Client :=
  if h.part.inBody then
    if newlen = 0 then
      (receive h fd).map fun (got, h, fd) =>
        match got with
        | none =>
          if h.bodytype = .full then ⟨grow junk (finishBody junk h) 0, fd, .parseAgain 0⟩
          else fail h fd
        | some newlen => ⟨grow junk h newlen, fd, .parseAgain newlen⟩
    else some ⟨h, fd, .parseAgain newlen⟩
  else some (finish h fd)

/-- The line with the size of a chunk: `len` is where it starts, with the line end of the chunk
before it, and `pos` is where the data ends. -/
def stepChunklen (h : HttpT) (fd : RecvEnd) (newlen : ℕ) : Option Client :=
  let h := { h with pos := h.pos + newlen }
  if wrapSub h.pos h.len ≥ 2 then
    (sizeSub h.pos (h.len + 2)).bind fun size =>
      (memchr h.data 10 (h.len + 2) size).bind fun found =>
        match found with
        | none => some (finish h fd)
        | some lineend =>
          (strtoul 16 (h.data.drop h.len)).bind fun chunklen =>
            (sizeSub h.pos (lineend + 1)).bind fun rest =>
              (memmove h.data h.len (lineend + 1) rest).map fun data =>
                let h := { h with data := data, pos := h.len, len := chunklen, part := .body }
                let h := if h.len = 0 then finishBody junk { h with len := h.pos } else h
                ⟨h, fd, .parseAgain rest⟩
  else some (finish h fd)

def stepChunk (h : HttpT) (fd : RecvEnd) (newlen : ℕ) : Client :=
  if newlen ≥ h.len then
    let pos := h.pos + h.len
    ⟨{ h with pos := pos, len := pos, part := .bodyChunklen }, fd, .parseAgain (newlen - h.len)⟩
  else finish { h with pos := h.pos + newlen, len := h.len - newlen } fd

/-- Bodies without chunks. -/
def stepWhole (h : HttpT) (fd : RecvEnd) (newlen : ℕ) : Client :=
  let h := { h with pos := h.pos + newlen }
  let h := if h.pos = h.len then finishBody junk h else h
  if h.pos > h.len then fail h fd else finish h fd

def stepParse (h : HttpT) (fd : RecvEnd) (newlen : ℕ) : Option Client :=
  if h.bodytype = .chunk then
    if h.part = .bodyChunklen then stepChunklen junk h fd newlen
    else if h.part = .body then some (stepChunk h fd newlen)
    else some (finish h fd)
  else some (stepWhole junk h fd newlen)

/-- One step of the client; a call that has returned is followed by the next one. No result is
an access outside the buffer, or a size that wrapped around. -/
def netHttpUpdate (c : Client) : Option Client :=
  match c.place with
  | .called => stepCalled junk c.state c.fd
  | .headers => stepHeaders c.state c.fd
  | .body newlen => stepBody junk c.state c.fd newlen
  | .parseAgain newlen => stepParse junk c.state c.fd newlen
  | .returned _ _ => some { c with place := .called }

end Update

def netHttpStatus (h : HttpT) : ℤ := h.status

def netHttpError (h : HttpT) : Bool := h.error || h.status < 200 || h.status > 299

/-- The data and `*len`; `NULL` is the inner `none`. -/
def netHttpData (h : HttpT) (acceptError : Bool) : Option (List UInt8) × ℕ :=
  if !acceptError && netHttpError h then (none, 0) else (some h.data, h.len)

end RetroArch.Net.Http
