/- Movies of a core's input, recorded and played back while the rewind key may take frames back. -/

import RetroArch.Library.Asking
import RetroArch.Library.Bytes

namespace RetroArch.Movie.Bsv

open Library.Asking Library.Bytes

variable {σ Q : Type}

/-- The byte of a value that is written, its first in the file's order. -/
def lowByte (value : Int16) : UInt8 := value.toUInt16.toUInt8

def highByte (value : Int16) : UInt8 := (value.toUInt16 >>> 8).toUInt8

/-- `bsv_result` after one byte of it has been read: the other is what was there before. -/
def bsvResult (byte stale : UInt8) : Int16 := (byte.toUInt16 ||| stale.toUInt16 <<< 8).toInt16

/-- What the queries of a frame meet: the answers of the driver and the stale bytes of the stack,
by the number of the query. -/
structure Feed (Q : Type) where
  driver : ℕ → Q → Int16
  stale : ℕ → UInt8

/-- The file behind the stored state, where it stands there, and the queries of the frame so
far. -/
structure Tape where
  data : List UInt8
  pos : ℕ
  movieEnd : Bool
  asked : ℕ

def overwrite (data : List UInt8) (pos : ℕ) (byte : UInt8) : List UInt8 :=
  data.take pos ++ byte :: data.drop (pos + 1)

/-- `input_state`; a unit of `intfstream_read` and `intfstream_write` is a byte. -/
def inputState (playback : Bool) (feed : Feed Q) (tape : Tape) (query : Q) : Int16 × Tape :=
  if playback then
    match tape.data[tape.pos]? with
    | some byte =>
      (bsvResult byte (feed.stale tape.asked),
        { tape with pos := tape.pos + 1, asked := tape.asked + 1 })
    | none =>
      (feed.driver tape.asked query, { tape with movieEnd := true, asked := tape.asked + 1 })
  else
    let result := feed.driver tape.asked query
    (result, { tape with
      data := overwrite tape.data tape.pos (lowByte result)
      pos := tape.pos + 1
      asked := tape.asked + 1 })

/-- `bsv_movie_t`, with its file as the state stored there and the bytes behind it. `pos` counts
from `minFilePos`. -/
structure BsvMovie (σ : Type) where
  playback : Bool
  state : σ
  data : List UInt8
  pos : ℕ
  minFilePos : ℕ
  framePos : ℕ → ℕ
  framePtr : ℕ
  firstRewind : Bool
  didRewind : Bool
  movieEnd : Bool

/-- `frame_mask + 1` -/
def FRAMES : ℕ := 2 ^ 20

/-- `bsv_movie_init_internal`, after the file is opened and the state written or read. -/
def BsvMovie.init (playback : Bool) (state : σ) (data : List UInt8) (minFilePos : ℕ) :
    BsvMovie σ where
  playback := playback
  state := state
  data := data
  pos := 0
  minFilePos := minFilePos
  framePos := fun i => if i = 0 then minFilePos else 0
  framePtr := 0
  firstRewind := false
  didRewind := false
  movieEnd := false

/-- The cast of a `size_t` to an `int`. -/
def toInt (n : ℕ) : ℤ := ((n : ℤ) + 2 ^ 31) % 2 ^ 32 - 2 ^ 31

/-- `intfstream_seek(handle->file, (int)offset, SEEK_SET)`. A negative offset fails; one in front
of the input is not followed. -/
def BsvMovie.seek (m : BsvMovie σ) (offset : ℕ) : Option (BsvMovie σ) :=
  if toInt offset < 0 then some m
  else if toInt offset < m.minFilePos then none
  else some { m with pos := (toInt offset).toNat - m.minFilePos }

/-- "If we're at the beginning..." -/
def BsvMovie.atBeginning (m : BsvMovie σ) : Bool :=
  m.framePtr ≤ 1 && m.framePos 0 = m.minFilePos

/-- How many slots of the ring a rewind goes back. -/
def BsvMovie.slots (m : BsvMovie σ) : ℕ := if m.firstRewind then 1 else 2

/-- The slot a rewind goes back to. -/
def BsvMovie.backPtr (m : BsvMovie σ) : ℕ :=
  if m.atBeginning then 0 else (m.framePtr + FRAMES - m.slots) % FRAMES

/-- The position a rewind seeks. -/
def BsvMovie.sought (m : BsvMovie σ) : ℕ :=
  if m.atBeginning then m.minFilePos else m.framePos m.backPtr

/-- `bsv_movie_frame_rewind`, with the core in the state it was taken back to. -/
def bsvMovieFrameRewind (core : σ) (m : BsvMovie σ) : Option (BsvMovie σ) :=
  ({ m with didRewind := true, framePtr := m.backPtr }.seek m.sought).bind fun m =>
    -- "We rewound past the beginning."
    if m.pos = 0 then
      if m.playback then m.seek m.minFilePos else some { m with state := core }
    else some m

/-- A core whose states have one size and come back from their bytes. -/
structure ExactCore (σ : Type) where
  serialize : σ → List UInt8
  unserialize : List UInt8 → σ
  size : ℕ
  length_serialize : ∀ s, (serialize s).length = size
  unserialize_serialize : ∀ s, unserialize (serialize s) = s
  size_lt : size < 2 ^ 32

def BSV_MAGIC : ℕ := 0x42535631

/-- The header as it stands in the file. -/
def header (crc stateSize : ℕ) : List UInt8 :=
  toBE 4 BSV_MAGIC ++ toLE 4 0 ++ toLE 4 crc ++ toLE 4 stateSize

/-- The file of a movie. -/
def BsvMovie.file (core : ExactCore σ) (crc : ℕ) (m : BsvMovie σ) : List UInt8 :=
  header crc core.size ++ core.serialize m.state ++ m.data

/-- `bsv_movie_init_record`, with the core in state `s`. -/
def bsvMovieInitRecord (core : ExactCore σ) (s : σ) : BsvMovie σ :=
  .init false s [] (16 + core.size)

/-- `bsv_movie_init_playback`, with the core in state `s`: the movie and the core's state then. -/
def bsvMovieInitPlayback (core : ExactCore σ) (s : σ) (file : List UInt8) :
    Option (BsvMovie σ × σ) :=
  -- what is missing of the header stays zero
  let words := file.take 16 ++ List.replicate (16 - file.length) 0
  if ofBE (words.take 4) ≠ BSV_MAGIC ∧ ofLE (words.take 4) ≠ BSV_MAGIC then none
  else
    let stateSize := ofLE (words.drop 12)
    let data := file.drop (16 + stateSize)
    let buf := (file.drop 16).take stateSize
    if stateSize = 0 then some (.init true s data 16, s)
    else if buf.length ≠ stateSize then none
    else
      let state := core.unserialize buf
      some (.init true state data (16 + stateSize), if core.size = stateSize then state else s)

/-- A frame that has been run: the answers the core was given and the bytes of the file that
stand for them. -/
structure Frame where
  answers : List Int16
  bytes : List UInt8

/-- A state in the rewind buffer, with the frames that led there from the movie's state, whether
the state one frame before it is missing below it, and whether it was pushed since the movie's
state was stored. -/
structure Entry (σ : Type) where
  state : σ
  timeline : List Frame
  afterGap : Bool
  inMovie : Bool

/-- The core, the rewind buffer, the movie and what has happened: the frames that led from the
movie's state to the core's, whether the last iteration rewound, whether the state that a rewind
would have to take back is missing in the buffer, the number of the movie's first frame, and of
its last one so far. -/
structure World (σ : Type) where
  core : σ
  stack : List (Entry σ)
  thisblock : σ
  first : Bool
  movie : BsvMovie σ
  timeline : List Frame
  rewound : Bool
  gap : Bool
  base : ℕ
  peak : ℕ

/-- A movie begins, whatever is in the rewind buffer. -/
def World.start (movie : BsvMovie σ) (states : List σ) (thisblock : σ) (first : Bool) :
    World σ where
  core := movie.state
  stack := states.map fun state => ⟨state, [], false, false⟩
  thisblock := thisblock
  first := first
  movie := movie
  timeline := []
  rewound := false
  gap := false
  base := 0
  peak := 0

/-- One call of `runloop_iterate`: the rewind key, or none of it where rewinding is off or the
movie was begun behind the check; how many states the rewind buffer keeps on a push; what the
queries meet. -/
structure Iteration (Q : Type) where
  check : Option Bool
  kept : ℕ
  feed : Feed Q

/-- The movie follows a state that has been taken from the rewind buffer. -/
def World.rewindMovie (w : World σ) (e : Entry σ) (rest : List (Entry σ)) : Option (World σ) :=
  (bsvMovieFrameRewind e.state w.movie).map fun m =>
    let rewritten := m.pos = 0 ∧ m.playback = false
    let index := w.base + w.timeline.length - w.movie.slots
    { w with
      core := e.state
      stack := if rewritten then rest.map fun e => { e with inMovie := false } else rest
      thisblock := e.state
      movie := m
      timeline := if rewritten ∨ e.inMovie = false then [] else e.timeline
      rewound := true
      gap := e.afterGap
      base := if w.movie.atBeginning then 0 else if rewritten then index else w.base
      peak := if w.movie.atBeginning then 0 else if rewritten then index else w.peak }

/-- `state_manager_check_rewind`, with granularity 1. -/
def World.checkRewind (w : World σ) (pressed : Bool) (kept : ℕ) : Option (World σ) :=
  if w.first then some { w with first := false, rewound := false, gap := true }
  else if pressed then
    match w.stack with
    | e :: rest => w.rewindMovie e rest
    | [] => some { w with core := w.thisblock, rewound := false, gap := true }
  else
    some { w with
      stack := ⟨w.core, w.timeline, w.rewound || w.gap, true⟩ :: w.stack.take kept
      rewound := false
      gap := false }

/-- A frame of the core. -/
def World.runFrame (frame : σ → Asking Q Int16 σ) (feed : Feed Q) (w : World σ) : World σ :=
  let m := w.movie
  let handler := inputState m.playback feed
  let tape : Tape := ⟨m.data, m.pos, m.movieEnd, 0⟩
  let (core, tape') := (frame w.core).handled handler tape
  { w with
    core := core
    movie := { m with
      data := tape'.data
      pos := tape'.pos
      movieEnd := tape'.movieEnd
      framePos := Function.update m.framePos m.framePtr (m.minFilePos + m.pos)
      framePtr := (m.framePtr + 1) % FRAMES
      firstRewind := !m.didRewind
      didRewind := false }
    timeline := w.timeline ++
      [⟨(frame w.core).heard handler tape, (tape'.data.take tape'.pos).drop m.pos⟩]
    peak := max w.peak (w.base + w.timeline.length) }

/-- `runloop_iterate` -/
def World.iterate (frame : σ → Asking Q Int16 σ) (w : World σ) (i : Iteration Q) :
    Option (World σ) :=
  (match i.check with
    | none => some { w with rewound := false, gap := true }
    | some pressed => w.checkRewind pressed i.kept).map (World.runFrame frame i.feed)

end RetroArch.Movie.Bsv
