/- The movie follows the core: what every iteration keeps while frames are run and taken back. -/

import RetroArch.Movie.Timeline

namespace RetroArch.Movie.Following

open Library.Asking Bsv Timeline

variable {σ Q : Type} {frame : σ → Asking Q Int16 σ}

section Buffer

/-- The states of the movie lie on top in the rewind buffer, each with the frames that led to it,
the topmost of them at frame `k - 1` or, behind a gap, further down. -/
def Below (frame : σ → Asking Q Int16 σ) (header : σ) (timeline : List Frame) :
    ℕ → Bool → List (Entry σ) → Prop
  | _, _, [] => True
  | k, gap, e :: rest =>
    if e.inMovie then
      e.timeline <+: timeline ∧ Path frame header e.timeline e.state ∧
        (if gap then e.timeline.length + 2 ≤ k else e.timeline.length + 1 = k) ∧
        Below frame header timeline e.timeline.length e.afterGap rest
    else ∀ e' ∈ rest, e'.inMovie = false

variable {header : σ} {timeline : List Frame} {k : ℕ} {gap : Bool} {stack : List (Entry σ)}

theorem below_inMovie {e : Entry σ} {rest : List (Entry σ)} (hin : e.inMovie = true) :
    Below frame header timeline k gap (e :: rest) ↔
      e.timeline <+: timeline ∧ Path frame header e.timeline e.state ∧
        (if gap then e.timeline.length + 2 ≤ k else e.timeline.length + 1 = k) ∧
        Below frame header timeline e.timeline.length e.afterGap rest := by
  rw [Below, if_pos hin]

theorem below_outside {e : Entry σ} {rest : List (Entry σ)} (hin : e.inMovie = false) :
    Below frame header timeline k gap (e :: rest) ↔ ∀ e' ∈ rest, e'.inMovie = false := by
  rw [Below, if_neg (by simp [hin])]

theorem below_of_outside (h : ∀ e ∈ stack, e.inMovie = false) :
    Below frame header timeline k gap stack := by
  cases stack with
  | nil => trivial
  | cons e rest =>
    apply (below_outside (h e List.mem_cons_self)).mpr
    intro e' he'
    exact h e' (List.mem_cons_of_mem e he')

theorem Below.take (h : Below frame header timeline k gap stack) (kept : ℕ) :
    Below frame header timeline k gap (stack.take kept) := by
  induction stack generalizing k gap kept with
  | nil => simpa using h
  | cons e rest ih =>
    cases kept with
    | zero => trivial
    | succ kept =>
      rw [List.take_succ_cons]
      cases hin : e.inMovie with
      | true =>
        obtain ⟨hon, hpath, hplace, hrest⟩ := (below_inMovie hin).mp h
        exact (below_inMovie hin).mpr ⟨hon, hpath, hplace, ih hrest kept⟩
      | false =>
        apply (below_outside hin).mpr
        intro e' he'
        exact (below_outside hin).mp h e' (List.mem_of_mem_take he')

theorem Below.extend (h : Below frame header timeline k gap stack) (fs : List Frame) :
    Below frame header (timeline ++ fs) k gap stack := by
  induction stack generalizing k gap with
  | nil => trivial
  | cons e rest ih =>
    cases hin : e.inMovie with
    | true =>
      obtain ⟨hon, hpath, hplace, hrest⟩ := (below_inMovie hin).mp h
      exact (below_inMovie hin).mpr
        ⟨hon.trans (List.prefix_append timeline fs), hpath, hplace, ih hrest⟩
    | false => exact (below_outside hin).mpr ((below_outside hin).mp h)

theorem Below.gapped {k' : ℕ} (h : Below frame header timeline k gap stack) (hk : k < k') :
    Below frame header timeline k' true stack := by
  cases stack with
  | nil => trivial
  | cons e rest =>
    cases hin : e.inMovie with
    | true =>
      obtain ⟨hon, hpath, hplace, hrest⟩ := (below_inMovie hin).mp h
      apply (below_inMovie hin).mpr
      refine ⟨hon, hpath, ?_, hrest⟩
      simp only [if_true]
      split_ifs at hplace <;> omega
    | false => exact (below_outside hin).mpr ((below_outside hin).mp h)

theorem Below.restrict {n : ℕ} (h : Below frame header timeline k gap stack) (hk : k ≤ n) :
    Below frame header (timeline.take n) k gap stack := by
  induction stack generalizing k gap with
  | nil => trivial
  | cons e rest ih =>
    cases hin : e.inMovie with
    | true =>
      obtain ⟨hon, hpath, hplace, hrest⟩ := (below_inMovie hin).mp h
      have hlength : e.timeline.length ≤ n := by
        split_ifs at hplace <;> omega
      exact (below_inMovie hin).mpr
        ⟨List.prefix_take_iff.mpr ⟨hon, hlength⟩, hpath, hplace, ih hrest hlength⟩
    | false => exact (below_outside hin).mpr ((below_outside hin).mp h)

theorem Below.top_lt {e : Entry σ} {rest : List (Entry σ)}
    (h : Below frame header timeline k gap (e :: rest)) (hin : e.inMovie = true) :
    e.timeline.length < k ∧ (gap = true → e.timeline.length + 2 ≤ k) := by
  obtain ⟨-, -, hplace, -⟩ := (below_inMovie hin).mp h
  constructor
  · split_ifs at hplace <;> omega
  · intro hgap
    simpa only [hgap, if_true] using hplace

end Buffer

/-- The frames lead from the movie's state to the core's, the file stands behind their bytes, and
the ring holds where each of them begins, as far back as it reaches. -/
structure Follows (frame : σ → Asking Q Int16 σ) (w : World σ) : Prop where
  path : Path frame w.movie.state w.timeline w.core
  pos : w.movie.pos = (bytesOf w.timeline).length
  data : w.movie.data.take w.movie.pos = bytesOf w.timeline
  inside : w.movie.pos ≤ w.movie.data.length
  stand : ∀ f ∈ w.timeline, f.bytes <+: f.answers.map lowByte
  recorded : w.movie.playback = false → ∀ f ∈ w.timeline, f.bytes = f.answers.map lowByte
  ptr : w.movie.framePtr = (w.base + w.timeline.length) % FRAMES
  window : ∀ j, j < w.timeline.length → w.peak < w.base + j + FRAMES →
    w.movie.framePos ((w.base + j) % FRAMES) =
      w.movie.minFilePos + (bytesOf (w.timeline.take j)).length
  top : w.base + w.timeline.length ≤ w.peak + 1

/-- Between two iterations. -/
structure Sound (frame : σ → Asking Q Int16 σ) (w : World σ) : Prop where
  follows : Follows frame w
  rewinds : 0 < w.timeline.length → w.movie.firstRewind = !w.rewound
  calm : w.movie.didRewind = false
  fresh : w.timeline.length = 0 →
    w.base = 0 ∧ w.movie.framePos 0 = w.movie.minFilePos ∧ w.rewound = false
  near : 0 < w.timeline.length → w.peak < w.base + (w.timeline.length - 1) + FRAMES
  peak : w.timeline.length = 0 → w.peak = 0
  below : Below frame w.movie.state w.timeline
    (if w.rewound then w.timeline.length - 1 else w.timeline.length) w.gap w.stack

/-- In front of a frame. -/
structure Ready (frame : σ → Asking Q Int16 σ) (w : World σ) : Prop where
  follows : Follows frame w
  did : w.movie.didRewind = w.rewound
  near : w.peak < w.base + w.timeline.length + FRAMES
  below : Below frame w.movie.state w.timeline
    (if w.rewound then w.timeline.length else w.timeline.length + 1) w.gap w.stack

theorem sound_start (movie : BsvMovie σ) (states : List σ) (thisblock : σ) (first : Bool)
    (hpos : movie.pos = 0) (hptr : movie.framePtr = 0)
    (hslot : movie.framePos 0 = movie.minFilePos) (hdid : movie.didRewind = false) :
    Sound frame (World.start movie states thisblock first) where
  follows :=
    { path := rfl
      pos := hpos
      data := by simp [World.start, hpos]
      inside := by simp [World.start, hpos]
      stand := fun f hf => nomatch hf
      recorded := fun _ f hf => nomatch hf
      ptr := hptr
      window := fun j hj => absurd hj (Nat.not_lt_zero j)
      top := Nat.zero_le 1 }
  rewinds := fun h => absurd h (Nat.lt_irrefl 0)
  calm := hdid
  fresh := fun _ => ⟨rfl, hslot, rfl⟩
  near := fun h => absurd h (Nat.lt_irrefl 0)
  peak := fun _ => rfl
  below := by
    apply below_of_outside
    intro e he
    obtain ⟨state, -, rfl⟩ := List.mem_map.mp he
    rfl

section Frame

variable {w : World σ}

theorem exists_frame (h : Follows frame w) (feed : Feed Q) :
    ∃ (f : Frame) (tape' : Tape) (core : σ),
      Moved w.movie.playback ⟨w.movie.data, w.movie.pos, w.movie.movieEnd, 0⟩ f.answers f.bytes
        tape' ∧
      (frame w.core).follows f.answers = some core ∧
      w.runFrame frame feed = { w with
        core := core
        movie := { w.movie with
          data := tape'.data
          pos := tape'.pos
          movieEnd := tape'.movieEnd
          framePos := Function.update w.movie.framePos w.movie.framePtr
            (w.movie.minFilePos + w.movie.pos)
          framePtr := (w.movie.framePtr + 1) % FRAMES
          firstRewind := !w.movie.didRewind
          didRewind := false }
        timeline := w.timeline ++ [f]
        peak := max w.peak (w.base + w.timeline.length) } := by
  obtain ⟨bytes, hmoved⟩ := moved w.movie.playback feed (frame w.core)
    ⟨w.movie.data, w.movie.pos, w.movie.movieEnd, 0⟩ h.inside
  refine ⟨⟨_, bytes⟩, _, _, hmoved, Asking.follows_heard _ _ _, ?_⟩
  have hbytes := congrArg (List.drop w.movie.pos) hmoved.data
  rw [List.drop_append_of_le_length (by simp [h.inside]), List.drop_take_self,
    List.nil_append] at hbytes
  unfold World.runFrame
  simp only [hbytes]

theorem frames_pos : 0 < FRAMES := Nat.two_pow_pos 20

theorem slot_ne {a b : ℕ} (h : a < b) (hb : b < a + FRAMES) : a % FRAMES ≠ b % FRAMES := by
  intro heq
  have hmod := Nat.sub_mod_eq_zero_of_mod_eq heq.symm
  have hle := Nat.le_of_dvd (by omega) (Nat.dvd_of_mod_eq_zero hmod)
  omega

theorem Ready.runFrame (h : Ready frame w) (feed : Feed Q) :
    Sound frame (w.runFrame frame feed) := by
  obtain ⟨f, tape', core, hmoved, hcore, hrun⟩ := exists_frame h.follows feed
  have hfollows := h.follows
  have htop := hfollows.top
  have hnear := h.near
  have hframes := frames_pos
  have hlength : (w.timeline ++ [f]).length = w.timeline.length + 1 := List.length_append
  have hbytes : bytesOf (w.timeline ++ [f]) = bytesOf w.timeline ++ f.bytes := by
    rw [bytesOf_append]
    simp [bytesOf]
  rw [hrun]
  refine
    { follows :=
        { path := hfollows.path.snoc hcore
          pos := ?_
          data := ?_
          inside := hmoved.inside
          stand := ?_
          recorded := ?_
          ptr := ?_
          window := ?_
          top := ?_ }
      rewinds := ?_
      calm := rfl
      fresh := ?_
      near := ?_
      peak := ?_
      below := ?_ }
  · rw [hbytes, List.length_append, ← hfollows.pos]
    exact hmoved.pos
  · rw [hbytes, ← hfollows.data]
    exact hmoved.data
  · intro g hg
    rcases List.mem_append.mp hg with hg | hg
    · exact hfollows.stand g hg
    · rw [List.mem_singleton.mp hg]
      exact hmoved.stand
  · intro hrecording g hg
    rcases List.mem_append.mp hg with hg | hg
    · exact hfollows.recorded hrecording g hg
    · rw [List.mem_singleton.mp hg]
      exact hmoved.recorded hrecording
  · simp only [hlength, hfollows.ptr]
    rw [Nat.mod_add_mod, Nat.add_assoc]
  · intro j hj hback
    simp only [hlength] at hj hback ⊢
    rcases Nat.lt_succ_iff_lt_or_eq.mp hj with hlt | rfl
    · -- the slot written last is another one
      have hne : (w.base + j) % FRAMES ≠ w.movie.framePtr := by
        rw [hfollows.ptr]
        exact slot_ne (by omega) (by omega)
      rw [Function.update_of_ne hne, hfollows.window j hlt (by omega),
        List.take_append_of_le_length hlt.le]
    · rw [← hfollows.ptr, Function.update_self, List.take_left, hfollows.pos]
  · simp only [hlength]
    omega
  · intro _
    simp only [h.did]
  · intro hzero
    simp only [hlength] at hzero
    omega
  · intro _
    simp only [hlength]
    omega
  · intro hzero
    simp only [hlength] at hzero
    omega
  · have hbelow := h.below.extend [f]
    simp only [hlength, Nat.add_sub_cancel]
    exact hbelow

end Frame

section Running

variable {w : World σ}

theorem Sound.near_next (h : Sound frame w) : w.peak < w.base + w.timeline.length + FRAMES := by
  have hframes := frames_pos
  rcases Nat.eq_zero_or_pos w.timeline.length with hzero | hpos
  · have hpeak := h.peak hzero
    omega
  · have hnear := h.near hpos
    omega

theorem Sound.pass (h : Sound frame w) (first : Bool) :
    Ready frame { w with first := first, rewound := false, gap := true } where
  follows := { h.follows with }
  did := h.calm
  near := h.near_next
  below := by
    simp only [Bool.false_eq_true, if_false]
    apply h.below.gapped
    split_ifs <;> omega

theorem Sound.push (h : Sound frame w) (kept : ℕ) :
    Ready frame { w with
      stack := ⟨w.core, w.timeline, w.rewound || w.gap, true⟩ :: w.stack.take kept
      rewound := false
      gap := false } where
  follows := { h.follows with }
  did := h.calm
  near := h.near_next
  below := by
    simp only [Bool.false_eq_true, if_false]
    apply (below_inMovie rfl).mpr
    refine ⟨List.prefix_refl _, h.follows.path, by simp, ?_⟩
    have hbelow := h.below.take kept
    cases hrewound : w.rewound with
    | false => simpa only [hrewound, Bool.false_or, Bool.false_eq_true, if_false] using hbelow
    | true =>
      -- the state that was taken back last is missing
      have hpos : 0 < w.timeline.length := by
        by_contra hzero
        have hfresh := h.fresh (by omega)
        rw [hrewound] at hfresh
        exact nomatch hfresh.2.2
      simp only [hrewound, if_true] at hbelow
      exact hbelow.gapped (Nat.sub_lt hpos Nat.one_pos)

end Running

section Rewinding

theorem toInt_of_lt {n : ℕ} (h : n < 2 ^ 31) : toInt n = n := by
  unfold toInt
  omega

theorem seek_of_lt {m : BsvMovie σ} {offset : ℕ} (hmin : m.minFilePos ≤ offset)
    (h : offset < 2 ^ 31) : m.seek offset = some { m with pos := offset - m.minFilePos } := by
  unfold BsvMovie.seek
  rw [toInt_of_lt h, if_neg (by omega), if_neg (by omega)]
  simp

theorem rewind_eq {m : BsvMovie σ} (core : σ) (hmin : m.minFilePos ≤ m.sought)
    (h : m.sought < 2 ^ 31) :
    bsvMovieFrameRewind core m = some { m with
      didRewind := true
      framePtr := m.backPtr
      pos := m.sought - m.minFilePos
      state := if m.sought = m.minFilePos ∧ m.playback = false then core else m.state } := by
  have hseek : BsvMovie.seek { m with didRewind := true, framePtr := m.backPtr } m.sought =
      some { m with
        didRewind := true, framePtr := m.backPtr, pos := m.sought - m.minFilePos } :=
    seek_of_lt hmin h
  unfold bsvMovieFrameRewind
  rw [hseek, Option.bind_some]
  by_cases hzero : m.sought - m.minFilePos = 0
  · have heq : m.sought = m.minFilePos := by omega
    rw [if_pos hzero]
    cases hplayback : m.playback with
    | true =>
      simp only [if_true, heq, Nat.sub_self]
      rw [seek_of_lt (le_refl _) (by simp only; omega)]
      simp
    | false => simp [heq]
  · have hne : m.sought ≠ m.minFilePos := by omega
    rw [if_neg hzero]
    simp [hne]

variable {w : World σ} {e : Entry σ} {rest : List (Entry σ)}

theorem Sound.slots (h : Sound frame w) (hpos : 0 < w.timeline.length) :
    w.movie.slots = if w.rewound then 2 else 1 := by
  unfold BsvMovie.slots
  rw [h.rewinds hpos]
  cases w.rewound <;> rfl

theorem Sound.slots_le (h : Sound frame w) (hbegin : w.movie.atBeginning = false) :
    w.movie.slots ≤ w.base + w.timeline.length := by
  have hslots : w.movie.slots ≤ 2 := by
    unfold BsvMovie.slots
    split_ifs <;> omega
  by_contra hfew
  -- one frame at most, and slot 0 is the one where the movie begins
  have hptr := h.follows.ptr
  have hframes : FRAMES = 2 ^ 20 := rfl
  have hslot : w.movie.framePos 0 = w.movie.minFilePos := by
    rcases Nat.eq_zero_or_pos w.timeline.length with hzero | hpos
    · exact (h.fresh hzero).2.1
    · have hbase : w.base = 0 := by omega
      have hnear := h.near hpos
      have hwindow := h.follows.window 0 hpos (by omega)
      simpa [hbase] using hwindow
  have hle : w.movie.framePtr ≤ 1 := by
    rw [hptr, hframes]
    omega
  simp [BsvMovie.atBeginning, hslot, hle] at hbegin

theorem Sound.backPtr (h : Sound frame w) (hbegin : w.movie.atBeginning = false) :
    w.movie.backPtr = (w.base + w.timeline.length - w.movie.slots) % FRAMES := by
  have hslots := h.slots_le hbegin
  have hle : w.movie.slots ≤ FRAMES := by
    unfold BsvMovie.slots FRAMES
    split_ifs <;> omega
  unfold BsvMovie.backPtr
  rw [hbegin, if_neg (by simp), h.follows.ptr, Nat.add_sub_assoc hle, Nat.mod_add_mod,
    ← Nat.add_sub_assoc hle, Nat.sub_add_comm hslots, Nat.add_mod_right]

theorem rewindMovie_eq (e : Entry σ) (rest : List (Entry σ))
    (hmin : w.movie.minFilePos ≤ w.movie.sought) (h : w.movie.sought < 2 ^ 31) :
    w.rewindMovie e rest =
      let rewritten := w.movie.sought = w.movie.minFilePos ∧ w.movie.playback = false
      let index := w.base + w.timeline.length - w.movie.slots
      some { w with
        core := e.state
        stack := if rewritten then rest.map fun e => { e with inMovie := false } else rest
        thisblock := e.state
        movie := { w.movie with
          didRewind := true
          framePtr := w.movie.backPtr
          pos := w.movie.sought - w.movie.minFilePos
          state := if rewritten then e.state else w.movie.state }
        timeline := if rewritten ∨ e.inMovie = false then [] else e.timeline
        rewound := true
        gap := e.afterGap
        base := if w.movie.atBeginning then 0 else if rewritten then index else w.base
        peak := if w.movie.atBeginning then 0 else if rewritten then index else w.peak } := by
  have hzero : w.movie.sought - w.movie.minFilePos = 0 ↔
      w.movie.sought = w.movie.minFilePos := by omega
  unfold World.rewindMovie
  rw [rewind_eq e.state hmin h, Option.map_some]
  simp only [hzero]

theorem minFilePos_le {v : World σ} (hint : w.movie.sought < 2 ^ 31)
    (hv : w.rewindMovie e rest = some v) :
    w.movie.minFilePos ≤ w.movie.sought := by
  by_contra hlt
  have hseek : BsvMovie.seek { w.movie with didRewind := true, framePtr := w.movie.backPtr }
      w.movie.sought = none := by
    unfold BsvMovie.seek
    rw [toInt_of_lt hint, if_neg (by omega), if_pos (by simp only; omega)]
  simp only [World.rewindMovie, bsvMovieFrameRewind, hseek, Option.bind_none, Option.map_none,
    reduceCtorEq] at hv

theorem follows_nil {w : World σ} (hcore : w.movie.state = w.core) (htimeline : w.timeline = [])
    (hpos : w.movie.pos = 0) (hptr : w.movie.framePtr = w.base % FRAMES)
    (htop : w.base ≤ w.peak + 1) : Follows frame w where
  path := by
    rw [htimeline]
    exact hcore
  pos := by simp [htimeline, hpos]
  data := by simp [htimeline, hpos]
  inside := by simp [hpos]
  stand := by simp [htimeline]
  recorded := by simp [htimeline]
  ptr := by simp [htimeline, hptr]
  window := by simp [htimeline]
  top := by simpa [htimeline] using htop

theorem Sound.rewrite (h : Sound frame w) (e : Entry σ) (rest : List (Entry σ))
    (hrecording : w.movie.playback = false)
    (hsought : w.movie.sought = w.movie.minFilePos) (hint : w.movie.sought < 2 ^ 31) :
    ∃ w', w.rewindMovie e rest = some w' ∧ Ready frame w' := by
  refine ⟨_, rewindMovie_eq e rest hsought.ge hint, ?_⟩
  have hframes := frames_pos
  have hrewritten : w.movie.sought = w.movie.minFilePos ∧ w.movie.playback = false :=
    ⟨hsought, hrecording⟩
  simp only [hrewritten, and_self, if_true, true_or]
  refine
    { follows := follows_nil rfl rfl (by simp) ?_ ?_
      did := rfl
      near := ?_
      below := ?_ }
  · cases hbegin : w.movie.atBeginning with
    | true => simp [BsvMovie.backPtr, hbegin]
    | false => simpa [hbegin] using h.backPtr hbegin
  · simp only
    split_ifs <;> omega
  · simp only [List.length_nil]
    split_ifs <;> omega
  · apply below_of_outside
    intro e' he'
    obtain ⟨e'', -, rfl⟩ := List.mem_map.mp he'
    rfl

/-- A movie that is played is taken back to its beginning by the state it begins with. -/
theorem Sound.restart (h : Sound frame w) (e : Entry σ) (rest : List (Entry σ))
    (hstack : w.stack = e :: rest) (hplayback : w.movie.playback = true)
    (hout : e.inMovie = false) (hstate : e.state = w.movie.state) (hback : w.movie.backPtr = 0)
    (hbase : w.base = 0) (hpeak : w.peak < FRAMES)
    (hsought : w.movie.sought = w.movie.minFilePos) (hint : w.movie.sought < 2 ^ 31) :
    ∃ w', w.rewindMovie e rest = some w' ∧ Ready frame w' := by
  refine ⟨_, rewindMovie_eq e rest hsought.ge hint, ?_⟩
  have hframes := frames_pos
  have hrewritten : ¬ (w.movie.sought = w.movie.minFilePos ∧ w.movie.playback = false) := by
    simp [hplayback]
  simp only [hrewritten, hout, if_false, or_true, if_true]
  refine
    { follows := follows_nil hstate.symm rfl (by simp [hsought]) (by simp [hback, hbase]) ?_
      did := rfl
      near := ?_
      below := ?_ }
  · simp [hbase]
  · simp only [List.length_nil, hbase]
    split_ifs <;> omega
  · apply below_of_outside
    have hbelow := h.below
    rw [hstack] at hbelow
    exact (below_outside hout).mp hbelow

theorem Sound.length_top (h : Sound frame w) {e : Entry σ} {rest : List (Entry σ)}
    (hstack : w.stack = e :: rest) (hin : e.inMovie = true) (hgap : w.gap = false) :
    e.timeline.length + w.movie.slots = w.timeline.length := by
  have hbelow := h.below
  rw [hstack, hgap] at hbelow
  obtain ⟨-, -, hlength, -⟩ := (below_inMovie hin).mp hbelow
  simp only [Bool.false_eq_true, if_false] at hlength
  have hpos : 0 < w.timeline.length := by
    split_ifs at hlength <;> omega
  rw [h.slots hpos]
  split_ifs at hlength ⊢ <;> omega

/-- The slot and the position of the state on top. -/
theorem Sound.back (h : Sound frame w) {e : Entry σ} {rest : List (Entry σ)}
    (hstack : w.stack = e :: rest) (hin : e.inMovie = true) (hgap : w.gap = false)
    (hwindow : w.peak < w.base + e.timeline.length + FRAMES)
    (hplace : w.movie.playback = true ∧ w.base = 0 ∧ w.timeline.length < FRAMES ∨
      w.movie.sought ≠ w.movie.minFilePos) :
    w.movie.backPtr = (w.base + e.timeline.length) % FRAMES ∧
      w.movie.sought =
        w.movie.minFilePos + (bytesOf (w.timeline.take e.timeline.length)).length ∧
      (w.movie.atBeginning = true → w.base = 0 ∧ e.timeline.length = 0) := by
  have hlength := h.length_top hstack hin hgap
  have hpos : 0 < w.movie.slots := by
    unfold BsvMovie.slots
    split_ifs <;> omega
  cases hbegin : w.movie.atBeginning with
  | true =>
    have hsought : w.movie.sought = w.movie.minFilePos := by
      unfold BsvMovie.sought
      rw [if_pos hbegin]
    obtain ⟨-, hbase, hframes⟩ := hplace.resolve_right (fun hne => hne hsought)
    -- the frame that was run last is the movie's first
    have hptr := h.follows.ptr
    rw [hbase, Nat.zero_add, Nat.mod_eq_of_lt hframes] at hptr
    have hle : w.movie.framePtr ≤ 1 := by
      have hboth := hbegin
      simp only [BsvMovie.atBeginning, Bool.and_eq_true, decide_eq_true_eq] at hboth
      exact hboth.1
    have hzero : e.timeline.length = 0 := by omega
    rw [hsought, hbase, hzero]
    unfold BsvMovie.backPtr
    rw [if_pos hbegin]
    exact ⟨rfl, rfl, fun _ => ⟨rfl, rfl⟩⟩
  | false =>
    have hback : w.movie.backPtr = (w.base + e.timeline.length) % FRAMES := by
      rw [h.backPtr hbegin, ← hlength, ← Nat.add_assoc, Nat.add_sub_cancel]
    refine ⟨hback, ?_, fun htrue => nomatch htrue⟩
    unfold BsvMovie.sought
    rw [hbegin, if_neg (by simp), hback]
    exact h.follows.window e.timeline.length (by omega) hwindow

/-- The movie goes back to the state on top. -/
theorem Sound.stepBack (h : Sound frame w) (e : Entry σ) (rest : List (Entry σ))
    (hstack : w.stack = e :: rest) (hin : e.inMovie = true) (hgap : w.gap = false)
    (hwindow : w.peak < w.base + e.timeline.length + FRAMES) (hint : w.movie.sought < 2 ^ 31)
    (hplace : w.movie.playback = true ∧ w.base = 0 ∧ w.timeline.length < FRAMES ∨
      w.movie.playback = false ∧ w.movie.sought ≠ w.movie.minFilePos) :
    ∃ w', w.rewindMovie e rest = some w' ∧ Ready frame w' := by
  have hbelow := h.below
  rw [hstack, hgap] at hbelow
  obtain ⟨hon, hpath, hplaced, hrest⟩ := (below_inMovie hin).mp hbelow
  obtain ⟨hback, hsought, hfirst⟩ := h.back hstack hin hgap hwindow (hplace.imp_right And.right)
  have hlength := h.length_top hstack hin hgap
  have htake : w.timeline.take e.timeline.length = e.timeline :=
    (List.prefix_iff_eq_take.mp hon).symm
  rw [htake] at hsought
  have hrewritten : ¬ (w.movie.sought = w.movie.minFilePos ∧ w.movie.playback = false) := by
    rintro ⟨heq, hrecording⟩
    rcases hplace with ⟨hplayback, -⟩ | ⟨-, hne⟩
    · rw [hrecording] at hplayback
      exact nomatch hplayback
    · exact hne heq
  have hframes := frames_pos
  have hfollows := h.follows
  have htop := hfollows.top
  refine ⟨_, rewindMovie_eq e rest (by omega) hint, ?_⟩
  simp only [hrewritten, hin, if_false, false_or, Bool.true_eq_false]
  refine
    { follows :=
        { path := hpath
          pos := by simp only [hsought, Nat.add_sub_cancel_left]
          data := ?_
          inside := ?_
          stand := fun f hf => hfollows.stand f (hon.subset hf)
          recorded := fun hrecording f hf => hfollows.recorded hrecording f (hon.subset hf)
          ptr := ?_
          window := ?_
          top := ?_ }
      did := rfl
      near := ?_
      below := ?_ }
  · simp only [hsought, Nat.add_sub_cancel_left]
    have hle : (bytesOf e.timeline).length ≤ w.movie.pos := by
      rw [hfollows.pos]
      exact (bytesOf_mono hon).length_le
    have htakes := congrArg (List.take (bytesOf e.timeline).length) hfollows.data
    rw [List.take_take, min_eq_left hle] at htakes
    rw [htakes]
    exact (List.prefix_iff_eq_take.mp (bytesOf_mono hon)).symm
  · have hle := (bytesOf_mono hon).length_le
    have hinside := hfollows.inside
    rw [hfollows.pos] at hinside
    simp only [hsought, Nat.add_sub_cancel_left]
    omega
  · simp only [hback]
    split_ifs with hbegin
    · rw [(hfirst hbegin).1]
    · rfl
  · intro j hj hpeak
    simp only at hj hpeak ⊢
    split_ifs at hpeak ⊢ with hbegin
    · exact absurd hj (by rw [(hfirst hbegin).2]; exact Nat.not_lt_zero j)
    · rw [hfollows.window j (by omega) hpeak]
      congr 2
      rw [← htake, List.take_take, min_eq_left hj.le]
  · simp only
    split_ifs with hbegin
    · rw [(hfirst hbegin).2]
      omega
    · omega
  · simp only
    split_ifs with hbegin
    · omega
    · exact hwindow
  · have hrestricted := hrest.restrict (le_refl _)
    rw [htake] at hrestricted
    simp only [if_true]
    exact hrestricted

end Rewinding

section Iterating

variable {w w' : World σ}

theorem iterate_cases {i : Iteration Q} (hw : w.iterate frame i = some w') :
    ∃ v, w' = v.runFrame frame i.feed ∧
      ((∃ first, v = { w with first := first, rewound := false, gap := true }) ∨
        v = { w with
          stack := ⟨w.core, w.timeline, w.rewound || w.gap, true⟩ :: w.stack.take i.kept
          rewound := false
          gap := false } ∨
        i.check = some true ∧ w.first = false ∧
          ((∃ e rest, w.stack = e :: rest ∧ w.rewindMovie e rest = some v) ∨
            w.stack = [] ∧ v = { w with core := w.thisblock, rewound := false, gap := true })) := by
  unfold World.iterate at hw
  obtain ⟨v, hv, rfl⟩ := Option.map_eq_some_iff.mp hw
  refine ⟨v, rfl, ?_⟩
  cases hcheck : i.check with
  | none =>
    simp only [hcheck, Option.some.injEq] at hv
    exact Or.inl ⟨w.first, hv.symm⟩
  | some pressed =>
    simp only [hcheck] at hv
    unfold World.checkRewind at hv
    cases hfirst : w.first with
    | true =>
      simp only [hfirst, if_true, Option.some.injEq] at hv
      exact Or.inl ⟨false, hv.symm⟩
    | false =>
      cases pressed with
      | true =>
        right
        right
        refine ⟨rfl, rfl, ?_⟩
        cases hstack : w.stack with
        | nil =>
          simp only [hfirst, Bool.false_eq_true, if_false, if_true, hstack,
            Option.some.injEq] at hv
          exact Or.inr ⟨rfl, hv.symm⟩
        | cons e rest =>
          simp only [hfirst, Bool.false_eq_true, if_false, if_true, hstack] at hv
          exact Or.inl ⟨e, rest, rfl, hv⟩
      | false =>
        simp only [hfirst, Bool.false_eq_true, if_false, Option.some.injEq] at hv
        exact Or.inr (Or.inl hv.symm)

theorem Sound.iterate (h : Sound frame w) {i : Iteration Q}
    (hpressed : i.check = some true → w.first = false → ∃ e rest, w.stack = e :: rest ∧
      ∃ w', w.rewindMovie e rest = some w' ∧ Ready frame w')
    (hw : w.iterate frame i = some w') : Sound frame w' := by
  obtain ⟨v, rfl, hv⟩ := iterate_cases hw
  apply Ready.runFrame
  rcases hv with ⟨first, rfl⟩ | rfl | ⟨hcheck, hfirst, hv⟩
  · exact h.pass first
  · exact h.push i.kept
  · obtain ⟨e, rest, hstack, v', hrewound, hready⟩ := hpressed hcheck hfirst
    rw [hstack] at hv
    rcases hv with ⟨e', rest', heq, hrewound'⟩ | ⟨hempty, -⟩
    · cases heq
      rw [hrewound] at hrewound'
      exact Option.some.inj hrewound' ▸ hready
    · exact nomatch hempty

end Iterating

end RetroArch.Movie.Following
