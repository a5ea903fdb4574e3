/- Where a movie stands in its file, while frames are run and taken back. -/

import RetroArch.Library.Run
import RetroArch.Movie.Following

namespace RetroArch.Movie.Position

open Library.Asking Library.Run Bsv Timeline Following

variable {σ Q : Type} {frame : σ → Asking Q Int16 σ}

/-- The file stands right behind the input of the frames that lead from the state stored in it to
the core's, frame by frame, and they are counted. -/
def InStep (frame : σ → Asking Q Int16 σ) (w : World σ) : Prop :=
  ∃ frames : List Frame,
    Path frame w.movie.state frames w.core ∧
    (∀ f ∈ frames, f.bytes <+: f.answers.map lowByte) ∧
    (w.movie.playback = false → ∀ f ∈ frames, f.bytes = f.answers.map lowByte) ∧
    w.movie.data.take w.movie.pos = bytesOf frames ∧
    w.movie.pos = (bytesOf frames).length ∧
    w.movie.framePtr = frames.length

/-- The iteration comes in front of the movie's frame 2^20 - 1, and a state is taken back only
while the buffer has one, to a position that fits an `int`. Back to the movie's first frame a
movie that is played has its own state. Further on the state is one of the movie and none is
missing above it, and what is recorded in front of it has input. -/
def InOrder (w : World σ) (i : Iteration Q) : Prop :=
  w.movie.framePtr + 1 < FRAMES ∧
    (i.check = some true → w.first = false → ∃ e rest, w.stack = e :: rest ∧
      w.movie.sought < 2 ^ 31 ∧
      if w.movie.backPtr = 0 then w.movie.playback = true → e.state = w.movie.state
      else e.inMovie = true ∧ w.gap = false ∧
        (w.movie.playback = false → w.movie.sought ≠ w.movie.minFilePos))

instance [DecidableEq σ] (w : World σ) (i : Iteration Q) : Decidable (InOrder w i) :=
  decidable_of_iff
    (w.movie.framePtr + 1 < FRAMES ∧
      (i.check = some true → w.first = false → ∃ e ∈ w.stack.head?,
        w.movie.sought < 2 ^ 31 ∧
        if w.movie.backPtr = 0 then w.movie.playback = true → e.state = w.movie.state
        else e.inMovie = true ∧ w.gap = false ∧
          (w.movie.playback = false → w.movie.sought ≠ w.movie.minFilePos))) <| by
    unfold InOrder
    cases w.stack <;> simp

section Counting

/-- The movie is counted from its first frame, and the ring has not come round. -/
structure Counted (w : World σ) : Prop where
  base : w.base = 0
  peak : w.peak < FRAMES
  length : w.timeline.length < FRAMES

variable {w w' : World σ}

theorem Counted.ptr (hcounted : Counted w) (h : Sound frame w) :
    w.movie.framePtr = w.timeline.length := by
  rw [h.follows.ptr, hcounted.base, Nat.zero_add, Nat.mod_eq_of_lt hcounted.length]

theorem inStep (h : Sound frame w) (hcounted : Counted w) : InStep frame w :=
  ⟨w.timeline, h.follows.path, h.follows.stand, h.follows.recorded, h.follows.data,
    h.follows.pos, hcounted.ptr h⟩

theorem Counted.backPtr (hcounted : Counted w) (h : Sound frame w)
    (hbegin : w.movie.atBeginning = false) :
    w.movie.backPtr = w.timeline.length - w.movie.slots := by
  have hlength := hcounted.length
  rw [h.backPtr hbegin, hcounted.base, Nat.zero_add, Nat.mod_eq_of_lt (by omega)]

theorem Counted.sought_of_backPtr (hcounted : Counted w) (h : Sound frame w)
    (hback : w.movie.backPtr = 0) : w.movie.sought = w.movie.minFilePos := by
  unfold BsvMovie.sought
  split_ifs with hbegin
  · rfl
  · rw [hback]
    rcases Nat.eq_zero_or_pos w.timeline.length with hzero | hpos
    · exact (h.fresh hzero).2.1
    · have hpeak := hcounted.peak
      have hwindow := h.follows.window 0 hpos (by omega)
      simpa [hcounted.base] using hwindow

/-- With a state missing above it, no state of the movie is left to go back to its first frame. -/
theorem Counted.no_gap (hcounted : Counted w) (h : Sound frame w) {e : Entry σ}
    {rest : List (Entry σ)} (hstack : w.stack = e :: rest) (hin : e.inMovie = true)
    (hback : w.movie.backPtr = 0) : w.gap = false := by
  by_contra hgap
  have hbelow := h.below
  rw [hstack] at hbelow
  have htwo := (hbelow.top_lt hin).2 (by simpa using hgap)
  have hpos : 0 < w.timeline.length := by
    split_ifs at htwo <;> omega
  have hslots := h.slots hpos
  cases hbegin : w.movie.atBeginning with
  | true =>
    simp only [BsvMovie.atBeginning, Bool.and_eq_true, decide_eq_true_eq] at hbegin
    rw [hcounted.ptr h] at hbegin
    split_ifs at htwo <;> omega
  | false =>
    rw [hcounted.backPtr h hbegin] at hback
    split_ifs at htwo hslots <;> omega

theorem InOrder.rewound {i : Iteration Q} (hok : InOrder w i) (hcounted : Counted w)
    (h : Sound frame w) (hcheck : i.check = some true) (hfirst : w.first = false) :
    ∃ e rest, w.stack = e :: rest ∧ ∃ w', w.rewindMovie e rest = some w' ∧ Ready frame w' := by
  obtain ⟨e, rest, hstack, hint, hcase⟩ := hok.2 hcheck hfirst
  have hpeak := hcounted.peak
  have hbase := hcounted.base
  refine ⟨e, rest, hstack, ?_⟩
  cases hplayback : w.movie.playback with
  | false =>
    by_cases hback : w.movie.backPtr = 0
    · exact h.rewrite e rest hplayback (hcounted.sought_of_backPtr h hback) hint
    · rw [if_neg hback] at hcase
      obtain ⟨hin, hgap, hsought⟩ := hcase
      exact h.stepBack e rest hstack hin hgap (by omega) hint
        (Or.inr ⟨hplayback, hsought hplayback⟩)
  | true =>
    have hplace := Or.inl (b := w.movie.playback = false ∧ w.movie.sought ≠ w.movie.minFilePos)
      (And.intro hplayback (And.intro hbase hcounted.length))
    by_cases hback : w.movie.backPtr = 0
    · rw [if_pos hback] at hcase
      cases hin : e.inMovie with
      | true =>
        have hgap := hcounted.no_gap h hstack hin hback
        exact h.stepBack e rest hstack hin hgap (by omega) hint hplace
      | false =>
        exact h.restart e rest hstack hplayback hin (hcase hplayback) hback hbase hpeak
          (hcounted.sought_of_backPtr h hback) hint
    · rw [if_neg hback] at hcase
      obtain ⟨hin, hgap, -⟩ := hcase
      exact h.stepBack e rest hstack hin hgap (by omega) hint hplace

theorem InOrder.counted {i : Iteration Q} (hok : InOrder w i) (hcounted : Counted w)
    (h : Sound frame w) (hcheck : i.check = some true) (hfirst : w.first = false)
    {e : Entry σ} {rest : List (Entry σ)} {v : World σ} (hstack : w.stack = e :: rest)
    (hv : w.rewindMovie e rest = some v) :
    v.base = 0 ∧ v.peak < FRAMES ∧ v.timeline.length ≤ w.timeline.length := by
  have hpeak := hcounted.peak
  have hbase := hcounted.base
  have hlength := hcounted.length
  obtain ⟨e', rest', hstack', hint, hcase⟩ := hok.2 hcheck hfirst
  rw [hstack] at hstack'
  cases hstack'
  rw [rewindMovie_eq e rest (minFilePos_le hint hv) hint] at hv
  rw [← Option.some.inj hv]
  -- a header is only rewritten where the frames are counted from it
  have hindex : w.movie.sought = w.movie.minFilePos ∧ w.movie.playback = false →
      w.movie.atBeginning = false → w.timeline.length - w.movie.slots = 0 := by
    rintro ⟨hsought, hrecording⟩ hbegin
    rw [← hcounted.backPtr h hbegin]
    by_contra hback
    rw [if_neg hback] at hcase
    exact hcase.2.2 hrecording hsought
  refine ⟨?_, ?_, ?_⟩
  · simp only [hbase, Nat.zero_add]
    split_ifs with hbegin hrewritten
    · rfl
    · exact hindex hrewritten (by simpa using hbegin)
    · rfl
  · simp only [hbase, Nat.zero_add]
    split_ifs <;> omega
  · simp only
    split_ifs with hnil
    · exact Nat.zero_le _
    · push Not at hnil
      have hbelow := h.below
      rw [hstack] at hbelow
      exact ((below_inMovie (by simpa using hnil.2)).mp hbelow).1.length_le

theorem Counted.iterate {i : Iteration Q} (hcounted : Counted w) (h : Sound frame w)
    (hok : InOrder w i) (hw : w.iterate frame i = some w') : Counted w' := by
  obtain ⟨v, rfl, hv⟩ := iterate_cases hw
  have hptr := hok.1
  rw [hcounted.ptr h] at hptr
  have hkept : v.base = 0 ∧ v.peak < FRAMES ∧ v.timeline.length ≤ w.timeline.length := by
    rcases hv with ⟨first, rfl⟩ | rfl | ⟨hcheck, hfirst, ⟨e, rest, hstack, hv⟩ | ⟨hempty, -⟩⟩
    · exact ⟨hcounted.base, hcounted.peak, le_refl _⟩
    · exact ⟨hcounted.base, hcounted.peak, le_refl _⟩
    · exact hok.counted hcounted h hcheck hfirst hstack hv
    · obtain ⟨e, rest, hstack, -⟩ := hok.2 hcheck hfirst
      rw [hstack] at hempty
      exact nomatch hempty
  obtain ⟨hbase, hpeak, hlength⟩ := hkept
  refine ⟨hbase, ?_, ?_⟩
  · simp only [World.runFrame, hbase]
    omega
  · simp only [World.runFrame, List.length_append, List.length_singleton]
    omega

end Counting

/-- Every run of iterations in order leaves the movie in step with the core. -/
theorem in_step_of_in_order (playback : Bool) (state : σ) (data : List UInt8) (minFilePos : ℕ)
    (states : List σ) (thisblock : σ) (first : Bool) {is : List (Iteration Q)} {w : World σ}
    (hrun : RunsWithin (World.iterate frame) InOrder
      (World.start (BsvMovie.init playback state data minFilePos) states thisblock first) is w) :
    InStep frame w := by
  have hstart : Sound frame
      (World.start (BsvMovie.init playback state data minFilePos) states thisblock first) ∧
      Counted (World.start (BsvMovie.init playback state data minFilePos) states thisblock
        first) :=
    ⟨sound_start _ states thisblock first rfl rfl rfl rfl, rfl, frames_pos, frames_pos⟩
  have hend := hrun.invariant (I := fun w => Sound frame w ∧ Counted w) ?_ hstart
  · exact inStep hend.1 hend.2
  · rintro w i w' ⟨hsound, hcounted⟩ hok hw
    exact ⟨hsound.iterate (hok.rewound hcounted hsound) hw, hcounted.iterate hsound hok hw⟩

/-- A core that asks once in a frame and counts the frames. -/
def counting (n : ℕ) : Asking Unit Int16 ℕ := .ask () fun _ => .done (n + 1)

/-- An iteration in which every query is answered with 5. -/
def fives (pressed : Bool) : Iteration Unit := ⟨some pressed, 10, ⟨fun _ _ => 5, fun _ => 0⟩⟩

/-- Three frames are recorded, two of them taken back and one recorded again. -/
theorem in_step_small : ∃ w,
    RunsWithin (World.iterate counting) InOrder
      (World.start (BsvMovie.init false 0 [] 20) [] 0 false)
      [fives false, fives false, fives false, fives true, fives true, fives false] w ∧
    InStep counting w ∧ w.movie.framePtr = 3 := by
  have hrun : (runChecked (World.iterate counting) InOrder
      (World.start (BsvMovie.init false 0 [] 20) [] 0 false)
      [fives false, fives false, fives false, fives true, fives true, fives false]).map
        (fun w => w.movie.framePtr) = some 3 := by decide
  obtain ⟨w, hw, hptr⟩ := Option.map_eq_some_iff.mp hrun
  have hwithin := runsWithin_of_checked hw
  exact ⟨w, hwithin, in_step_of_in_order false 0 [] 20 [] 0 false hwithin, hptr⟩

theorem path_counting {m n : ℕ} {frames : List Frame} (h : Path counting m frames n) :
    n = m + frames.length := by
  induction frames generalizing m with
  | nil => exact h.symm
  | cons f frames ih =>
    obtain ⟨k, hframe, hrest⟩ := h
    have hk : m + 1 = k := by
      rcases f with ⟨_ | ⟨a, _ | ⟨b, answers⟩⟩, bytes⟩
      · cases hframe
      · exact Option.some.inj hframe
      · cases hframe
    rw [ih hrest, List.length_cons]
    omega

/-- The key is held when the buffer is exhausted: the core is reset and the movie goes on. -/
theorem exhausted_buffer_out_of_step :
    ¬ ∀ (is : List (Iteration Unit)) (w : World ℕ), is.length < FRAMES →
      run (World.iterate counting) (World.start (BsvMovie.init false 0 [] 20) [] 0 false) is =
        some w → InStep counting w := by
  intro hclaim
  have hrun : (run (World.iterate counting)
      (World.start (BsvMovie.init false 0 [] 20) [] 0 false)
      [fives false, fives true, fives true]).map
        (fun w => (w.core, w.movie.state, w.movie.framePtr)) = some (1, 0, 2) := by decide
  obtain ⟨w, hw, hfields⟩ := Option.map_eq_some_iff.mp hrun
  obtain ⟨frames, hpath, -, -, -, -, hptr⟩ := hclaim _ w (by decide) hw
  simp only [Prod.mk.injEq] at hfields
  obtain ⟨hcore, hstate, hcount⟩ := hfields
  have hlength := path_counting hpath
  omega

end RetroArch.Movie.Position
