/- A movie that has been recorded, played back from its file. -/

import RetroArch.Library.Run
import RetroArch.Movie.Following

namespace RetroArch.Movie.Replay

open Library.Asking Library.Bytes Library.Run Bsv Timeline Following

variable {σ Q : Type} {frame : σ → Asking Q Int16 σ}

theorem length_header (crc stateSize : ℕ) : (header crc stateSize).length = 16 := by
  simp [header]

theorem initPlayback_file (core : ExactCore σ) (crc : ℕ) (s : σ) (m : BsvMovie σ) :
    bsvMovieInitPlayback core s (m.file core crc) =
      some (.init true m.state m.data (16 + core.size), m.state) := by
  have hlength := length_header crc core.size
  have hstate := core.length_serialize m.state
  have hwords : (m.file core crc).take 16 ++ List.replicate (16 - (m.file core crc).length) 0 =
      header crc core.size := by
    have hle : 16 - (m.file core crc).length = 0 := by
      simp only [BsvMovie.file, List.length_append, hlength]
      omega
    rw [hle, List.replicate_zero, List.append_nil]
    unfold BsvMovie.file
    rw [List.append_assoc, List.take_left' hlength]
  have hmagic : ofBE ((header crc core.size).take 4) = BSV_MAGIC := by
    unfold header
    rw [List.append_assoc, List.append_assoc, List.take_left' (length_toBE 4 BSV_MAGIC)]
    exact ofBE_toBE (by decide)
  have hsize : ofLE ((header crc core.size).drop 12) = core.size := by
    unfold header
    rw [List.drop_left' (by simp)]
    exact ofLE_toLE core.size_lt
  have hdata : (m.file core crc).drop (16 + core.size) = m.data := by
    unfold BsvMovie.file
    exact List.drop_left' (by simp [hlength, hstate])
  have hbuf : ((m.file core crc).drop 16).take core.size = core.serialize m.state := by
    unfold BsvMovie.file
    rw [List.append_assoc, List.drop_left' hlength, List.take_left' hstate]
  unfold bsvMovieInitPlayback
  simp only [hwords, hmagic, hsize, hdata, hbuf, ne_eq, not_true_eq_false, false_and, if_false,
    hstate, core.unserialize_serialize, if_true]
  split_ifs with hzero
  · -- without a state in the file all states are one
    have hnil : ∀ t, core.serialize t = [] := by
      intro t
      exact List.length_eq_zero_iff.mp ((core.length_serialize t).trans hzero)
    have hs : s = m.state := by
      rw [← core.unserialize_serialize s, ← core.unserialize_serialize m.state, hnil, hnil]
    rw [hzero, hs]
  · rfl

section Recording

/-- A state is taken back only to the header's end, or while the buffer holds the states of the
movie without a gap and the ring the position: at most 2^20 frames behind the last one recorded
and not from 2 GiB on. -/
def Recordable (w : World σ) (i : Iteration Q) : Prop :=
  i.check = some true → w.first = false → ∃ e rest, w.stack = e :: rest ∧
    w.movie.sought < 2 ^ 31 ∧
    (w.movie.sought = w.movie.minFilePos ∨
      e.inMovie = true ∧ w.gap = false ∧
        w.peak < w.base + (w.timeline.length - w.movie.slots) + FRAMES)

instance (w : World σ) (i : Iteration Q) : Decidable (Recordable w i) :=
  decidable_of_iff
    (i.check = some true → w.first = false → ∃ e ∈ w.stack.head?,
      w.movie.sought < 2 ^ 31 ∧
      (w.movie.sought = w.movie.minFilePos ∨
        e.inMovie = true ∧ w.gap = false ∧
          w.peak < w.base + (w.timeline.length - w.movie.slots) + FRAMES)) <| by
    unfold Recordable
    cases w.stack <;> simp

/-- The movie of a recording, and what stays as it is. -/
structure Recording (frame : σ → Asking Q Int16 σ) (minFilePos : ℕ) (w : World σ) : Prop where
  sound : Sound frame w
  playback : w.movie.playback = false
  minFilePos : w.movie.minFilePos = minFilePos

variable {w w' : World σ} {minFilePos : ℕ}

theorem Recording.rewound (h : Recording frame minFilePos w) {i : Iteration Q}
    (hok : Recordable w i) (hcheck : i.check = some true) (hfirst : w.first = false) :
    ∃ e rest, w.stack = e :: rest ∧ ∃ w', w.rewindMovie e rest = some w' ∧ Ready frame w' := by
  obtain ⟨e, rest, hstack, hint, hcase⟩ := hok hcheck hfirst
  refine ⟨e, rest, hstack, ?_⟩
  by_cases hsought : w.movie.sought = w.movie.minFilePos
  · exact h.sound.rewrite e rest h.playback hsought hint
  · obtain ⟨hin, hgap, hwindow⟩ := hcase.resolve_left hsought
    have hlength := h.sound.length_top hstack hin hgap
    rw [← hlength, Nat.add_sub_cancel] at hwindow
    exact h.sound.stepBack e rest hstack hin hgap hwindow hint (Or.inr ⟨h.playback, hsought⟩)

theorem Recording.iterate (h : Recording frame minFilePos w) {i : Iteration Q}
    (hok : Recordable w i) (hw : w.iterate frame i = some w') :
    Recording frame minFilePos w' := by
  have hsound := h.sound.iterate (h.rewound hok) hw
  obtain ⟨v, rfl, hv⟩ := iterate_cases hw
  suffices hkept : v.movie.playback = false ∧ v.movie.minFilePos = minFilePos from
    ⟨hsound, hkept.1, hkept.2⟩
  rcases hv with ⟨first, rfl⟩ | rfl | ⟨hcheck, hfirst, ⟨e, rest, hstack, hv⟩ | ⟨hempty, -⟩⟩
  · exact ⟨h.playback, h.minFilePos⟩
  · exact ⟨h.playback, h.minFilePos⟩
  · obtain ⟨e', rest', -, hint, -⟩ := hok hcheck hfirst
    rw [rewindMovie_eq e rest (minFilePos_le hint hv) hint] at hv
    rw [← Option.some.inj hv]
    exact ⟨h.playback, h.minFilePos⟩
  · obtain ⟨e, rest, hstack, -⟩ := hok hcheck hfirst
    rw [hstack] at hempty
    exact nomatch hempty

end Recording

section Playing

/-- The second bytes of the answers are the stale ones. -/
def Restored (feed : Feed Q) (f : Frame) : Prop :=
  ∀ k a, f.answers[k]? = some a → highByte a = feed.stale k

variable {u v : World σ}

theorem play_byte (feed : Feed Q) {tape : Tape} {b : UInt8} {bs : List UInt8} (q : Q)
    (h : tape.data.drop tape.pos = b :: bs) :
    inputState true feed tape q = (bsvResult b (feed.stale tape.asked),
      { tape with pos := tape.pos + 1, asked := tape.asked + 1 }) ∧
      tape.data.drop (tape.pos + 1) = bs := by
  have hget : tape.data[tape.pos]? = some b := by
    rw [← List.head?_drop, h, List.head?_cons]
  have hdrop : tape.data.drop (tape.pos + 1) = bs := by
    rw [← List.tail_drop, h, List.tail_cons]
  unfold inputState
  rw [if_pos rfl, hget]
  exact ⟨rfl, hdrop⟩

/-- The answers come back from their bytes exactly where the stale bytes are their other ones. -/
theorem heard_iff (feed : Feed Q) {p : Asking Q Int16 σ} {answers : List Int16} {t : σ}
    (tape : Tape) {rest : List UInt8} (hfollows : p.follows answers = some t)
    (hdata : tape.data.drop tape.pos = answers.map lowByte ++ rest) :
    (p.heard (inputState true feed) tape = answers ↔
      ∀ k a, answers[k]? = some a → highByte a = feed.stale (tape.asked + k)) ∧
    (p.heard (inputState true feed) tape = answers →
      p.handled (inputState true feed) tape =
        (t, { tape with
          pos := tape.pos + answers.length
          asked := tape.asked + answers.length })) := by
  induction p generalizing answers tape with
  | done result =>
    cases answers with
    | nil =>
      cases hfollows
      exact ⟨⟨fun _ k a ha => (nomatch ha), fun _ => rfl⟩, fun _ => rfl⟩
    | cons a answers => cases hfollows
  | ask q next ih =>
    cases answers with
    | nil => cases hfollows
    | cons a answers =>
      obtain ⟨hinput, hrest⟩ := play_byte feed q hdata
      unfold Asking.heard Asking.handled
      rw [hinput]
      simp only [List.cons.injEq]
      by_cases hvalue : bsvResult (lowByte a) (feed.stale tape.asked) = a
      · obtain ⟨hiff, hhandled⟩ := ih a ⟨tape.data, tape.pos + 1, tape.movieEnd,
          tape.asked + 1⟩ hfollows hrest
        have hhigh := (bsvResult_lowByte_iff a _).mp hvalue
        rw [hvalue]
        refine ⟨⟨?_, ?_⟩, ?_⟩
        · rintro ⟨-, hheard⟩ k b hb
          cases k with
          | zero =>
            cases hb
            exact hhigh
          | succ k =>
            rw [hiff.mp hheard k b hb, Nat.add_right_comm, Nat.add_assoc]
        · intro hrestored
          refine ⟨rfl, hiff.mpr ?_⟩
          intro k b hb
          rw [hrestored (k + 1) b hb, Nat.add_right_comm, Nat.add_assoc]
        · rintro ⟨-, hheard⟩
          rw [hhandled hheard]
          simp only [List.length_cons, Prod.mk.injEq, Tape.mk.injEq, true_and]
          omega
      · refine ⟨⟨fun hheard => absurd hheard.1 hvalue, ?_⟩,
          fun hheard => absurd hheard.1 hvalue⟩
        intro hrestored
        exact absurd ((bsvResult_lowByte_iff a _).mpr (hrestored 0 a rfl)) hvalue

theorem iterate_quiet (frame : σ → Asking Q Int16 σ) (u : World σ) {i : Iteration Q}
    (hquiet : i.check ≠ some true) :
    ∃ u' : World σ, u.iterate frame i = some (u'.runFrame frame i.feed) ∧ u'.core = u.core ∧
      u'.movie = u.movie ∧ u'.timeline = u.timeline := by
  unfold World.iterate
  cases hcheck : i.check with
  | none => exact ⟨{ u with rewound := false, gap := true }, rfl, rfl, rfl, rfl⟩
  | some pressed =>
    cases pressed with
    | true => exact absurd hcheck hquiet
    | false =>
      unfold World.checkRewind
      cases hfirst : u.first with
      | true =>
        exact ⟨{ u with first := false, rewound := false, gap := true }, rfl, rfl, rfl, rfl⟩
      | false =>
        exact ⟨{ u with
          stack := ⟨u.core, u.timeline, u.rewound || u.gap, true⟩ :: u.stack.take i.kept
          first := false
          rewound := false
          gap := false }, rfl, rfl, rfl, rfl⟩

theorem runFrame_timeline (frame : σ → Asking Q Int16 σ) (w : World σ) (feed : Feed Q) :
    ∃ g, (w.runFrame frame feed).timeline = w.timeline ++ [g] ∧
      g.answers = (frame w.core).heard (inputState w.movie.playback feed)
        ⟨w.movie.data, w.movie.pos, w.movie.movieEnd, 0⟩ :=
  ⟨_, rfl, rfl⟩

/-- The frames that are still to be played lead to `t`, and their bytes come next. -/
structure Playing (frame : σ → Asking Q Int16 σ) (t : σ) (rest : List UInt8) (fs : List Frame)
    (u : World σ) : Prop where
  playback : u.movie.playback = true
  going : u.movie.movieEnd = false
  path : Path frame u.core fs t
  recorded : ∀ f ∈ fs, f.bytes = f.answers.map lowByte
  data : u.movie.data.drop u.movie.pos = bytesOf fs ++ rest

theorem Playing.next {t : σ} {rest : List UInt8} {f : Frame} {fs : List Frame}
    (h : Playing frame t rest (f :: fs) u) {i : Iteration Q} (hquiet : i.check ≠ some true) :
    ∃ v g, u.iterate frame i = some v ∧ v.timeline = u.timeline ++ [g] ∧
      (g.answers = f.answers ↔ Restored i.feed f) ∧
      (g.answers = f.answers → Playing frame t rest fs v) := by
  obtain ⟨u', hiterate, hcore, hmovie, htimeline⟩ := iterate_quiet frame u hquiet
  obtain ⟨m, hfollows, hpath⟩ := h.path
  have hdata : u.movie.data.drop u.movie.pos =
      f.answers.map lowByte ++ (bytesOf fs ++ rest) := by
    rw [h.data, ← h.recorded f List.mem_cons_self, ← List.append_assoc]
    rfl
  obtain ⟨hiff, hhandled⟩ := heard_iff i.feed
    ⟨u.movie.data, u.movie.pos, u.movie.movieEnd, 0⟩ hfollows hdata
  obtain ⟨g, hg, hanswers⟩ := runFrame_timeline frame u' i.feed
  rw [hcore, hmovie, h.playback] at hanswers
  rw [htimeline] at hg
  refine ⟨_, g, hiterate, hg, ?_, ?_⟩
  · rw [hanswers, hiff]
    simp only [Nat.zero_add]
    rfl
  · intro hheard
    rw [hanswers] at hheard
    have hframe := hhandled hheard
    refine
      { playback := ?_
        going := ?_
        path := ?_
        recorded := fun g hg => h.recorded g (List.mem_cons_of_mem f hg)
        data := ?_ }
    · simp only [World.runFrame, hmovie, h.playback]
    · simp only [World.runFrame, hcore, hmovie, h.playback, hframe]
      exact h.going
    · simp only [World.runFrame, hcore, hmovie, h.playback, hframe]
      exact hpath
    · simp only [World.runFrame, hcore, hmovie, h.playback, hframe]
      rw [← List.drop_drop, hdata]
      exact List.drop_left' (List.length_map lowByte)

theorem run_quiet (frame : σ → Asking Q Int16 σ) (u : World σ) {is : List (Iteration Q)}
    (hquiet : ∀ i ∈ is, i.check ≠ some true) :
    ∃ v gs, run (World.iterate frame) u is = some v ∧ v.timeline = u.timeline ++ gs := by
  induction is generalizing u with
  | nil => exact ⟨u, [], rfl, (List.append_nil _).symm⟩
  | cons i is ih =>
    obtain ⟨u', hiterate, -, -, htimeline⟩ :=
      iterate_quiet frame u (hquiet i List.mem_cons_self)
    obtain ⟨v, gs, hrun, hgs⟩ := ih (u'.runFrame frame i.feed)
      fun j hj => hquiet j (List.mem_cons_of_mem i hj)
    obtain ⟨g, hg, -⟩ := runFrame_timeline frame u' i.feed
    rw [run, hiterate]
    refine ⟨v, g :: gs, hrun, ?_⟩
    rw [hgs, hg, htimeline, List.append_assoc, List.singleton_append]

/-- Frames are played. -/
theorem Playing.frames {t : σ} {rest : List UInt8} {fs : List Frame}
    (h : Playing frame t rest fs u) {is : List (Iteration Q)} (hlength : is.length = fs.length)
    (hquiet : ∀ i ∈ is, i.check ≠ some true) :
    ∃ v gs, run (World.iterate frame) u is = some v ∧ v.timeline = u.timeline ++ gs ∧
      (gs.map Frame.answers = fs.map Frame.answers ↔
        List.Forall₂ (fun i f => Restored i.feed f) is fs) ∧
      (gs.map Frame.answers = fs.map Frame.answers → Playing frame t rest [] v) := by
  induction fs generalizing u is with
  | nil =>
    cases List.length_eq_zero_iff.mp hlength
    exact ⟨u, [], rfl, (List.append_nil _).symm,
      ⟨fun _ => List.Forall₂.nil, fun _ => rfl⟩, fun _ => h⟩
  | cons f fs ih =>
    cases is with
    | nil => cases hlength
    | cons i is =>
      have hrest : ∀ j ∈ is, j.check ≠ some true := fun j hj =>
        hquiet j (List.mem_cons_of_mem i hj)
      obtain ⟨u', g, hiterate, hg, hiff, hplaying⟩ := h.next (hquiet i List.mem_cons_self)
      rw [run, hiterate, Option.bind_some]
      by_cases heq : g.answers = f.answers
      · obtain ⟨v, gs, hrun, hgs, hall, hend⟩ :=
          ih (hplaying heq) (Nat.succ.inj hlength) hrest
        refine ⟨v, g :: gs, hrun, ?_, ?_, ?_⟩
        · rw [hgs, hg, List.append_assoc, List.singleton_append]
        · rw [List.map_cons, List.map_cons, List.cons.injEq, List.forall₂_cons, hiff, hall]
        · intro hanswers
          exact hend (List.cons.inj hanswers).2
      · obtain ⟨v, gs, hrun, hgs⟩ := run_quiet frame u' hrest
        refine ⟨v, g :: gs, hrun, ?_, ?_, ?_⟩
        · rw [hgs, hg, List.append_assoc, List.singleton_append]
        · rw [List.map_cons, List.map_cons, List.cons.injEq, List.forall₂_cons, ← hiff]
          exact ⟨fun hanswers => absurd hanswers.1 heq, fun hboth => absurd hboth.1 heq⟩
        · intro hanswers
          exact absurd (List.cons.inj hanswers).1 heq

end Playing

/-- The core is given the recorded values, query by query, and the first query behind them ends
the movie. -/
def Replayed (recorded : List Frame) (v : World σ) : Prop :=
  v.timeline.map Frame.answers = recorded.map Frame.answers ∧ v.movie.movieEnd = false ∧
    ∀ (feed : Feed Q) (asked : ℕ) (query : Q),
      (inputState v.movie.playback feed
        ⟨v.movie.data, v.movie.pos, v.movie.movieEnd, asked⟩ query).2.movieEnd = true

/-- Behind the frames, the next query ends the movie exactly when nothing is left of its file. -/
theorem Playing.ended_iff [Inhabited Q] {t : σ} {rest : List UInt8} {v : World σ}
    (h : Playing frame t rest [] v) :
    (∀ (feed : Feed Q) (asked : ℕ) (query : Q),
      (inputState v.movie.playback feed
        ⟨v.movie.data, v.movie.pos, v.movie.movieEnd, asked⟩ query).2.movieEnd = true) ↔
      rest = [] := by
  have hdata : v.movie.data.drop v.movie.pos = rest := h.data
  rw [h.playback, h.going]
  cases rest with
  | nil =>
    refine ⟨fun _ => rfl, ?_⟩
    intro _ feed asked query
    have hget : v.movie.data[v.movie.pos]? = none := by
      rw [← List.head?_drop, hdata, List.head?_nil]
    unfold inputState
    rw [if_pos rfl, hget]
  | cons b rest =>
    refine ⟨?_, fun hnil => nomatch hnil⟩
    intro hended
    have hfalse := hended ⟨fun _ _ => 0, fun _ => 0⟩ 0 default
    rw [(play_byte _ default hdata).1] at hfalse
    exact nomatch hfalse

/-- A recording is replayed exactly when it stopped at the end of its file and every value had the
byte that is stale when it is read. -/
theorem replayed_iff [Inhabited Q] (core : ExactCore σ) (crc : ℕ) (s : σ) (states : List σ)
    (thisblock : σ) (first : Bool) {is : List (Iteration Q)} {w : World σ}
    (hrun : RunsWithin (World.iterate frame) Recordable
      (World.start (bsvMovieInitRecord core s) states thisblock first) is w)
    (current : σ) (states' : List σ) (thisblock' : σ) (first' : Bool) (ps : List (Iteration Q))
    (hlength : ps.length = w.timeline.length) (hquiet : ∀ p ∈ ps, p.check ≠ some true) :
    Path frame w.movie.state w.timeline w.core ∧
    ∃ movie state v, bsvMovieInitPlayback core current (w.movie.file core crc) =
        some (movie, state) ∧
      run (World.iterate frame)
        { World.start movie states' thisblock' first' with core := state } ps = some v ∧
      (Replayed (Q := Q) w.timeline v ↔
        w.movie.pos = w.movie.data.length ∧
          List.Forall₂ (fun p f => Restored p.feed f) ps w.timeline) := by
  have hstart : Recording frame (16 + core.size)
      (World.start (bsvMovieInitRecord core s) states thisblock first) :=
    ⟨sound_start _ states thisblock first rfl rfl rfl rfl, rfl, rfl⟩
  have hend := hrun.invariant (I := Recording frame (16 + core.size))
    (fun _ _ _ hrecording hok hw => hrecording.iterate hok hw) hstart
  have hfollows := hend.sound.follows
  have hplaying : Playing frame w.core (w.movie.data.drop w.movie.pos) w.timeline
      { World.start (.init true w.movie.state w.movie.data (16 + core.size)) states' thisblock'
          first' with core := w.movie.state } :=
    { playback := rfl
      going := rfl
      path := hfollows.path
      recorded := hfollows.recorded hend.playback
      data := by
        rw [← hfollows.data, List.take_append_drop]
        exact List.drop_zero }
  obtain ⟨v, gs, hplayed, hgs, hiff, hplayed'⟩ := hplaying.frames hlength hquiet
  have hgs' : v.timeline = gs := hgs
  have hleft : w.movie.data.drop w.movie.pos = [] ↔ w.movie.pos = w.movie.data.length := by
    rw [List.drop_eq_nil_iff]
    have hinside := hfollows.inside
    omega
  refine ⟨hfollows.path, _, _, v, initPlayback_file core crc current w.movie, hplayed, ?_⟩
  unfold Replayed
  rw [hgs', ← hiff, ← hleft]
  constructor
  · rintro ⟨hanswers, -, hended⟩
    exact ⟨(hplayed' hanswers).ended_iff.mp hended, hanswers⟩
  · rintro ⟨hnil, hanswers⟩
    have hlast := hplayed' hanswers
    exact ⟨hanswers, hlast.going, hlast.ended_iff.mpr hnil⟩

/-- A core that adds up the values it is given. -/
def adding (n : UInt8) : Asking Unit Int16 UInt8 := .ask () fun a => .done (n + lowByte a)

def addingCore : ExactCore UInt8 where
  serialize n := [n]
  unserialize bytes := bytes.headD 0
  size := 1
  length_serialize _ := rfl
  unserialize_serialize _ := rfl
  size_lt := by decide

/-- An iteration in which every query is answered with the same value. -/
def always (value : Int16) (check : Option Bool) : Iteration Unit :=
  ⟨check, 10, ⟨fun _ _ => value, fun _ => 0⟩⟩

/-- Two frames are recorded, the second of them taken back and recorded again. -/
theorem replayed_small : ∃ w v,
    RunsWithin (World.iterate adding) Recordable
      (World.start (bsvMovieInitRecord addingCore 7) [] 0 false)
      [always 1 (some false), always 2 (some false), always 3 (some true)] w ∧
    run (World.iterate adding)
      { World.start (.init true w.movie.state w.movie.data 17) [] 0 false with
        core := w.movie.state }
      [always 9 none, always 9 none] = some v ∧
    w.timeline.map Frame.answers = [[1], [3]] ∧ Replayed (Q := Unit) w.timeline v := by
  have hrun : (runChecked (World.iterate adding) Recordable
      (World.start (bsvMovieInitRecord addingCore 7) [] 0 false)
      [always 1 (some false), always 2 (some false), always 3 (some true)]).map
        (fun w => (w.timeline.map Frame.answers, w.movie.pos, w.movie.data)) =
      some ([[1], [3]], 2, [1, 3]) := by decide
  obtain ⟨w, hw, hfields⟩ := Option.map_eq_some_iff.mp hrun
  simp only [Prod.mk.injEq] at hfields
  obtain ⟨hanswers, hpos, hdata⟩ := hfields
  have hlength : w.timeline.length = 2 := by
    rw [← List.length_map Frame.answers, hanswers]
    rfl
  have hwithin := runsWithin_of_checked hw
  obtain ⟨-, movie, state, v, hinit, hplayed, hiff⟩ :=
    replayed_iff addingCore 0 7 [] 0 false hwithin 7 [] 0 false
      [always 9 none, always 9 none] hlength.symm (by simp [always])
  rw [initPlayback_file] at hinit
  cases hinit
  refine ⟨w, v, hwithin, hplayed, hanswers, hiff.mpr ⟨?_, ?_⟩⟩
  · rw [hpos, hdata]
    rfl
  · obtain ⟨f, g, htimeline⟩ := List.length_eq_two.mp hlength
    rw [htimeline] at hanswers ⊢
    simp only [List.map_cons, List.map_nil, List.cons.injEq, and_true] at hanswers
    refine .cons ?_ (.cons ?_ .nil)
    · intro k a ha
      rw [hanswers.1] at ha
      rcases k with _ | k <;> cases ha
      rfl
    · intro k a ha
      rw [hanswers.2] at ha
      rcases k with _ | k <;> cases ha
      rfl

/-- Of a value of two bytes one is in the file. -/
theorem second_byte_lost :
    ¬ ∀ (is ps : List (Iteration Unit)) (w v : World UInt8),
      run (World.iterate adding) (World.start (bsvMovieInitRecord addingCore 7) [] 0 false) is =
        some w →
      ps.length = w.timeline.length → (∀ p ∈ ps, p.check ≠ some true) →
      run (World.iterate adding)
        (World.start (.init true w.movie.state w.movie.data 17) [] 0 false) ps = some v →
      Replayed (Q := Unit) w.timeline v := by
  intro hclaim
  have hrun : (run (World.iterate adding)
      (World.start (bsvMovieInitRecord addingCore 7) [] 0 false) [always 256 (some false)]).map
        (fun w => (w.timeline.map Frame.answers, w.movie.state, w.movie.data)) =
      some ([[256]], 7, [0]) := by decide
  have hplay : (run (World.iterate adding)
      (World.start (.init true 7 [0] 17) [] 0 false) [always 9 none]).map
        (fun v => v.timeline.map Frame.answers) = some [[0]] := by decide
  obtain ⟨w, hw, hfields⟩ := Option.map_eq_some_iff.mp hrun
  obtain ⟨v, hv, hread⟩ := Option.map_eq_some_iff.mp hplay
  simp only [Prod.mk.injEq] at hfields
  obtain ⟨hanswers, hstate, hdata⟩ := hfields
  have hlength : w.timeline.length = 1 := by
    rw [← List.length_map Frame.answers, hanswers]
    rfl
  rw [← hstate, ← hdata] at hv
  have hreplayed := (hclaim _ [always 9 none] w v hw hlength.symm (by simp [always]) hv).1
  rw [hread, hanswers] at hreplayed
  exact absurd hreplayed (by decide)

end RetroArch.Movie.Replay
