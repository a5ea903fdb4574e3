/- The movie follows the core: what every iteration keeps while frames are run and taken back. -/

import Mathlib.Tactic.Linarith
import RetroArch.Movie.Bsv

namespace RetroArch.Movie.Timeline

open Library.Asking Bsv

variable {σ Q : Type} {frame : σ → Asking Q Int16 σ}

/-- Frames, by the answers they were given, from a state to a state. -/
def Path (frame : σ → Asking Q Int16 σ) : σ → List Frame → σ → Prop
  | s, [], t => s = t
  | s, f :: fs, t => ∃ m, (frame s).follows f.answers = some m ∧ Path frame m fs t

theorem Path.snoc {s m t : σ} {fs : List Frame} {f : Frame} (h : Path frame s fs m)
    (hf : (frame m).follows f.answers = some t) : Path frame s (fs ++ [f]) t := by
  induction fs generalizing s with
  | nil =>
    cases h
    exact ⟨t, hf, rfl⟩
  | cons g fs ih =>
    obtain ⟨n, hg, hrest⟩ := h
    exact ⟨n, hg, ih hrest⟩

def bytesOf (fs : List Frame) : List UInt8 := fs.flatMap Frame.bytes

@[simp] theorem bytesOf_nil : bytesOf [] = [] := rfl

theorem bytesOf_append (fs gs : List Frame) : bytesOf (fs ++ gs) = bytesOf fs ++ bytesOf gs :=
  List.flatMap_append

theorem bytesOf_mono {fs gs : List Frame} (h : fs <+: gs) : bytesOf fs <+: bytesOf gs := by
  obtain ⟨rest, rfl⟩ := h
  exact ⟨bytesOf rest, (bytesOf_append fs rest).symm⟩

@[simp] theorem lowByte_bsvResult (byte stale : UInt8) :
    lowByte (bsvResult byte stale) = byte := by
  apply UInt8.toBitVec_inj.mp
  ext i hi
  simp [lowByte, bsvResult]

@[simp] theorem highByte_bsvResult (byte stale : UInt8) :
    highByte (bsvResult byte stale) = stale := by
  apply UInt8.toBitVec_inj.mp
  ext i hi
  simp only [highByte, bsvResult]
  have hword : i < 16 := by omega
  have hhigh : 8 + i < 16 := by omega
  simp [hword, hhigh, BitVec.getLsbD_eq_getElem hi]

theorem bsvResult_bytes (value : Int16) : bsvResult (lowByte value) (highByte value) = value := by
  apply Int16.toBitVec_inj.mp
  apply BitVec.eq_of_toNat_eq
  simp [lowByte, highByte, bsvResult]
  have hvalue := value.toBitVec.isLt
  generalize value.toBitVec.toNat = n at hvalue ⊢
  have hlow : n % 256 < 2 ^ 8 := Nat.mod_lt n (by decide)
  have hhigh : (n >>> 8 % 256) <<< 8 % 65536 = (n >>> 8 % 256) <<< 8 := by
    rw [Nat.shiftRight_eq_div_pow, Nat.shiftLeft_eq]
    omega
  rw [hhigh, Nat.or_comm, ← Nat.shiftLeft_add_eq_or_of_lt hlow, Nat.shiftRight_eq_div_pow,
    Nat.shiftLeft_eq]
  omega

theorem bsvResult_lowByte_iff (value : Int16) (stale : UInt8) :
    bsvResult (lowByte value) stale = value ↔ highByte value = stale := by
  constructor
  · intro h
    rw [← h]
    exact highByte_bsvResult _ _
  · rintro rfl
    exact bsvResult_bytes value

/-- What the queries of a frame do to the file: nothing in front of where it stood changes, and
what is written or read behind it stands for the first of the answers. -/
structure Moved (playback : Bool) (tape : Tape) (answers : List Int16) (bytes : List UInt8)
    (tape' : Tape) : Prop where
  data : tape'.data.take tape'.pos = tape.data.take tape.pos ++ bytes
  pos : tape'.pos = tape.pos + bytes.length
  inside : tape'.pos ≤ tape'.data.length
  stand : bytes <+: answers.map lowByte
  recorded : playback = false → bytes = answers.map lowByte
  played : playback = true → tape'.data = tape.data

theorem Moved.refl {playback : Bool} {tape : Tape} (h : tape.pos ≤ tape.data.length) :
    Moved playback tape [] [] tape where
  data := (List.append_nil _).symm
  pos := rfl
  inside := h
  stand := List.prefix_refl _
  recorded := fun _ => rfl
  played := fun _ => rfl

theorem length_overwrite {data : List UInt8} {pos : ℕ} (h : pos ≤ data.length) (byte : UInt8) :
    (overwrite data pos byte).length = max data.length (pos + 1) := by
  unfold overwrite
  rw [List.length_append, List.length_cons, List.length_take, List.length_drop]
  omega

theorem take_overwrite {data : List UInt8} {pos : ℕ} (h : pos ≤ data.length) (byte : UInt8) :
    (overwrite data pos byte).take (pos + 1) = data.take pos ++ [byte] := by
  unfold overwrite
  rw [List.take_append, List.length_take, min_eq_left h, List.take_take]
  simp

/-- One query. -/
theorem Moved.query {playback : Bool} {tape : Tape} (feed : Feed Q) (query : Q)
    (h : tape.pos ≤ tape.data.length) :
    (inputState playback feed tape query).2.pos ≤
        (inputState playback feed tape query).2.data.length ∧
      ∀ {answers : List Int16} {bytes : List UInt8} {tape' : Tape},
        Moved playback (inputState playback feed tape query).2 answers bytes tape' →
          ∃ bytes', Moved playback tape ((inputState playback feed tape query).1 :: answers)
            bytes' tape' := by
  cases playback with
  | false =>
    have hinside : tape.pos + 1 ≤ (overwrite tape.data tape.pos
        (lowByte (feed.driver tape.asked query))).length := by
      rw [length_overwrite h]
      omega
    refine ⟨hinside, ?_⟩
    intro answers bytes tape' hmoved
    have hbytes : bytes = answers.map lowByte := hmoved.recorded rfl
    refine ⟨lowByte (feed.driver tape.asked query) :: bytes, ?_, ?_, hmoved.inside, ?_, ?_, ?_⟩
    · rw [hmoved.data]
      simp only [inputState, Bool.false_eq_true, if_false]
      rw [take_overwrite h]
      simp
    · rw [hmoved.pos, List.length_cons]
      simp only [inputState, Bool.false_eq_true, if_false]
      omega
    · rw [hbytes]
      exact List.prefix_refl _
    · intro _
      rw [hbytes]
      rfl
    · exact fun hplayback => nomatch hplayback
  | true =>
    unfold inputState
    simp only [if_true]
    rcases Option.eq_none_or_eq_some tape.data[tape.pos]? with hbyte | ⟨byte, hbyte⟩
    · rw [hbyte]
      refine ⟨h, ?_⟩
      intro answers bytes tape' hmoved
      -- behind the end of the file no byte is left for any answer
      have hend : tape.data.length ≤ tape.pos := List.getElem?_eq_none_iff.mp hbyte
      have hnil : bytes = [] := by
        have hinside := hmoved.inside
        rw [hmoved.played rfl, hmoved.pos] at hinside
        simp only at hinside
        exact List.length_eq_zero_iff.mp (by omega)
      subst hnil
      exact ⟨[], hmoved.data, hmoved.pos, hmoved.inside, List.nil_prefix,
        fun hplayback => (nomatch hplayback), hmoved.played⟩
    · rw [hbyte]
      obtain ⟨hlt, hget⟩ := List.getElem?_eq_some_iff.mp hbyte
      refine ⟨hlt, ?_⟩
      intro answers bytes tape' hmoved
      refine ⟨byte :: bytes, ?_, ?_, hmoved.inside, ?_, fun hplayback => (nomatch hplayback),
        hmoved.played⟩
      · rw [hmoved.data]
        simp only
        rw [List.take_succ_eq_append_getElem hlt, hget]
        simp
      · rw [hmoved.pos, List.length_cons]
        simp only
        omega
      · simp only [List.map_cons, lowByte_bsvResult]
        exact List.prefix_cons_inj byte |>.mpr hmoved.stand

theorem moved (playback : Bool) (feed : Feed Q) (p : Asking Q Int16 σ) (tape : Tape)
    (h : tape.pos ≤ tape.data.length) :
    ∃ bytes, Moved playback tape (p.heard (inputState playback feed) tape) bytes
      (p.handled (inputState playback feed) tape).2 := by
  have hrel := Asking.handled_heard (inputState playback feed)
    (fun s answers t => s.pos ≤ s.data.length → ∃ bytes, Moved playback s answers bytes t)
    (fun _ hs => ⟨[], Moved.refl hs⟩) ?_ p tape
  · exact hrel h
  · intro s q answers t hnext hs
    obtain ⟨hinside, hcons⟩ := Moved.query feed q hs
    obtain ⟨bytes, hmoved⟩ := hnext hinside
    exact hcons hmoved

end RetroArch.Movie.Timeline
