/- Where the four variants of the file calls answer alike. -/

import Mathlib.Data.List.Infix
import RetroArch.Vfs.Implementation

namespace RetroArch.Vfs.Backends

open Streams Vfs

variable {content : Content} {op : Op}

theorem seek_start (content : Content) (pos : ℕ) :
    SystemFile.seek ⟨content, pos⟩ 0 .start = some ⟨content, 0⟩ := by
  simp [SystemFile.seek]

theorem seek_end (content : Content) (pos : ℕ) :
    SystemFile.seek ⟨content, pos⟩ 0 .end = some ⟨content, content.bytes.length⟩ := by
  have hfits := content.fits
  have htarget : (0 : Int) ≤ content.bytes.length + 0 ∧
      (content.bytes.length : Int) + 0 < 2 ^ 63 := by omega
  rw [SystemFile.seek, if_pos htarget]
  simp

/-- The stream as it is opened. The map is made before its size is known. -/
def atStart (b : Backend) (content : Content) : Stream :=
  let s : Stream :=
    { unbuffered := false, frequentAccess := false, mapped := false, file := ⟨content, 0⟩,
      mappos := 0, mapsize := 0, size := 0 }
  match b with
  | .buffered => { s with size := content.bytes.length }
  | .mapped => { s with unbuffered := true, frequentAccess := true, mapped := true }
  | .descriptor => { s with unbuffered := true, mapped := true }
  | .orbis => { s with size := content.bytes.length }

theorem seekInternal_file {build : Build} {s : Stream} {offset : Int} {whence : Whence}
    {file : SystemFile} (hmap : (s.unbuffered && s.isMapped build) = false)
    (hseek : s.file.seek offset whence = some file) (horbis : build.orbis = false) :
    retroVfsFileSeekInternal build s offset whence = (0, { s with file := file }) := by
  rw [retroVfsFileSeekInternal, hmap, hseek]
  simp only [horbis, Bool.and_false, Bool.false_and, Bool.false_eq_true, if_false]

theorem seekInternal_mapped {build : Build} {s : Stream} (offset : Int) (whence : Whence)
    (hmap : (s.unbuffered && s.isMapped build) = true) :
    retroVfsFileSeekInternal build s offset whence = seekMapped s offset whence := by
  rw [retroVfsFileSeekInternal, hmap, if_pos rfl]

theorem seekInternal_none {build : Build} {s : Stream} {offset : Int} {whence : Whence}
    (hmap : (s.unbuffered && s.isMapped build) = false)
    (hseek : s.file.seek offset whence = none) :
    retroVfsFileSeekInternal build s offset whence = (-1, s) := by
  rw [retroVfsFileSeekInternal, hmap, hseek]
  rfl

theorem seekInternal_rewind {build : Build} {s : Stream} {offset : Int} {whence : Whence}
    (hmap : (s.unbuffered && s.isMapped build) = false)
    (hseek : s.file.seek offset whence = some s.file) (hpos : s.file.pos = 0) :
    retroVfsFileSeekInternal build s offset whence = (0, s) := by
  have hsigned : ¬ signed32 (0 : ℕ) < 0 := by
    unfold signed32
    omega
  rw [retroVfsFileSeekInternal, hmap, hseek]
  simp only [hpos, hsigned, decide_false, Bool.and_false, Bool.false_eq_true, if_false]

theorem tell_file {build : Build} {s : Stream}
    (hmap : (s.unbuffered && s.isMapped build) = false) :
    retroVfsFileTellImpl build s = if s.unbuffered then 0 else (s.file.pos : Int) := by
  rw [retroVfsFileTellImpl]
  cases hunbuffered : s.unbuffered with
  | false => rfl
  | true =>
    rw [hunbuffered, Bool.true_and] at hmap
    rw [hmap]
    rfl

theorem measureFile_file {build : Build} {s : Stream}
    (hmap : (s.unbuffered && s.isMapped build) = false) (horbis : build.orbis = false) :
    measureFile build s =
      { s with
        file := ⟨s.file.content, 0⟩
        size := if s.unbuffered then 0 else s.file.content.bytes.length } := by
  obtain ⟨unbuffered, frequentAccess, mapped, ⟨content, pos⟩, mappos, mapsize, size⟩ := s
  have hfile : ∀ size file, (unbuffered &&
      Stream.isMapped build ⟨unbuffered, frequentAccess, mapped, file, mappos, mapsize, size⟩)
      = false := fun _ _ => hmap
  unfold measureFile
  rw [if_neg (by rw [horbis]; exact Bool.false_ne_true),
    seekInternal_file (hfile _ _) (seek_start _ _) horbis]
  dsimp only
  rw [seekInternal_file (hfile _ _) (seek_end _ _) horbis]
  dsimp only
  rw [seekInternal_file (hfile _ _) (seek_start _ _) horbis, tell_file (hfile _ _)]

theorem measureFile_mapped {build : Build} {s : Stream}
    (hmap : (s.unbuffered && s.isMapped build) = true) (horbis : build.orbis = false)
    (hmapsize : s.mapsize = 0) (hmappos : s.mappos = 0) :
    measureFile build s = { s with size := 0 } := by
  obtain ⟨unbuffered, frequentAccess, mapped, file, mappos, mapsize, size⟩ := s
  obtain rfl : mapsize = 0 := hmapsize
  obtain rfl : mappos = 0 := hmappos
  have hmapped : ∀ size, (unbuffered &&
      Stream.isMapped build ⟨unbuffered, frequentAccess, mapped, file, 0, 0, size⟩) = true :=
    fun _ => hmap
  have hstart : ∀ size, retroVfsFileSeekInternal build
      ⟨unbuffered, frequentAccess, mapped, file, 0, 0, size⟩ 0 .start
      = (0, ⟨unbuffered, frequentAccess, mapped, file, 0, 0, size⟩) := by
    intro size
    rw [seekInternal_mapped _ _ (hmapped size)]
    simp [seekMapped]
  have hend : retroVfsFileSeekInternal build
      ⟨unbuffered, frequentAccess, mapped, file, 0, 0, size⟩ 0 .end
      = (0, ⟨unbuffered, frequentAccess, mapped, file, 0, 0, size⟩) := by
    rw [seekInternal_mapped _ _ (hmapped size)]
    simp [seekMapped]
  have htell : retroVfsFileTellImpl build
      ⟨unbuffered, frequentAccess, mapped, file, 0, 0, size⟩ = 0 := by
    obtain ⟨hunbuffered, hisMapped⟩ := Bool.and_eq_true_iff.mp hmap
    rw [retroVfsFileTellImpl, hisMapped]
    change (if (!unbuffered) = true then _ else _) = _
    rw [show unbuffered = true from hunbuffered]
    exact signed64_zero
  unfold measureFile
  rw [if_neg (by rw [horbis]; exact Bool.false_ne_true), hstart]
  dsimp only
  rw [hend]
  dsimp only
  rw [htell, hstart]

theorem mapFile_eq {build : Build} (horbis : build.orbis = false) (mmap : ℕ → Bool)
    (content : Content) :
    mapFile build mmap
        { unbuffered := true, frequentAccess := true, mapped := false, file := ⟨content, 0⟩,
          mappos := 0, mapsize := 0, size := 0 } =
      some
        { unbuffered := true, frequentAccess := mmap 0, mapped := true, file := ⟨content, 0⟩,
          mappos := 0, mapsize := 0, size := 0 } := by
  have hfile : ∀ file, (true && Stream.isMapped build
      ⟨true, true, false, file, 0, 0, 0⟩) = false := by
    intro file
    rw [Stream.isMapped, Bool.and_false, Bool.false_and, Bool.and_false]
  have hok : ¬ (0 : Int) = -1 := by decide
  unfold mapFile
  rw [seekInternal_file (hfile _) (seek_end _ _) horbis]
  dsimp only
  rw [if_neg hok, seekInternal_file (hfile _) (seek_start _ _) horbis]
  dsimp only
  rw [wrap64_zero]

theorem openFile_eq (b : Backend) (content : Content) :
    b.openFile content = some (atStart b content) := by
  cases b with
  | buffered =>
    rw [Backend.openFile, retroVfsFileOpenImpl, if_neg (by decide), measureFile_file rfl rfl]
    rfl
  | mapped =>
    rw [Backend.openFile, retroVfsFileOpenImpl, if_pos (by decide), mapFile_eq rfl,
      Option.map_some, measureFile_mapped rfl rfl rfl rfl]
    rfl
  | descriptor =>
    rw [Backend.openFile, retroVfsFileOpenImpl, if_pos (by decide), mapFile_eq rfl,
      Option.map_some, measureFile_file rfl rfl]
    rfl
  | orbis =>
    have hmeasure : measureFile ⟨true, false⟩
        ⟨false, false, false, ⟨content, 0⟩, 0, 0, 0⟩ = atStart .orbis content := by
      unfold measureFile
      rw [if_pos rfl, seek_end]
      dsimp only [Option.getD_some]
      rw [seek_start]
      rfl
    rw [Backend.openFile, retroVfsFileOpenImpl, if_neg (by decide)]
    exact congrArg some hmeasure

/-- Nothing is delivered and nothing moves. -/
def Harmless (content : Content) : Op → Prop
  | .read len => len = 0 ∨ content.bytes = []
  | .seek offset .end => offset.toInt = 0 ∧ content.bytes = []
  | .seek offset _ => offset.toInt ≤ 0
  | .tell => True

def answer : Op → Result
  | .read _ => ⟨0, []⟩
  | .seek offset _ => ⟨if offset.toInt < 0 then -1 else 0, []⟩
  | .tell => ⟨0, []⟩

theorem position_atStart (b : Backend) (content : Content) :
    (atStart b content).position b.build = 0 := by
  cases b <;> rfl

theorem read_harmless (b : Backend) {len : UInt64} (h : len = 0 ∨ content.bytes = []) :
    step b.build (atStart b content) (.read len) = (⟨0, []⟩, atStart b content) := by
  have htake : content.bytes.take len.toNat = [] := by
    rcases h with rfl | hnil
    · rfl
    · rw [hnil, List.take_nil]
  cases b with
  | mapped =>
    have hread : readMapped (atStart .mapped content) len.toNat
        = (0, [], atStart .mapped content) := by
      have hlen := len.toNat_lt
      have hcut : (if wrap64 len.toNat > 0 then 0 else len.toNat) = 0 := by
        split_ifs with h
        · rfl
        · rw [Nat.not_lt] at h
          have hwrap := wrap64_of_nonneg (x := len.toNat) (by omega) (by omega)
          omega
      simp [readMapped, atStart, hcut]
    have hstep : retroVfsFileReadImpl ⟨false, true⟩ (atStart .mapped content) len.toNat
        = readMapped (atStart .mapped content) len.toNat := if_pos rfl
    rw [step, Backend.build, hstep, hread]
  | buffered => simp [step, retroVfsFileReadImpl, atStart, Backend.build, SystemFile.read, htake]
  | descriptor => simp [step, retroVfsFileReadImpl, atStart, Backend.build, SystemFile.read, htake]
  | orbis => simp [step, retroVfsFileReadImpl, atStart, Backend.build, SystemFile.read, htake]

theorem notMapped_atStart {b : Backend} (hb : b ≠ .mapped) (content : Content) :
    ((atStart b content).unbuffered && (atStart b content).isMapped b.build) = false := by
  cases b with
  | mapped => exact absurd rfl hb
  | buffered => rfl
  | descriptor => rfl
  | orbis => rfl

theorem file_atStart (b : Backend) (content : Content) :
    (atStart b content).file = ⟨content, 0⟩ := by
  cases b <;> rfl

theorem system_seek_harmless {offset : Int64} {position : Whence}
    (h : Harmless content (.seek offset position)) :
    SystemFile.seek ⟨content, 0⟩ offset.toInt position =
      if offset.toInt < 0 then none else some ⟨content, 0⟩ := by
  cases position with
  | start =>
    have hle : offset.toInt ≤ 0 := h
    split_ifs with hneg
    · exact if_neg (by dsimp only; omega)
    · have hzero : offset.toInt = 0 := by omega
      rw [hzero]
      exact seek_start content 0
  | current =>
    have hle : offset.toInt ≤ 0 := h
    split_ifs with hneg
    · exact if_neg (by dsimp only; omega)
    · have hzero : offset.toInt = 0 := by omega
      rw [hzero]
      exact seek_start content 0
  | «end» =>
    obtain ⟨hzero, hnil⟩ : offset.toInt = 0 ∧ content.bytes = [] := h
    rw [hzero, seek_end, hnil]
    rfl

theorem mappos_add (content : Content) (offset : Int) :
    wrap64 ((atStart .mapped content).mappos + offset) = wrap64 offset :=
  congrArg wrap64 (Int.zero_add offset)

theorem mapsize_add (content : Content) (offset : Int) :
    wrap64 ((atStart .mapped content).mapsize + offset) = wrap64 offset :=
  congrArg wrap64 (Int.zero_add offset)

theorem seekMapped_harmless {offset : Int64} {position : Whence}
    (h : Harmless content (.seek offset position)) :
    seekMapped (atStart .mapped content) offset.toInt position =
      (if offset.toInt < 0 then -1 else 0, atStart .mapped content) := by
  have hle := offset.le_toInt
  cases position with
  | start =>
    have hsign : offset.toInt ≤ 0 := h
    split_ifs with hneg
    · exact if_pos hneg
    · have hzero : offset.toInt = 0 := by omega
      simp [seekMapped, hzero, atStart]
  | current =>
    have hsign : offset.toInt ≤ 0 := h
    split_ifs with hneg
    · have hwrap := le_wrap64_of_neg hle hneg
      refine if_pos (Or.inl ⟨hneg, ?_⟩)
      rw [mappos_add]
      change 0 < _
      omega
    · have hzero : offset.toInt = 0 := by omega
      simp [seekMapped, hzero, atStart]
  | «end» =>
    obtain ⟨hzero, -⟩ : offset.toInt = 0 ∧ content.bytes = [] := h
    simp [seekMapped, hzero, atStart]

theorem seek_harmless (b : Backend) {offset : Int64} {position : Whence}
    (h : Harmless content (.seek offset position)) :
    step b.build (atStart b content) (.seek offset position) =
      (answer (.seek offset position), atStart b content) := by
  have hseek : retroVfsFileSeekInternal b.build (atStart b content) offset.toInt position =
      (if offset.toInt < 0 then -1 else 0, atStart b content) := by
    by_cases hb : b = .mapped
    · subst hb
      rw [seekInternal_mapped _ _ rfl]
      exact seekMapped_harmless h
    · have hsystem := system_seek_harmless h
      rw [← file_atStart b content] at hsystem
      have hpos : (atStart b content).file.pos = 0 := by rw [file_atStart]
      split_ifs at hsystem ⊢ with hneg
      · exact seekInternal_none (notMapped_atStart hb content) hsystem
      · exact seekInternal_rewind (notMapped_atStart hb content) hsystem hpos
  rw [step, retroVfsFileSeekImpl, hseek]
  rfl

theorem step_harmless (b : Backend) (h : Harmless content op) :
    step b.build (atStart b content) op = (answer op, atStart b content) := by
  cases op with
  | read len => exact read_harmless b h
  | seek offset position => exact seek_harmless b h
  | tell =>
    cases b with
    | mapped =>
      have htell : retroVfsFileTellImpl ⟨false, true⟩ (atStart .mapped content) = 0 :=
        signed64_zero
      rw [step, Backend.build, htell]
      rfl
    | buffered => rfl
    | descriptor => rfl
    | orbis => rfl

/-- What one call shows at the start of the file. -/
def observeStep (b : Backend) (content : Content) (op : Op) : Result × ℕ :=
  let (r, s) := step b.build (atStart b content) op
  (r, s.position b.build)

theorem observeStep_seek (b : Backend) (content : Content) (offset : Int64) (position : Whence) :
    observeStep b content (.seek offset position) =
      (⟨(retroVfsFileSeekInternal b.build (atStart b content) offset.toInt position).1, []⟩,
        (retroVfsFileSeekInternal b.build (atStart b content) offset.toInt position).2.position
          b.build) := rfl

theorem read_harmless_of_agree {len : UInt64}
    (h : observeStep .orbis content (.read len) = observeStep .buffered content (.read len)) :
    Harmless content (.read len) := by
  have hvalue : (0 : Int) = (content.bytes.take len.toNat).length :=
    congrArg (fun x : Result × ℕ => x.1.value) h
  have hnil : content.bytes.take len.toNat = [] := by
    rw [← List.length_eq_zero_iff]
    omega
  rcases List.take_eq_nil_iff.mp hnil with hlen | hbytes
  · left
    exact UInt64.toNat_inj.mp hlen
  · exact Or.inr hbytes

theorem seekMapped_moves {offset : Int64} {position : Whence}
    (h : position = .end ∨ 0 < offset.toInt) :
    seekMapped (atStart .mapped content) offset.toInt position =
      (offset.toInt, { atStart .mapped content with mappos := wrap64 offset.toInt }) := by
  have hle := offset.le_toInt
  have hlt := offset.toInt_lt
  have hsigned : signed64 (wrap64 offset.toInt) = offset.toInt := signed64_wrap64 hle hlt
  cases position with
  | start =>
    have hpos := h.resolve_left (by decide)
    have hvalue : seekMapped (atStart .mapped content) offset.toInt .start =
        (signed64 (wrap64 offset.toInt), _) := if_neg (by omega)
    rw [hvalue, hsigned]
  | current =>
    have hpos := h.resolve_left (by decide)
    simp only [seekMapped, mappos_add, hsigned]
    refine if_neg ?_
    rintro (⟨hneg, -⟩ | ⟨-, hback⟩)
    · omega
    · exact absurd hback (Nat.not_lt_zero _)
  | «end» =>
    simp only [seekMapped, mapsize_add, hsigned]
    exact if_neg (Nat.not_lt_zero _)

theorem seek_system_of_target {f : SystemFile} {offset : Int} {whence : Whence} (base : ℕ)
    (hbase : base = match whence with
      | .start => 0
      | .current => f.pos
      | .end => f.content.bytes.length) (hle : 0 ≤ base + offset)
    (hlt : (base : Int) + offset < 2 ^ 63) :
    f.seek offset whence = some { f with pos := ((base : Int) + offset).toNat } := by
  cases whence <;> subst hbase <;> exact if_pos ⟨hle, hlt⟩

theorem seek_harmless_of_agree {offset : Int64} {position : Whence}
    (h : observeStep .mapped content (.seek offset position) =
      observeStep .buffered content (.seek offset position)) :
    Harmless content (.seek offset position) := by
  have hlt := offset.toInt_lt
  have hnot := notMapped_atStart (b := .buffered) (by decide) content
  have hfile : (atStart .buffered content).file = ⟨content, 0⟩ := rfl
  rw [observeStep_seek, observeStep_seek, seekInternal_mapped _ _ rfl] at h
  have hforward : position ≠ .end → offset.toInt ≤ 0 := by
    intro hend
    by_contra hsign
    have hpos : 0 < offset.toInt := Int.not_le.mp hsign
    have htarget : (atStart .buffered content).file.seek offset.toInt position =
        some ⟨content, ((0 : ℕ) + offset.toInt).toNat⟩ := by
      refine seek_system_of_target 0 ?_ (by omega) (by omega)
      cases position with
      | start => rfl
      | current => rfl
      | «end» => exact absurd rfl hend
    rw [seekMapped_moves (Or.inr hpos), seekInternal_file hnot htarget rfl] at h
    have hvalue : offset.toInt = 0 := congrArg (fun x : Result × ℕ => x.1.value) h
    omega
  cases position with
  | start => exact hforward (by decide)
  | current => exact hforward (by decide)
  | «end» =>
    have hle := offset.le_toInt
    have hfits := content.fits
    rw [seekMapped_moves (Or.inl rfl)] at h
    by_cases hrange : 0 ≤ content.bytes.length + offset.toInt ∧
        content.bytes.length + offset.toInt < 2 ^ 63
    · have htarget : (atStart .buffered content).file.seek offset.toInt .end =
          some ⟨content, ((content.bytes.length : Int) + offset.toInt).toNat⟩ :=
        seek_system_of_target _ rfl hrange.1 hrange.2
      rw [seekInternal_file hnot htarget rfl] at h
      have hvalue : offset.toInt = 0 := congrArg (fun x : Result × ℕ => x.1.value) h
      have hposition : wrap64 offset.toInt = ((content.bytes.length : Int) + offset.toInt).toNat :=
        congrArg Prod.snd h
      rw [hvalue, wrap64_zero] at hposition
      refine ⟨hvalue, ?_⟩
      rw [← List.length_eq_zero_iff]
      omega
    · have htarget : (atStart .buffered content).file.seek offset.toInt .end = none :=
        if_neg hrange
      rw [seekInternal_none hnot htarget] at h
      have hvalue : offset.toInt = -1 := congrArg (fun x : Result × ℕ => x.1.value) h
      have hposition : wrap64 offset.toInt = 0 := congrArg Prod.snd h
      have hwrap := le_wrap64_of_neg hle (by omega)
      omega

/-- On this sequence every variant returns the same values, delivers the same bytes and ends at the
same position. -/
def Agree (content : Content) (ops : List Op) : Prop :=
  ∀ b : Backend, b.observe content ops = Backend.observe .buffered content ops

theorem runOps_harmless (b : Backend) {ops : List Op} (rest : List Op) (h : ∀ op ∈ ops, Harmless content op) :
    runOps b.build (atStart b content) (ops ++ rest) =
      (ops.map answer ++ (runOps b.build (atStart b content) rest).1,
        (runOps b.build (atStart b content) rest).2) := by
  induction ops with
  | nil => rfl
  | cons op ops ih =>
    have hop := step_harmless b (h op List.mem_cons_self)
    have hops := ih fun op' hop' => h op' (List.mem_cons_of_mem op hop')
    rw [List.cons_append, runOps, hop]
    dsimp only
    rw [hops]
    rfl

theorem observe_eq (b : Backend) (content : Content) (ops : List Op) :
    b.observe content ops =
      some ((runOps b.build (atStart b content) ops).1,
        (runOps b.build (atStart b content) ops).2.position b.build) := by
  rw [Backend.observe, openFile_eq]
  rfl

theorem agree_of_harmless {ops : List Op} (h : ∀ op ∈ ops, Harmless content op) :
    Agree content ops := by
  have hobserve : ∀ b : Backend, b.observe content ops = some (ops.map answer, 0) := by
    intro b
    have hrun := runOps_harmless b [] h
    rw [List.append_nil] at hrun
    rw [observe_eq, hrun]
    change some (ops.map answer ++ [], (atStart b content).position b.build) = _
    rw [List.append_nil, position_atStart]
  intro b
  rw [hobserve, hobserve]

theorem observeStep_of_agree (ops : List Op) (hops : ∀ op ∈ ops, Harmless content op)
    (h : Agree content (ops ++ [op])) (b : Backend) :
    observeStep b content op = observeStep .buffered content op := by
  have hrun : ∀ b : Backend, b.observe content (ops ++ [op]) =
      some (ops.map answer ++ [(observeStep b content op).1], (observeStep b content op).2) := by
    intro b
    rw [observe_eq, runOps_harmless b [op] hops]
    rfl
  have hagree := h b
  rw [hrun, hrun, Option.some_inj, Prod.mk.injEq, List.append_cancel_left_eq,
    List.singleton_inj] at hagree
  exact Prod.ext hagree.1 hagree.2

/-- The variants agree along a whole sequence exactly when no call of it moves or delivers
anything. -/
theorem backends_agree_iff (content : Content) (ops : List Op) :
    (∀ calls, calls <+: ops → Agree content calls) ↔ ∀ op ∈ ops, Harmless content op := by
  constructor
  · intro h
    induction ops using List.reverseRecOn with
    | nil =>
      intro op hop
      exact absurd hop List.not_mem_nil
    | append_singleton ops op ih =>
      have hops := ih fun calls hcalls => h calls (hcalls.trans (List.prefix_append ops [op]))
      have hstep := observeStep_of_agree ops hops (h _ (List.prefix_refl _))
      have hop : Harmless content op := by
        cases op with
        | read len => exact read_harmless_of_agree (hstep .orbis)
        | seek offset position => exact seek_harmless_of_agree (hstep .mapped)
        | tell => trivial
      intro op' hmem
      rcases List.mem_append.mp hmem with hmem | hmem
      · exact hops op' hmem
      · rw [List.mem_singleton.mp hmem]
        exact hop
  · intro h calls hcalls
    apply agree_of_harmless
    intro op hop
    exact h op (hcalls.subset hop)

/-- A read of one byte of two is answered with zero by ORBIS. -/
theorem backends_disagree :
    ¬ ∀ content ops, Agree content ops := by
  intro h
  have hagree := h ⟨[7, 8], by decide⟩ [.read 1]
  have hop := observeStep_of_agree [] (by simp) hagree .orbis
  rcases read_harmless_of_agree hop with hlen | hnil
  · exact absurd hlen (by decide)
  · exact absurd hnil (by decide)

end RetroArch.Vfs.Backends
