/- Patches for a pair of files, and what the applier's loops do with their hunks, whole or cut short. -/

import RetroArch.Tasks.UpsReading
import Mathlib.Data.List.GetD

namespace RetroArch.Tasks

open Encodings Library Library.Bytes

/-- A number of equal bytes, then a run of bytes that differ; one more equal byte ends it. A hunk
may have no run at all. -/
structure UpsHunk where
  skip : ℕ
  run : List UInt8
  run_nonzero : ∀ b ∈ run, b ≠ 0

namespace UpsHunk

/-- The differences a hunk stands for. -/
def expand (h : UpsHunk) : List UInt8 := List.replicate h.skip 0 ++ (h.run ++ [0])

def bytes (h : UpsHunk) : List UInt8 := Varint.encode h.skip ++ (h.run ++ [0])

end UpsHunk

def expandAll (hs : List UpsHunk) : List UInt8 := hs.flatMap UpsHunk.expand

def hunkBytes (hs : List UpsHunk) : List UInt8 := hs.flatMap UpsHunk.bytes

/-- Every hunk stands for a difference. -/
def FullRuns (hs : List UpsHunk) : Prop := ∀ h ∈ hs, h.run ≠ []

/-- The exclusive or of two files, both filled up with zeros to the longer one. -/
def difference (s t : List UInt8) : List UInt8 :=
  (List.range (max s.length t.length)).map fun i => s.getD i 0 ^^^ t.getD i 0

/-- The hunks cover the difference, up to zeros at its end; a run that reaches the end has its
last zero past it. -/
def Splits (hs : List UpsHunk) (s t : List UInt8) : Prop :=
  ∃ k, expandAll hs ++ List.replicate k 0 = difference s t ++ [0]

/-- `"UPS1"` -/
def upsMagicBytes : List UInt8 := [0x55, 0x50, 0x53, 0x31]

def upsHeader (s t : List UInt8) : List UInt8 :=
  upsMagicBytes ++ (Varint.encode s.length ++ Varint.encode t.length)

/-- What the checksum of the patch is taken of. -/
def upsBody (s t : List UInt8) (hs : List UpsHunk) : List UInt8 :=
  upsHeader s t ++ (hunkBytes hs ++
    (crcBytes (encodingCrc32 0 s) ++ crcBytes (encodingCrc32 0 t)))

def upsPatch (s t : List UInt8) (hs : List UpsHunk) : List UInt8 :=
  upsBody s t hs ++ crcBytes (encodingCrc32 0 (upsBody s t hs))

theorem expandAll_cons (h : UpsHunk) (hs : List UpsHunk) :
    expandAll (h :: hs) = h.expand ++ expandAll hs := List.flatMap_cons

theorem hunkBytes_cons (h : UpsHunk) (hs : List UpsHunk) :
    hunkBytes (h :: hs) = h.bytes ++ hunkBytes hs := List.flatMap_cons

theorem UpsHunk.length_expand (h : UpsHunk) :
    h.expand.length = h.skip + (h.run.length + 1) := by
  rw [expand, List.length_append, List.length_replicate, List.length_append,
    List.length_singleton]

theorem upsXorLoop_cons {b : UInt8} (hb : b ≠ 0) {data : UpsData} {tail : List UInt8}
    (h : data.unread = b :: tail) (left : ℕ) :
    upsXorLoop (left + 1) data = upsXorLoop left ((data.xored [b]).read [b]) ∧
      ((data.xored [b]).read [b]).unread = tail := by
  have hsent : (data.xored [b]).unread = [b] ++ tail := by
    rw [unread_xored]
    exact h
  constructor
  · rw [upsXorLoop, upsPatchRead_unread h]
    simp only
    rw [if_neg hb, upsXor_read]
    rfl
  · exact UpsData.unread_read hsent

theorem upsXorLoop_run {run : List UInt8} (hrun : ∀ b ∈ run, b ≠ 0) {data : UpsData}
    {tail : List UInt8} (h : data.unread = run ++ 0 :: tail) {left : ℕ} (hleft : run.length < left) :
    upsXorLoop left data = (data.xored (run ++ [0])).read (run ++ [0]) := by
  induction run generalizing data left with
  | nil =>
    obtain ⟨left, rfl⟩ := Nat.exists_eq_succ_of_ne_zero (Nat.ne_zero_of_lt hleft)
    rw [upsXorLoop, upsPatchRead_unread h]
    simp only [if_true]
    rw [upsXor_read]
    rfl
  | cons b run ih =>
    obtain ⟨left, rfl⟩ := Nat.exists_eq_succ_of_ne_zero (Nat.ne_zero_of_lt hleft)
    obtain ⟨hloop, hrest⟩ := upsXorLoop_cons (hrun b List.mem_cons_self) h left
    rw [hloop, ih (fun c hc => hrun c (List.mem_cons_of_mem b hc)) hrest
      (Nat.lt_of_succ_lt_succ hleft), xored_read, UpsData.xored_xored, UpsData.read_read]
    rfl

theorem upsXorLoop_cut {run : List UInt8} (hrun : ∀ b ∈ run, b ≠ 0) {data : UpsData}
    (hb : data.Bounded) (h : data.unread = run) {left : ℕ} (hleft : run.length < left) :
    upsXorLoop left data = (data.xored (run ++ [0])).read run := by
  induction run generalizing data left with
  | nil =>
    obtain ⟨left, rfl⟩ := Nat.exists_eq_succ_of_ne_zero (Nat.ne_zero_of_lt hleft)
    rw [upsXorLoop, upsPatchRead_end hb h]
    simp only [if_true]
    rfl
  | cons b run ih =>
    obtain ⟨left, rfl⟩ := Nat.exists_eq_succ_of_ne_zero (Nat.ne_zero_of_lt hleft)
    obtain ⟨hloop, hrest⟩ := upsXorLoop_cons (hrun b List.mem_cons_self) h left
    have hb' : ((data.xored [b]).read [b]).Bounded :=
      UpsData.bounded_read (bounded_xored hb [b]) [b]
    rw [hloop, ih (fun c hc => hrun c (List.mem_cons_of_mem b hc)) hb' hrest
      (Nat.lt_of_succ_lt_succ hleft), xored_read, UpsData.xored_xored, UpsData.read_read]
    rfl

theorem upsHunk_of_decode {data : UpsData} {skip : ℕ} (hskip : skip < 2 ^ 32) {code : List UInt8}
    (hdecode : upsDecode data = some (UInt64.ofNat skip, data.read code)) :
    upsHunk data = some (upsXorLoop
      ((data.read code).patchLength - (data.read code).patchOffset + 1)
      ((data.xored (List.replicate skip 0)).read code)) := by
  have hlength : (UInt64.ofNat skip).toNat % 2 ^ 32 = skip := by
    rw [UInt64.toNat_ofNat']
    omega
  obtain ⟨-, hpatch, hoffset⟩ := xored_patch (List.replicate skip 0) (data.read code)
  rw [upsHunk, hdecode, Option.map_some]
  simp only [hlength, upsCopy_eq, hpatch, hoffset]
  rw [xored_read]

theorem upsHunk_whole {data : UpsData} (hb : data.Bounded) {h : UpsHunk}
    (hskip : h.skip < 2 ^ 32) {tail : List UInt8} (hunread : data.unread = h.bytes ++ tail) :
    upsHunk data = some ((data.xored h.expand).read h.bytes) := by
  rw [UpsHunk.bytes, List.append_assoc] at hunread
  have hrest : ((data.xored (List.replicate h.skip 0)).read (Varint.encode h.skip)).unread =
      h.run ++ 0 :: tail := by
    rw [← unread_xored (List.replicate h.skip 0)] at hunread
    rw [UpsData.unread_read hunread, List.append_assoc]
    rfl
  have hleft : h.run.length < (data.read (Varint.encode h.skip)).patchLength -
      (data.read (Varint.encode h.skip)).patchOffset + 1 := by
    rw [← UpsData.length_unread (UpsData.bounded_read hb _), UpsData.unread_read hunread]
    simp only [List.length_append]
    omega
  rw [upsHunk_of_decode hskip (upsDecode_encode hb hunread),
    upsXorLoop_run h.run_nonzero hrest hleft, xored_read, UpsData.xored_xored, UpsData.read_read]
  rfl

theorem loop_cond {data : UpsData} (hb : data.Bounded) (hlong : 12 ≤ data.patchLength) :
    data.patchOffset < data.patchLength - 12 ↔ 12 < data.unread.length := by
  rw [UpsData.length_unread hb]
  omega

theorem upsHunks_whole (hs : List UpsHunk) {data : UpsData} (hb : data.Bounded)
    (hlong : 12 ≤ data.patchLength) (hskip : ∀ h ∈ hs, h.skip < 2 ^ 32) {tail : List UInt8}
    (htail : tail.length = 12) (hunread : data.unread = hunkBytes hs ++ tail) {left : ℕ}
    (hleft : hs.length < left) :
    upsHunks left data = some ((data.xored (expandAll hs)).read (hunkBytes hs)) := by
  induction hs generalizing data left with
  | nil =>
    obtain ⟨left, rfl⟩ := Nat.exists_eq_succ_of_ne_zero (Nat.ne_zero_of_lt hleft)
    have hstop : ¬ 12 < data.unread.length := by
      rw [hunread]
      show ¬ 12 < tail.length
      omega
    rw [upsHunks, if_neg (fun hgo => hstop ((loop_cond hb hlong).mp hgo))]
    rfl
  | cons h hs ih =>
    obtain ⟨left, rfl⟩ := Nat.exists_eq_succ_of_ne_zero (Nat.ne_zero_of_lt hleft)
    rw [hunkBytes_cons, List.append_assoc] at hunread
    have hgo : 12 < data.unread.length := by
      have hpos := Varint.encode_pos h.skip
      rw [hunread, UpsHunk.bytes]
      simp only [List.length_append]
      omega
    have hrest : ((data.xored h.expand).read h.bytes).unread = hunkBytes hs ++ tail := by
      rw [← unread_xored h.expand] at hunread
      exact UpsData.unread_read hunread
    have hlong' : 12 ≤ ((data.xored h.expand).read h.bytes).patchLength := by
      show 12 ≤ (data.xored h.expand).patchLength
      rw [(xored_patch h.expand data).2.1]
      exact hlong
    rw [upsHunks, if_pos ((loop_cond hb hlong).mpr hgo),
      upsHunk_whole hb (hskip h List.mem_cons_self) hunread, Option.bind_some,
      ih (UpsData.bounded_read (bounded_xored hb _) _) hlong'
        (fun h' hh' => hskip h' (List.mem_cons_of_mem h hh')) hrest
        (Nat.lt_of_succ_lt_succ hleft),
      xored_read, UpsData.xored_xored, UpsData.read_read, expandAll_cons, hunkBytes_cons]

/-- The bytes sent have a zero, or nothing at all, where the difference has none. -/
def Misses (es full : List UInt8) : Prop := ∃ i, full.getD i 0 ≠ 0 ∧ es.getD i 0 = 0

theorem misses_at {es front back : List UInt8} {b : UInt8} (hb : b ≠ 0)
    (hes : es.getD front.length 0 = 0) : Misses es (front ++ b :: back) := by
  refine ⟨front.length, ?_, hes⟩
  rw [List.getD_append_right _ _ _ _ (Nat.le_refl _), Nat.sub_self]
  exact hb

theorem Misses.append {es full : List UInt8} (h : Misses es full) (front : List UInt8) :
    Misses (front ++ es) (front ++ full) := by
  obtain ⟨i, hfull, hes⟩ := h
  refine ⟨front.length + i, ?_, ?_⟩
  · rw [List.getD_append_right _ _ _ _ (Nat.le_add_right _ _), Nat.add_sub_cancel_left]
    exact hfull
  · rw [List.getD_append_right _ _ _ _ (Nat.le_add_right _ _), Nat.add_sub_cancel_left]
    exact hes

theorem misses_hunk {es : List UInt8} {h : UpsHunk} (hrun : h.run ≠ []) (hs : List UpsHunk)
    (hes : es.getD h.skip 0 = 0) : Misses es (expandAll (h :: hs)) := by
  obtain ⟨b, run, hbytes⟩ := List.exists_cons_of_ne_nil hrun
  have hb : b ≠ 0 := h.run_nonzero b (hbytes ▸ List.mem_cons_self)
  have hfull : expandAll (h :: hs) =
      List.replicate h.skip 0 ++ b :: (run ++ [0] ++ expandAll hs) := by
    rw [expandAll_cons, UpsHunk.expand, hbytes]
    simp only [List.append_assoc, List.cons_append]
  rw [hfull]
  apply misses_at hb
  rw [List.length_replicate]
  exact hes

theorem expandAll_pos (h : UpsHunk) (hs : List UpsHunk) : 0 < (expandAll (h :: hs)).length := by
  rw [expandAll_cons, List.length_append, UpsHunk.length_expand]
  omega

theorem misses_run {h : UpsHunk} {hs : List UpsHunk} (hruns : FullRuns hs) {r rest : List UInt8}
    (hlen : r.length ≤ h.run.length) (hrest : 2 ≤ rest.length)
    (hcut : r ++ rest = h.run ++ ([0] ++ hunkBytes hs)) :
    Misses (List.replicate h.skip 0 ++ (r ++ [0])) (expandAll (h :: hs)) ∧
      (List.replicate h.skip 0 ++ (r ++ [0])).length < (expandAll (h :: hs)).length := by
  obtain ⟨more, hmore⟩ := List.prefix_of_prefix_length_le
    ⟨rest, hcut⟩ ⟨[0] ++ hunkBytes hs, rfl⟩ hlen
  have hrest' : rest = more ++ ([0] ++ hunkBytes hs) := by
    rw [← hmore, List.append_assoc] at hcut
    exact List.append_cancel_left hcut
  rw [expandAll_cons, UpsHunk.expand, ← hmore]
  cases more with
  | cons m more =>
    have hm : m ≠ 0 := h.run_nonzero m (hmore ▸ List.mem_append_right r List.mem_cons_self)
    constructor
    · rw [List.append_assoc]
      apply Misses.append
      simp only [List.append_assoc, List.cons_append]
      apply misses_at hm
      rw [List.getD_append_right _ _ _ _ (Nat.le_refl _), Nat.sub_self]
      rfl
    · simp only [List.length_append, List.length_cons]
      omega
  | nil =>
    -- the whole run was read, so that what is missed is in a hunk after it
    cases hs with
    | nil =>
      rw [hrest'] at hrest
      exact absurd hrest (by decide)
    | cons h' hs =>
      have hpos := expandAll_pos h' hs
      rw [List.append_nil]
      constructor
      · have hfirst : Misses [] (expandAll (h' :: hs)) :=
          misses_hunk (hruns h' List.mem_cons_self) hs rfl
        have hnext := hfirst.append (List.replicate h.skip 0 ++ (r ++ [0]))
        rw [List.append_nil] at hnext
        exact hnext
      · simp only [List.length_append] at hpos ⊢
        omega

/-- A hunk the patch may end in: its number is unfinished, or it is read whole, or its run is cut. -/
theorem upsHunk_prefix {data : UpsData} (hb : data.Bounded) {h : UpsHunk}
    (hskip : h.skip < 2 ^ 32) {hs : List UpsHunk} {rest : List UInt8}
    (hunread : data.unread ++ rest = h.bytes ++ hunkBytes hs) :
    upsHunk data = none ∨
      (∃ bs, upsHunk data = some ((data.xored h.expand).read bs) ∧
        ((data.xored h.expand).read bs).unread ++ rest = hunkBytes hs) ∨
      ∃ r bs, upsHunk data =
          some ((data.xored (List.replicate h.skip 0 ++ (r ++ [0]))).read bs) ∧
        ((data.xored (List.replicate h.skip 0 ++ (r ++ [0]))).read bs).unread = [] ∧
        r.length ≤ h.run.length ∧ r ++ rest = h.run ++ ([0] ++ hunkBytes hs) := by
  cases hdecode : Varint.decode data.unread with
  | none =>
    left
    rw [upsHunk, upsDecode_none hb hdecode]
    rfl
  | some found =>
    obtain ⟨v, r⟩ := found
    right
    rw [UpsHunk.bytes, List.append_assoc] at hunread
    have hwhole := Varint.decode_append hdecode rest
    rw [hunread, Varint.decode_encode] at hwhole
    obtain ⟨hv, hr⟩ := Prod.mk.inj (Option.some.inj hwhole)
    obtain ⟨code, hcode, hread⟩ := upsDecode_some hb hdecode
    rw [← hv] at hread
    have hsent : ((data.xored (List.replicate h.skip 0)).read code).unread = r := by
      rw [← unread_xored (List.replicate h.skip 0)] at hcode
      exact UpsData.unread_read hcode
    have hleft : r.length < (data.read code).patchLength - (data.read code).patchOffset + 1 := by
      rw [← UpsData.length_unread (UpsData.bounded_read hb _), UpsData.unread_read hcode]
      exact Nat.lt_succ_self _
    have hcut : r ++ rest = h.run ++ ([0] ++ hunkBytes hs) := by
      rw [← hr, List.append_assoc]
    rw [upsHunk_of_decode hskip hread]
    by_cases hlen : r.length ≤ h.run.length
    · right
      have hrun : ∀ b ∈ r, b ≠ 0 := by
        obtain ⟨more, hmore⟩ := List.prefix_of_prefix_length_le
          ⟨rest, hcut⟩ ⟨[0] ++ hunkBytes hs, rfl⟩ hlen
        exact fun b hmem => h.run_nonzero b (hmore ▸ List.mem_append_left more hmem)
      have hb' : ((data.xored (List.replicate h.skip 0)).read code).Bounded :=
        UpsData.bounded_read (bounded_xored hb _) code
      have hend : (data.xored (List.replicate h.skip 0 ++ (r ++ [0]))).unread =
          (code ++ r) ++ [] := by
        rw [unread_xored, hcode, List.append_nil]
      refine ⟨r, code ++ r, ?_, UpsData.unread_read hend, hlen, hcut⟩
      rw [upsXorLoop_cut hrun hb' hsent hleft, xored_read, UpsData.xored_xored,
        UpsData.read_read]
    · left
      obtain ⟨tail, htail⟩ : ∃ tail, r = h.run ++ 0 :: tail := by
        have hwhole' : h.run ++ [0] <+: r ++ rest :=
          ⟨hunkBytes hs, by rw [hcut, List.append_assoc]⟩
        obtain ⟨tail, htail⟩ := List.prefix_of_prefix_length_le hwhole'
          (List.prefix_append r rest)
          (by rw [List.length_append, List.length_singleton]; omega)
        exact ⟨tail, by rw [← htail, List.append_assoc]; rfl⟩
      have hall : (data.xored h.expand).unread = (code ++ (h.run ++ [0])) ++ tail := by
        rw [unread_xored, hcode, htail]
        simp only [List.append_assoc, List.singleton_append]
      rw [htail] at hsent
      refine ⟨code ++ (h.run ++ [0]), ?_, ?_⟩
      · rw [upsXorLoop_run h.run_nonzero hsent (by omega), xored_read, UpsData.xored_xored,
          UpsData.read_read]
        rfl
      · rw [UpsData.unread_read hall]
        rw [htail, List.append_assoc] at hcut
        have hend : [0] ++ (tail ++ rest) = [0] ++ hunkBytes hs := List.append_cancel_left hcut
        exact List.append_cancel_left hend

/-- A patch that ends inside its hunks never finishes, or misses a difference. -/
theorem upsHunks_cut (hs : List UpsHunk) (hruns : FullRuns hs) {data : UpsData} (hb : data.Bounded)
    (hlong : 12 ≤ data.patchLength) (hskip : ∀ h ∈ hs, h.skip < 2 ^ 32) {rest : List UInt8}
    (hrest : 2 ≤ rest.length) (hunread : data.unread ++ rest = hunkBytes hs) (left : ℕ) :
    upsHunks left data = none ∨ ∃ es bs, upsHunks left data = some ((data.xored es).read bs) ∧
      Misses es (expandAll hs) ∧ es.length < (expandAll hs).length := by
  induction hs generalizing data left with
  | nil =>
    have hnil : rest = [] := (List.append_eq_nil_iff.mp hunread).2
    rw [hnil] at hrest
    exact absurd hrest (by decide)
  | cons h hs ih =>
    have hfirst := hruns h List.mem_cons_self
    have hmoreRuns : FullRuns hs := fun h' hh' => hruns h' (List.mem_cons_of_mem h hh')
    cases left with
    | zero => exact Or.inl rfl
    | succ left =>
      by_cases hgo : 12 < data.unread.length
      · rw [upsHunks, if_pos ((loop_cond hb hlong).mpr hgo)]
        rw [hunkBytes_cons] at hunread
        rcases upsHunk_prefix hb (hskip h List.mem_cons_self) hunread with
          hnever | ⟨bs, hhunk, hmore⟩ | ⟨r, bs, hhunk, hend, hlen, hcut⟩
        · left
          rw [hnever]
          rfl
        · have hlong' : 12 ≤ ((data.xored h.expand).read bs).patchLength := by
            show 12 ≤ (data.xored h.expand).patchLength
            rw [(xored_patch h.expand data).2.1]
            exact hlong
          rw [hhunk, Option.bind_some]
          rcases ih hmoreRuns (UpsData.bounded_read (bounded_xored hb _) _) hlong'
            (fun h' hh' => hskip h' (List.mem_cons_of_mem h hh')) hmore left with
            hnever | ⟨es, cs, hhunks, hmiss, hshort⟩
          · exact Or.inl hnever
          · right
            refine ⟨h.expand ++ es, bs ++ cs, ?_, ?_, ?_⟩
            · rw [hhunks, xored_read, UpsData.xored_xored, UpsData.read_read]
            · rw [expandAll_cons]
              exact hmiss.append h.expand
            · rw [expandAll_cons, List.length_append, List.length_append]
              omega
        · rw [hhunk, Option.bind_some]
          obtain ⟨hmiss, hshort⟩ := misses_run hmoreRuns hlen hrest hcut
          cases left with
          | zero => exact Or.inl rfl
          | succ left =>
            right
            refine ⟨_, bs, ?_, hmiss, hshort⟩
            have hlong' : 12 ≤ ((data.xored
                (List.replicate h.skip 0 ++ (r ++ [0]))).read bs).patchLength := by
              show 12 ≤ (data.xored (List.replicate h.skip 0 ++ (r ++ [0]))).patchLength
              rw [(xored_patch _ data).2.1]
              exact hlong
            rw [upsHunks, if_neg]
            intro hgo'
            have hstop := (loop_cond (UpsData.bounded_read (bounded_xored hb _) _)
              hlong').mp hgo'
            rw [hend] at hstop
            exact absurd hstop (by decide)
      · right
        refine ⟨[], [], ?_, misses_hunk hfirst hs rfl, expandAll_pos h hs⟩
        rw [upsHunks, if_neg (fun hgo' => hgo ((loop_cond hb hlong).mp hgo'))]
        rfl

end RetroArch.Tasks
