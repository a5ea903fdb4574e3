/- The two sides of an applier's state: bytes read from the patch, bytes sent to the target. -/

import RetroArch.Library.Varint
import RetroArch.Tasks.Ups

namespace RetroArch.Tasks

open Encodings Library Library.Bytes

namespace UpsData

/-- The part of the patch that reads can still reach. -/
def unread (data : UpsData) : List UInt8 :=
  (data.patchData.take data.patchLength).drop data.patchOffset

/-- The state after these bytes of the patch. -/
def read (data : UpsData) (bs : List UInt8) : UpsData :=
  { data with
    patchOffset := data.patchOffset + bs.length
    patchChecksum := bs.foldl crc32Step data.patchChecksum }

/-- The state after these bytes went to the target, each over a byte of the source. -/
def xored (data : UpsData) (es : List UInt8) : UpsData :=
  es.foldl (fun data e => upsXor e data) data

/-- The patch is at least as long as its length field. -/
def Bounded (data : UpsData) : Prop := data.patchLength ≤ data.patchData.length

@[simp] theorem read_nil (data : UpsData) : data.read [] = data := rfl

@[simp] theorem read_read (data : UpsData) (bs cs : List UInt8) :
    (data.read bs).read cs = data.read (bs ++ cs) := by
  simp only [read, List.length_append, List.foldl_append, Nat.add_assoc]

@[simp] theorem xored_nil (data : UpsData) : data.xored [] = data := rfl

@[simp] theorem xored_xored (data : UpsData) (es fs : List UInt8) :
    (data.xored es).xored fs = data.xored (es ++ fs) := by
  rw [xored, xored, xored, List.foldl_append]

theorem xored_cons (data : UpsData) (e : UInt8) (es : List UInt8) :
    data.xored (e :: es) = (upsXor e data).xored es := rfl

theorem unread_read {data : UpsData} {bs tail : List UInt8} (h : data.unread = bs ++ tail) :
    (data.read bs).unread = tail := by
  rw [unread] at h
  show (data.patchData.take data.patchLength).drop (data.patchOffset + bs.length) = tail
  rw [← List.drop_drop, h, List.drop_left]

theorem length_unread {data : UpsData} (hb : data.Bounded) :
    data.unread.length = data.patchLength - data.patchOffset := by
  rw [unread, List.length_drop, List.length_take, Nat.min_eq_left hb]

theorem read_patchChecksum (data : UpsData) (bs : List UInt8) :
    (data.read bs).patchChecksum = bs.foldl crc32Step data.patchChecksum := rfl

theorem bounded_read {data : UpsData} (hb : data.Bounded) (bs : List UInt8) :
    (data.read bs).Bounded := hb

end UpsData

theorem upsXor_read (e : UInt8) (data : UpsData) (bs : List UInt8) :
    upsXor e (data.read bs) = (upsXor e data).read bs := by
  unfold upsXor upsSourceRead upsTargetWrite UpsData.read
  simp only
  split_ifs <;> rfl

theorem upsXor_patch (e : UInt8) (data : UpsData) :
    (upsXor e data).patchData = data.patchData ∧ (upsXor e data).patchLength = data.patchLength ∧
      (upsXor e data).patchOffset = data.patchOffset := by
  unfold upsXor upsSourceRead upsTargetWrite
  simp only
  split_ifs <;> exact ⟨rfl, rfl, rfl⟩

theorem xored_read (es : List UInt8) (data : UpsData) (bs : List UInt8) :
    (data.read bs).xored es = (data.xored es).read bs := by
  induction es generalizing data with
  | nil => rfl
  | cons e es ih => rw [UpsData.xored_cons, upsXor_read, ih, UpsData.xored_cons]

theorem xored_patch (es : List UInt8) (data : UpsData) :
    (data.xored es).patchData = data.patchData ∧ (data.xored es).patchLength = data.patchLength ∧
      (data.xored es).patchOffset = data.patchOffset := by
  induction es generalizing data with
  | nil => exact ⟨rfl, rfl, rfl⟩
  | cons e es ih =>
    obtain ⟨hdata, hlength, hoffset⟩ := ih (upsXor e data)
    obtain ⟨hdata', hlength', hoffset'⟩ := upsXor_patch e data
    exact ⟨hdata.trans hdata', hlength.trans hlength', hoffset.trans hoffset'⟩

theorem xored_patchChecksum (es : List UInt8) (data : UpsData) :
    (data.xored es).patchChecksum = data.patchChecksum := by
  induction es generalizing data with
  | nil => rfl
  | cons e es ih =>
    rw [UpsData.xored_cons, ih]
    unfold upsXor upsSourceRead upsTargetWrite
    simp only
    split_ifs <;> rfl

@[simp] theorem unread_xored (es : List UInt8) (data : UpsData) :
    (data.xored es).unread = data.unread := by
  obtain ⟨hdata, hlength, hoffset⟩ := xored_patch es data
  rw [UpsData.unread, hdata, hlength, hoffset, UpsData.unread]

theorem bounded_xored {data : UpsData} (hb : data.Bounded) (es : List UInt8) :
    (data.xored es).Bounded := by
  obtain ⟨hdata, hlength, -⟩ := xored_patch es data
  rw [UpsData.Bounded, hdata, hlength]
  exact hb

theorem upsCopy_eq (length : ℕ) (data : UpsData) :
    upsCopy length data = data.xored (List.replicate length 0) := by
  induction length generalizing data with
  | zero => rfl
  | succ length ih =>
    rw [List.replicate_succ, UpsData.xored_cons, ← ih, upsCopy, Function.iterate_succ_apply]
    rfl

theorem upsPatchRead_unread {data : UpsData} {b : UInt8} {tail : List UInt8}
    (h : data.unread = b :: tail) : upsPatchRead data = (b, data.read [b]) := by
  have hlt : data.patchOffset < (data.patchData.take data.patchLength).length := by
    have hlen := congrArg List.length h
    rw [UpsData.unread, List.length_drop, List.length_cons] at hlen
    omega
  have hget : (data.patchData.take data.patchLength)[data.patchOffset] = b := by
    rw [UpsData.unread, List.drop_eq_getElem_cons hlt] at h
    exact (List.cons.inj h).1
  rw [List.getElem_take] at hget
  rw [List.length_take] at hlt
  have hbyte : data.patchData.getD data.patchOffset 0 = b := by
    rw [List.getD_eq_getElem?_getD, List.getElem?_eq_getElem (by omega), hget]
    rfl
  rw [upsPatchRead, if_pos (by omega), hbyte]
  simp only [encodingCrc32_byte]
  rfl

theorem upsPatchRead_step {data : UpsData} {b : UInt8} {tail : List UInt8}
    (h : data.unread = b :: tail) :
    upsPatchRead data = (b, data.read [b]) ∧ (data.read [b]).unread = tail := by
  have happend : data.unread = [b] ++ tail := h
  exact ⟨upsPatchRead_unread h, UpsData.unread_read happend⟩

theorem upsPatchRead_end {data : UpsData} (hb : data.Bounded) (h : data.unread = []) :
    upsPatchRead data = (0, data) := by
  have hlen := UpsData.length_unread hb
  rw [h, List.length_nil] at hlen
  rw [upsPatchRead, if_neg (by omega)]

section Numbers

open Varint (digit_bits shiftLeft_seven toUInt64_digit decode_digit)

theorem upsDecodeLoop_some {left : ℕ} {data : UpsData} (hleft : data.unread.length ≤ left)
    {v : ℕ} {rest : List UInt8} (h : Varint.decode data.unread = some (v, rest))
    (offset shift : UInt64) :
    ∃ bs, data.unread = bs ++ rest ∧
      upsDecodeLoop left offset shift data =
        some (offset + shift * UInt64.ofNat v, data.read bs) := by
  induction left generalizing data v offset shift with
  | zero =>
    rw [List.eq_nil_of_length_eq_zero (Nat.le_zero.mp hleft)] at h
    exact absurd h (by simp [Varint.decode])
  | succ left ih =>
    have hpos : 0 < data.unread.length := (Nat.zero_le _).trans_lt (Varint.decode_length h)
    obtain ⟨x, xs, hunread⟩ := List.exists_cons_of_length_pos hpos
    have hrest : (data.read [x]).unread = xs := UpsData.unread_read hunread
    have hlt := x.toNat_lt
    rw [hunread, Varint.decode] at h
    rw [upsDecodeLoop, upsPatchRead_unread hunread]
    simp only [toUInt64_digit]
    by_cases hlast : 128 ≤ x.toNat
    · rw [if_pos hlast] at h
      obtain ⟨rfl, rfl⟩ := Prod.mk.inj (Option.some.inj h)
      refine ⟨[x], hunread, ?_⟩
      have hdigit : x.toNat % 128 = x.toNat - 128 := by omega
      rw [if_pos ((digit_bits x).1.mpr hlast), hdigit, UInt64.mul_comm]
    · rw [if_neg hlast] at h
      obtain ⟨⟨v', rest'⟩, hdecode, hv⟩ := Option.map_eq_some_iff.mp h
      obtain ⟨rfl, rfl⟩ := Prod.mk.inj hv
      rw [← hrest] at hdecode
      have hlen : (data.read [x]).unread.length ≤ left := by
        rw [hrest]
        rw [hunread, List.length_cons] at hleft
        omega
      obtain ⟨bs, hbs, hloop⟩ := ih hlen hdecode
        (offset + UInt64.ofNat (x.toNat % 128) * shift + shift <<< 7) (shift <<< 7)
      refine ⟨x :: bs, ?_, ?_⟩
      · rw [hunread, ← hrest, hbs]
        rfl
      · have hdigit : x.toNat % 128 = x.toNat := by omega
        rw [if_neg (fun hx => hlast ((digit_bits x).1.mp hx)), hloop, shiftLeft_seven,
          decode_digit, hdigit, UpsData.read_read]
        rfl

theorem upsDecodeLoop_none (left : ℕ) {data : UpsData} (hb : data.Bounded)
    (h : Varint.decode data.unread = none) (offset shift : UInt64) :
    upsDecodeLoop left offset shift data = none := by
  induction left generalizing data offset shift with
  | zero => rfl
  | succ left ih =>
    cases hunread : data.unread with
    | nil =>
      rw [upsDecodeLoop, upsPatchRead_end hb hunread]
      exact ih hb h _ _
    | cons x xs =>
      have hrest : (data.read [x]).unread = xs := UpsData.unread_read hunread
      rw [hunread, Varint.decode] at h
      rw [upsDecodeLoop, upsPatchRead_unread hunread]
      by_cases hlast : 128 ≤ x.toNat
      · rw [if_pos hlast] at h
        exact absurd h (Option.some_ne_none _)
      · rw [if_neg hlast, Option.map_eq_none_iff, ← hrest] at h
        simp only
        rw [if_neg (fun hx => hlast ((digit_bits x).1.mp hx))]
        exact ih (UpsData.bounded_read hb [x]) h _ _

theorem upsDecode_some {data : UpsData} (hb : data.Bounded) {v : ℕ} {rest : List UInt8}
    (h : Varint.decode data.unread = some (v, rest)) :
    ∃ bs, data.unread = bs ++ rest ∧ upsDecode data = some (UInt64.ofNat v, data.read bs) := by
  obtain ⟨bs, hbs, hloop⟩ := upsDecodeLoop_some (UpsData.length_unread hb).le h 0 1
  refine ⟨bs, hbs, ?_⟩
  rw [upsDecode, hloop, UInt64.zero_add, UInt64.one_mul]

theorem upsDecode_none {data : UpsData} (hb : data.Bounded) (h : Varint.decode data.unread = none) :
    upsDecode data = none := upsDecodeLoop_none _ hb h 0 1

theorem upsDecode_encode {data : UpsData} (hb : data.Bounded) {v : ℕ} {rest : List UInt8}
    (h : data.unread = Varint.encode v ++ rest) :
    upsDecode data = some (UInt64.ofNat v, data.read (Varint.encode v)) := by
  obtain ⟨bs, hbs, hdecode⟩ := upsDecode_some hb (h ▸ Varint.decode_encode v rest)
  have : bs = Varint.encode v := List.append_cancel_right (hbs.symm.trans h)
  rw [hdecode, this]

end Numbers

theorem length_four {bs : List UInt8} (h : bs.length = 4) : ∃ a b c d, bs = [a, b, c, d] := by
  match bs with
  | [a, b, c, d] => exact ⟨a, b, c, d, rfl⟩

/-- A checksum as it stands in a patch. -/
def crcBytes (crc : UInt32) : List UInt8 := toLE 4 crc.toNat

theorem upsReadChecksum_crcBytes {data : UpsData} {v : UInt32} {tail : List UInt8}
    (h : data.unread = crcBytes v ++ tail) :
    upsReadChecksum data = (v, data.read (crcBytes v)) := by
  rw [crcBytes] at h ⊢
  have hv : UInt32.ofNat (ofLE (toLE 4 v.toNat)) = v := by
    rw [ofLE_toLE v.toNat_lt, UInt32.ofNat_toNat]
  obtain ⟨a, b, c, d, hbs⟩ := length_four (length_toLE 4 v.toNat)
  rw [hbs] at h hv ⊢
  obtain ⟨ra, ua⟩ := upsPatchRead_step h
  obtain ⟨rb, ub⟩ := upsPatchRead_step ua
  obtain ⟨rc, uc⟩ := upsPatchRead_step ub
  obtain ⟨rd, -⟩ := upsPatchRead_step uc
  rw [upsReadChecksum, ra]
  simp only [rb, rc, rd, hv]
  rw [UpsData.read_read, UpsData.read_read, UpsData.read_read]
  rfl

end RetroArch.Tasks
