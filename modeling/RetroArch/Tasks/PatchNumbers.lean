/- The numbers of both patch formats: which bytes are read as which number. -/

import Mathlib.Data.UInt
import RetroArch.Tasks.BpsRounds
import RetroArch.Tasks.UpsReading

namespace RetroArch.Tasks

open Library

/-- The bytes are read as the number, to the last of them, whatever comes before and after. -/
def BpsReads (code : List UInt8) (n : UInt64) : Prop :=
  ∀ bps rest, bps.modifyData.drop bps.modifyOffset = code ++ rest →
    ∃ bps', bpsDecode bps = .ok (n, bps') ∧ bps'.modifyData.drop bps'.modifyOffset = rest

def UpsReads (code : List UInt8) (n : UInt64) : Prop :=
  ∀ (data : UpsData) rest, data.Bounded → data.unread = code ++ rest →
    ∃ data', upsDecode data = some (n, data') ∧ data'.unread = rest

def Terminated (code : List UInt8) : Prop :=
  ∃ front last, code = front ++ [last] ∧ last &&& 0x80 ≠ 0

/-- One code of at most nine bytes; with more of them `shift` leaves its 64 bits. -/
structure PatchNumbers : Prop where
  bps : ∀ n : UInt64, n < 2 ^ 56 →
    ∃! code : List UInt8, code.length ≤ 9 ∧ Terminated code ∧ BpsReads code n
  ups : ∀ n : UInt64, n < 2 ^ 56 →
    ∃! code : List UInt8, code.length ≤ 9 ∧ Terminated code ∧ UpsReads code n
  same : ∀ code n, BpsReads code n ↔ UpsReads code n

section Codes

variable {code rest : List UInt8} {n : UInt64} {v : ℕ}

theorem bpsReads_iff : BpsReads code n ↔ ∃ v, Varint.decode code = some (v, []) ∧ n = .ofNat v := by
  constructor
  · intro h
    obtain ⟨bps', hdecode, hrest⟩ := h ⟨code, [], [], 0, 0, 0, 0, 0, 0⟩ [] (List.append_nil code).symm
    have hat : BpsAt 0 0 code ⟨0, 0, 0⟩ ⟨code, [], [], 0, 0, 0, 0, 0, 0⟩ :=
      ⟨rfl, rfl, rfl, rfl, rfl, rfl⟩
    cases hv : Varint.decode code with
    | none =>
      rw [bpsDecode, bpsDecodeLoop_none hat.length hv hat] at hdecode
      exact absurd hdecode error_ne_ok
    | some read =>
      obtain ⟨v, rest⟩ := read
      obtain ⟨bps'', hloop, hat'⟩ := bpsDecodeLoop_some hat.length hv hat 0 1
      rw [bpsDecode, hloop] at hdecode
      obtain ⟨rfl, rfl⟩ := Prod.mk.inj (Except.ok.inj hdecode)
      obtain rfl : rest = [] := hat'.unread.symm.trans hrest
      exact ⟨v, rfl, by rw [UInt64.zero_add, UInt64.one_mul]⟩
  · rintro ⟨v, hv, rfl⟩ bps rest hunread
    have hat : BpsAt bps.sourceData.length bps.targetData.length (code ++ rest)
        ⟨bps.outputOffset, bps.sourceOffset, bps.targetOffset⟩ bps := ⟨hunread, rfl, rfl, rfl, rfl, rfl⟩
    obtain ⟨bps', hloop, hat'⟩ :=
      bpsDecodeLoop_some hat.length (Varint.decode_append hv rest) hat 0 1
    refine ⟨bps', ?_, hat'.unread⟩
    rw [bpsDecode, hloop, UInt64.zero_add, UInt64.one_mul]

theorem upsReads_iff : UpsReads code n ↔ ∃ v, Varint.decode code = some (v, []) ∧ n = .ofNat v := by
  constructor
  · intro h
    have hb : UpsData.Bounded ⟨code, [], [], code.length, 0, 0, 0, 0, 0, 0, 0, 0⟩ := le_rfl
    have hunread : UpsData.unread ⟨code, [], [], code.length, 0, 0, 0, 0, 0, 0, 0, 0⟩ = code :=
      List.take_length
    obtain ⟨data', hdecode, hrest⟩ := h _ [] hb (hunread.trans (List.append_nil code).symm)
    have hcode := congrArg Varint.decode hunread
    cases hv : Varint.decode code with
    | none =>
      rw [upsDecode_none hb (hcode.trans hv)] at hdecode
      exact absurd hdecode (Option.some_ne_none _).symm
    | some read =>
      obtain ⟨v, rest⟩ := read
      obtain ⟨bs, hbs, hread⟩ := upsDecode_some hb (hcode.trans hv)
      rw [hread] at hdecode
      obtain ⟨rfl, rfl⟩ := Prod.mk.inj (Option.some.inj hdecode)
      obtain rfl : rest = [] := (UpsData.unread_read hbs).symm.trans hrest
      exact ⟨v, rfl, rfl⟩
  · rintro ⟨v, hv, rfl⟩ data rest hb hunread
    obtain ⟨bs, hbs, hread⟩ := upsDecode_some hb (hunread ▸ Varint.decode_append hv rest)
    exact ⟨data.read bs, hread, UpsData.unread_read hbs⟩

theorem encode_terminated (v : ℕ) : Terminated (Varint.encode v) := by
  obtain ⟨front, last, hcode, hlast⟩ := Varint.encodeWith_last v v
  exact ⟨front, last, hcode, (Varint.digit_bits last).1.mpr hlast⟩

theorem eq_encode (hlength : code.length ≤ 9) (hv : Varint.decode code = some (v, []))
    (hn : n = .ofNat v) : code = Varint.encode n.toNat := by
  have hle := Varint.decode_le hv
  have hpow : 128 ^ code.length ≤ 128 ^ 9 := Nat.pow_le_pow_right (by decide) hlength
  have hsmall : v < 2 ^ 64 := by omega
  have hcode := Varint.eq_encode_of_decode hv
  rw [hn, UInt64.toNat_ofNat', Nat.mod_eq_of_lt hsmall]
  rwa [List.append_nil] at hcode

theorem decode_encode_nil (v : ℕ) : Varint.decode (Varint.encode v) = some (v, []) := by
  have h := Varint.decode_encode v []
  rwa [List.append_nil] at h

theorem existsUnique_code (hn : n < 2 ^ 56) {Reads : List UInt8 → UInt64 → Prop}
    (hreads : ∀ code, Reads code n ↔ ∃ v, Varint.decode code = some (v, []) ∧ n = .ofNat v) :
    ∃! code : List UInt8, code.length ≤ 9 ∧ Terminated code ∧ Reads code n := by
  have hlt : n.toNat < 128 ^ (7 + 1) := UInt64.lt_iff_toNat_lt.mp hn
  refine ⟨Varint.encode n.toNat, ⟨?_, encode_terminated _, ?_⟩, ?_⟩
  · exact (Varint.length_encode_le hlt).trans (by decide)
  · exact (hreads _).mpr ⟨n.toNat, decode_encode_nil _, UInt64.ofNat_toNat.symm⟩
  · rintro code ⟨hlength, -, hcode⟩
    obtain ⟨v, hv, hnv⟩ := (hreads code).mp hcode
    exact eq_encode hlength hv hnv

theorem patchNumbers : PatchNumbers where
  bps := fun _ hn => existsUnique_code hn fun _ => bpsReads_iff
  ups := fun _ hn => existsUnique_code hn fun _ => upsReads_iff
  same := fun _ _ => bpsReads_iff.trans upsReads_iff.symm

/-- Zero is read from one byte, and from the ten bytes of two to the power of 64. -/
theorem zero_read_twice : ¬ ∀ n : UInt64, n < 2 ^ 56 →
    ∃! code : List UInt8, Terminated code ∧ BpsReads code n := by
  intro h
  obtain ⟨code, -, hunique⟩ := h 0 (by decide)
  have hshort := hunique [0x80] ⟨⟨[], 0x80, rfl, by decide⟩, bpsReads_iff.mpr ⟨0, rfl, rfl⟩⟩
  have hlong := hunique (Varint.encode (2 ^ 64))
    ⟨encode_terminated _, bpsReads_iff.mpr ⟨2 ^ 64, decode_encode_nil _, rfl⟩⟩
  have hboth := congrArg Varint.decode (hshort.trans hlong.symm)
  rw [decode_encode_nil] at hboth
  exact absurd hboth (by decide)

end Codes

end RetroArch.Tasks
