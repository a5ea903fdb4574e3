/- What the reader makes of the encoding of a value, one lemma for each format. -/

import RetroArch.LibretroDb.Write

namespace RetroArch.LibretroDb

open Library.Bytes Streams

variable {σ : Type*} {callbacks : ReadCallbacks σ} {read : RFile → σ → ReadResult σ}
  {fd : RFile} {tail : List UInt8} {data : σ}

theorem readUint_toBE {width n : ℕ} (hn : n < 256 ^ width) (h : fd.rest = toBE width n ++ tail) :
    readUint width fd = some (n, fd.advance width) := by
  have hread := filestreamRead_append h
  rw [length_toBE] at hread
  rw [readUint, hread]
  simp only [length_toBE, ofBE_toBE hn, if_true]

theorem readBuff_toBE {width : ℕ} {buff : List UInt8} (hn : buff.length < 256 ^ width)
    (h : fd.rest = toBE width buff.length ++ (buff ++ tail)) :
    readBuff width fd = some (buff, fd.advance (width + buff.length)) := by
  have hrest := RFile.rest_advance_append h
  rw [length_toBE] at hrest
  rw [readBuff, readUint_toBE hn h, Option.map_some]
  simp only
  rw [filestreamRead_append hrest, RFile.advance_advance]

theorem filestreamRead_type {t : UInt8} (h : fd.rest = t :: tail) :
    filestreamRead 1 fd = ([t], fd.advance 1) ∧ (fd.advance 1).rest = tail := by
  have happend : fd.rest = [t] ++ tail := h
  exact ⟨filestreamRead_append happend, RFile.rest_advance_append happend⟩

theorem readValue_tagged {t : ℕ} (hlo : 0xc0 ≤ t) (hhi : t ≤ 0xdf)
    (h : fd.rest = UInt8.ofNat t :: tail) :
    readValue callbacks read fd data = readTagged callbacks read t (fd.advance 1) data := by
  have htype : (UInt8.ofNat t).toNat = t := by
    rw [UInt8.toNat_ofNat']
    omega
  rw [readValue, (filestreamRead_type h).1]
  simp only [List.headD_cons, htype]
  rw [if_neg (show ¬ t < 0x80 by omega), if_neg (show ¬ t < 0x90 by omega),
    if_neg (show ¬ t < 0xa0 by omega), if_neg (show ¬ t < 0xc0 by omega),
    if_neg (show ¬ 0xdf < t by omega)]

/-- What a call on an encoding does, whatever follows it: one callback and no other effect. -/
def ReadsAs (callbacks : ReadCallbacks σ) (bytes : List UInt8)
    (call : σ → Option (Int × σ)) : Prop :=
  ∀ (read : RFile → σ → ReadResult σ) (fd : RFile) (tail : List UInt8) (data : σ),
    fd.rest = bytes ++ tail →
      readValue callbacks read fd data = returned (fd.advance bytes.length) (call data)

theorem readsAs_nil : ReadsAs callbacks rmsgpackWriteNil.bytes callbacks.readNil := by
  intro read fd tail data h
  rw [readValue_tagged (t := 0xc0) (by decide) (by decide) h]
  rfl

theorem readsAs_false : ReadsAs callbacks [UInt8.ofNat mpfFalse] (callbacks.readBool false) := by
  intro read fd tail data h
  rw [readValue_tagged (t := 0xc2) (by decide) (by decide) h]
  rfl

theorem readsAs_true : ReadsAs callbacks [UInt8.ofNat mpfTrue] (callbacks.readBool true) := by
  intro read fd tail data h
  rw [readValue_tagged (t := 0xc3) (by decide) (by decide) h]
  rfl

theorem rest_tagged {t width n : ℕ} (h : fd.rest = (tagged t width n).bytes ++ tail) :
    fd.rest = UInt8.ofNat t :: (toBE width n ++ tail) ∧
      (fd.advance 1).rest = toBE width n ++ tail :=
  ⟨h, (filestreamRead_type h).2⟩

theorem readTagged_uint {w n : ℕ} (hw : w ≤ 3) (hn : n < 256 ^ 2 ^ w)
    (h : fd.rest = toBE (2 ^ w) n ++ tail) :
    readTagged callbacks read (0xcc + w) fd data =
      returned (fd.advance (2 ^ w)) (callbacks.readUint (UInt64.ofNat n) data) := by
  have hread : readUint (2 ^ (0xcc + w - 0xcc)) fd = some (n, fd.advance (2 ^ w)) := by
    rw [Nat.add_sub_cancel_left]
    exact readUint_toBE hn h
  rw [readTagged, if_neg (show ¬ 0xcc + w = 0xc0 by omega), if_neg (show ¬ 0xcc + w = 0xc2 by omega),
    if_neg (show ¬ 0xcc + w = 0xc3 by omega),
    if_neg (show ¬ (0xc4 ≤ 0xcc + w ∧ 0xcc + w ≤ 0xc6) by omega),
    if_pos (show 0xcc ≤ 0xcc + w ∧ 0xcc + w ≤ 0xcf by omega), hread]
  rfl

theorem readTagged_int {w n : ℕ} (hw : w ≤ 3) (hn : n < 256 ^ 2 ^ w)
    (h : fd.rest = toBE (2 ^ w) n ++ tail) :
    readTagged callbacks read (0xd0 + w) fd data = returned (fd.advance (2 ^ w))
      (callbacks.readInt (Int64.ofInt ((n : Int).bmod (256 ^ 2 ^ w))) data) := by
  have hread : readInt (2 ^ (0xd0 + w - 0xd0)) fd =
      some ((n : Int).bmod (256 ^ 2 ^ w), fd.advance (2 ^ w)) := by
    rw [Nat.add_sub_cancel_left, readInt, readUint_toBE hn h]
    rfl
  rw [readTagged, if_neg (show ¬ 0xd0 + w = 0xc0 by omega), if_neg (show ¬ 0xd0 + w = 0xc2 by omega),
    if_neg (show ¬ 0xd0 + w = 0xc3 by omega),
    if_neg (show ¬ (0xc4 ≤ 0xd0 + w ∧ 0xd0 + w ≤ 0xc6) by omega),
    if_neg (show ¬ (0xcc ≤ 0xd0 + w ∧ 0xd0 + w ≤ 0xcf) by omega),
    if_pos (show 0xd0 ≤ 0xd0 + w ∧ 0xd0 + w ≤ 0xd3 by omega), hread]
  rfl

theorem readTagged_bin {w : ℕ} {s : Buffer} (hw : w ≤ 2) (hn : s.buff.length < 256 ^ 2 ^ w)
    (h : fd.rest = toBE (2 ^ w) s.buff.length ++ (s.buff ++ tail)) :
    readTagged callbacks read (0xc4 + w) fd data =
      returned (fd.advance (2 ^ w + s.buff.length)) (callbacks.readBin s data) := by
  have hread : readBuff (2 ^ (0xc4 + w - 0xc4)) fd =
      some (s.buff, fd.advance (2 ^ w + s.buff.length)) := by
    rw [Nat.add_sub_cancel_left]
    exact readBuff_toBE hn h
  rw [readTagged, if_neg (show ¬ 0xc4 + w = 0xc0 by omega), if_neg (show ¬ 0xc4 + w = 0xc2 by omega),
    if_neg (show ¬ 0xc4 + w = 0xc3 by omega),
    if_pos (show 0xc4 ≤ 0xc4 + w ∧ 0xc4 + w ≤ 0xc6 by omega), hread, Option.bind_some]
  simp only [Buffer.ofBytes_buff]

theorem readTagged_str {w : ℕ} {s : Buffer} (hw : w ≤ 2) (hn : s.buff.length < 256 ^ 2 ^ w)
    (h : fd.rest = toBE (2 ^ w) s.buff.length ++ (s.buff ++ tail)) :
    readTagged callbacks read (0xd9 + w) fd data =
      returned (fd.advance (2 ^ w + s.buff.length)) (callbacks.readString s data) := by
  have hread : readBuff (2 ^ (0xd9 + w - 0xd9)) fd =
      some (s.buff, fd.advance (2 ^ w + s.buff.length)) := by
    rw [Nat.add_sub_cancel_left]
    exact readBuff_toBE hn h
  rw [readTagged, if_neg (show ¬ 0xd9 + w = 0xc0 by omega), if_neg (show ¬ 0xd9 + w = 0xc2 by omega),
    if_neg (show ¬ 0xd9 + w = 0xc3 by omega),
    if_neg (show ¬ (0xc4 ≤ 0xd9 + w ∧ 0xd9 + w ≤ 0xc6) by omega),
    if_neg (show ¬ (0xcc ≤ 0xd9 + w ∧ 0xd9 + w ≤ 0xcf) by omega),
    if_neg (show ¬ (0xd0 ≤ 0xd9 + w ∧ 0xd9 + w ≤ 0xd3) by omega),
    if_pos (show 0xd9 ≤ 0xd9 + w ∧ 0xd9 + w ≤ 0xdb by omega), hread, Option.bind_some]
  simp only [Buffer.ofBytes_buff]

theorem readTagged_array {w n : ℕ} (hw : w ≤ 1) (hn : n < 256 ^ (2 * 2 ^ w))
    (h : fd.rest = toBE (2 * 2 ^ w) n ++ tail) :
    readTagged callbacks read (0xdc + w) fd data =
      readArray callbacks read n (fd.advance (2 * 2 ^ w)) data := by
  have hread : readUint (2 * 2 ^ (0xdc + w - 0xdc)) fd = some (n, fd.advance (2 * 2 ^ w)) := by
    rw [Nat.add_sub_cancel_left]
    exact readUint_toBE hn h
  rw [readTagged, if_neg (show ¬ 0xdc + w = 0xc0 by omega), if_neg (show ¬ 0xdc + w = 0xc2 by omega),
    if_neg (show ¬ 0xdc + w = 0xc3 by omega),
    if_neg (show ¬ (0xc4 ≤ 0xdc + w ∧ 0xdc + w ≤ 0xc6) by omega),
    if_neg (show ¬ (0xcc ≤ 0xdc + w ∧ 0xdc + w ≤ 0xcf) by omega),
    if_neg (show ¬ (0xd0 ≤ 0xdc + w ∧ 0xdc + w ≤ 0xd3) by omega),
    if_neg (show ¬ (0xd9 ≤ 0xdc + w ∧ 0xdc + w ≤ 0xdb) by omega),
    if_pos (show 0xdc ≤ 0xdc + w ∧ 0xdc + w ≤ 0xdd by omega), hread]
  rfl

theorem readTagged_map {w n : ℕ} (hw : w ≤ 1) (hn : n < 256 ^ (2 * 2 ^ w))
    (h : fd.rest = toBE (2 * 2 ^ w) n ++ tail) :
    readTagged callbacks read (0xde + w) fd data =
      readMap callbacks read n (fd.advance (2 * 2 ^ w)) data := by
  have hread : readUint (2 * 2 ^ (0xde + w - 0xde)) fd = some (n, fd.advance (2 * 2 ^ w)) := by
    rw [Nat.add_sub_cancel_left]
    exact readUint_toBE hn h
  rw [readTagged, if_neg (show ¬ 0xde + w = 0xc0 by omega), if_neg (show ¬ 0xde + w = 0xc2 by omega),
    if_neg (show ¬ 0xde + w = 0xc3 by omega),
    if_neg (show ¬ (0xc4 ≤ 0xde + w ∧ 0xde + w ≤ 0xc6) by omega),
    if_neg (show ¬ (0xcc ≤ 0xde + w ∧ 0xde + w ≤ 0xcf) by omega),
    if_neg (show ¬ (0xd0 ≤ 0xde + w ∧ 0xde + w ≤ 0xd3) by omega),
    if_neg (show ¬ (0xd9 ≤ 0xde + w ∧ 0xde + w ≤ 0xdb) by omega),
    if_neg (show ¬ (0xdc ≤ 0xde + w ∧ 0xde + w ≤ 0xdd) by omega),
    if_pos (show 0xde ≤ 0xde + w ∧ 0xde + w ≤ 0xdf by omega), hread]
  rfl

theorem readsAs_uintOf {value : UInt64} {w : ℕ} (hw : w ≤ 3) (hv : value.toNat < 256 ^ 2 ^ w) :
    ReadsAs callbacks (tagged (0xcc + w) (2 ^ w) value.toNat).bytes
      (callbacks.readUint value) := by
  intro read fd tail data h
  obtain ⟨htype, hrest⟩ := rest_tagged h
  rw [readValue_tagged (by omega) (by omega) htype, readTagged_uint hw hv hrest,
    RFile.advance_advance, UInt64.ofNat_toNat, tagged, List.length_cons, length_toBE,
    Nat.add_comm 1]

theorem readsAs_uint (value : UInt64) :
    ReadsAs callbacks (rmsgpackWriteUint value).bytes (callbacks.readUint value) := by
  have hlt := value.toNat_lt
  unfold rmsgpackWriteUint
  simp only
  split_ifs with h8 h16 h32
  · exact readsAs_uintOf (w := 0) (by decide) (by omega)
  · exact readsAs_uintOf (w := 1) (by decide) (by omega)
  · exact readsAs_uintOf (w := 2) (by decide) (by omega)
  · exact readsAs_uintOf (w := 3) (by decide) (by omega)

theorem readsAs_intOf {value : Int64} {w : ℕ} (hw : w ≤ 3)
    (hv : value.toInt = value.toInt.bmod (256 ^ 2 ^ w)) :
    ReadsAs callbacks (tagged (0xd0 + w) (2 ^ w) (value.toInt % (256 ^ 2 ^ w : ℕ)).toNat).bytes
      (callbacks.readInt value) := by
  have hpos : (0 : Int) < (256 ^ 2 ^ w : ℕ) := Int.natCast_pos.mpr (Nat.pow_pos (by decide))
  have hnonneg := Int.emod_nonneg value.toInt hpos.ne'
  have hlt := Int.emod_lt_of_pos value.toInt hpos
  have hback : Int64.ofInt
      (((value.toInt % (256 ^ 2 ^ w : ℕ)).toNat : Int).bmod (256 ^ 2 ^ w)) = value := by
    rw [Int.toNat_of_nonneg hnonneg, Int.emod_bmod, ← hv, Int64.ofInt_toInt]
  intro read fd tail data h
  obtain ⟨htype, hrest⟩ := rest_tagged h
  rw [readValue_tagged (by omega) (by omega) htype, readTagged_int hw (by omega) hrest, hback,
    RFile.advance_advance, tagged, List.length_cons, length_toBE, Nat.add_comm 1]

theorem readsAs_fixint {value : Int64} (h0 : 0 ≤ value.toInt) (h1 : value.toInt < 128) :
    ReadsAs callbacks (tag (value.toInt % 2 ^ 8).toNat).bytes (callbacks.readInt value) := by
  intro read fd tail data h
  have htype : (UInt8.ofNat (value.toInt % 2 ^ 8).toNat).toNat = value.toInt.toNat := by
    rw [UInt8.toNat_ofNat']
    omega
  have hback : Int64.ofNat value.toInt.toNat = value := by
    rw [← Int64.ofInt_eq_ofNat, Int.toNat_of_nonneg h0, Int64.ofInt_toInt]
  rw [readValue, (filestreamRead_type h).1]
  simp only [List.headD_cons, htype, hback]
  rw [if_pos (show value.toInt.toNat < 0x80 by omega)]
  rfl

theorem readsAs_negfixint {value : Int64} (h0 : value.toInt < 0) (h1 : -32 < value.toInt) :
    ReadsAs callbacks (tag ((value.toInt % 2 ^ 8).toNat ||| 0xe0)).bytes
      (callbacks.readInt value) := by
  have hor : ∀ n < 32, (n + 224) ||| 0xe0 = n + 224 := by decide
  intro read fd tail data h
  have hbyte : ((value.toInt % 2 ^ 8).toNat ||| 0xe0) = (value.toInt + 256).toNat := by
    have hsplit : (value.toInt % 2 ^ 8).toNat = (value.toInt + 32).toNat + 224 := by omega
    rw [hsplit, hor _ (by omega)]
    omega
  have htype : (UInt8.ofNat ((value.toInt % 2 ^ 8).toNat ||| 0xe0)).toNat =
      (value.toInt + 256).toNat := by
    rw [hbyte, UInt8.toNat_ofNat']
    omega
  have hback : Int64.ofInt (((value.toInt + 256).toNat : Int) - 0xff - 1) = value := by
    rw [show ((value.toInt + 256).toNat : Int) - 0xff - 1 = value.toInt by omega,
      Int64.ofInt_toInt]
  rw [readValue, (filestreamRead_type h).1]
  simp only [List.headD_cons, htype, hback]
  rw [if_neg (show ¬ (value.toInt + 256).toNat < 0x80 by omega),
    if_neg (show ¬ (value.toInt + 256).toNat < 0x90 by omega),
    if_neg (show ¬ (value.toInt + 256).toNat < 0xa0 by omega),
    if_neg (show ¬ (value.toInt + 256).toNat < 0xc0 by omega),
    if_pos (show 0xdf < (value.toInt + 256).toNat by omega)]
  rfl

theorem readsAs_int (value : Int64) :
    ReadsAs callbacks (rmsgpackWriteInt value).bytes (callbacks.readInt value) := by
  have hlo := value.le_toInt
  have hhi := value.toInt_lt
  unfold rmsgpackWriteInt
  simp only
  split_ifs with hfix hneg h8 h16 h32
  · exact readsAs_fixint hfix.1 hfix.2
  · exact readsAs_negfixint hneg.1 hneg.2
  · exact readsAs_intOf (w := 0) (by decide) h8
  · exact readsAs_intOf (w := 1) (by decide) h16
  · exact readsAs_intOf (w := 2) (by decide) h32
  · exact readsAs_intOf (w := 3) (by decide) (Int.bmod_eq_of_le (by omega) (by omega)).symm

theorem rest_buffer {header : Wrote} {s : Buffer}
    (h : fd.rest = header.bytes ++ s.buff ++ tail) :
    fd.rest = header.bytes ++ (s.buff ++ tail) := by
  rw [h, List.append_assoc]

theorem readsAs_strOf {s : Buffer} {w : ℕ} (hw : w ≤ 2) (hlen : s.buff.length < 256 ^ 2 ^ w) :
    ReadsAs callbacks ((tagged (0xd9 + w) (2 ^ w) s.buff.length).bytes ++ s.buff)
      (callbacks.readString s) := by
  intro read fd tail data h
  obtain ⟨htype, hrest⟩ := rest_tagged (rest_buffer h)
  rw [readValue_tagged (by omega) (by omega) htype, readTagged_str hw hlen hrest,
    RFile.advance_advance, tagged, List.length_append, List.length_cons, length_toBE,
    Nat.add_comm (2 ^ w) 1, Nat.add_assoc]

theorem readsAs_fixstr {s : Buffer} (hlen : s.buff.length < 32) :
    ReadsAs callbacks ((tag (s.buff.length ||| mpfFixstr)).bytes ++ s.buff)
      (callbacks.readString s) := by
  have hor : ∀ n < 32, n ||| 0xa0 = n + 0xa0 := by decide
  intro read fd tail data h
  obtain ⟨htype, hbuff⟩ := filestreamRead_type (rest_buffer h)
  have hrest : (fd.advance 1).rest = s.buff ++ tail := hbuff
  have hbyte : (UInt8.ofNat (s.buff.length ||| 0xa0)).toNat = s.buff.length + 0xa0 := by
    rw [hor _ hlen, UInt8.toNat_ofNat']
    omega
  rw [readValue, htype]
  simp only [List.headD_cons, hbyte]
  rw [if_neg (show ¬ s.buff.length + 0xa0 < 0x80 by omega),
    if_neg (show ¬ s.buff.length + 0xa0 < 0x90 by omega),
    if_neg (show ¬ s.buff.length + 0xa0 < 0xa0 by omega),
    if_pos (show s.buff.length + 0xa0 < 0xc0 by omega), Nat.add_sub_cancel,
    filestreamRead_append hrest]
  simp only [Buffer.ofBytes_buff, RFile.advance_advance, List.length_append]
  rfl

theorem readsAs_string (s : Buffer) :
    ReadsAs callbacks (rmsgpackWriteString s).bytes (callbacks.readString s) := by
  have hlt := s.len_lt
  unfold rmsgpackWriteString stringHeader
  simp only
  split_ifs with hfix h8 h16
  · exact readsAs_fixstr hfix
  · exact readsAs_strOf (w := 0) (by decide) (by omega)
  · exact readsAs_strOf (w := 1) (by decide) (by omega)
  · exact readsAs_strOf (w := 2) (by decide) (by omega)

theorem readsAs_binOf {s : Buffer} {w : ℕ} (hw : w ≤ 2) (hlen : s.buff.length < 256 ^ 2 ^ w) :
    ReadsAs callbacks ((tagged (0xc4 + w) (2 ^ w) s.buff.length).bytes ++ s.buff)
      (callbacks.readBin s) := by
  intro read fd tail data h
  obtain ⟨htype, hrest⟩ := rest_tagged (rest_buffer h)
  rw [readValue_tagged (by omega) (by omega) htype, readTagged_bin hw hlen hrest,
    RFile.advance_advance, tagged, List.length_append, List.length_cons, length_toBE,
    Nat.add_comm (2 ^ w) 1, Nat.add_assoc]

theorem readsAs_bin (s : Buffer) :
    ReadsAs callbacks (rmsgpackWriteBin s).bytes (callbacks.readBin s) := by
  have hlt := s.len_lt
  unfold rmsgpackWriteBin binHeader
  simp only
  split_ifs with h8 h16
  · exact readsAs_binOf (w := 0) (by decide) (by omega)
  · exact readsAs_binOf (w := 1) (by decide) (by omega)
  · exact readsAs_binOf (w := 2) (by decide) (by omega)

theorem readValue_arrayHeader {n : ℕ} (hn : n < 2 ^ 32)
    (h : fd.rest = (rmsgpackWriteArrayHeader n).bytes ++ tail) :
    readValue callbacks read fd data = readArray callbacks read n
      (fd.advance (rmsgpackWriteArrayHeader n).bytes.length) data := by
  have hor : ∀ n < 16, n ||| 0x90 = n + 0x90 := by decide
  unfold rmsgpackWriteArrayHeader at h ⊢
  split_ifs at h ⊢ with hfix h16
  · have hbyte : (UInt8.ofNat (n ||| 0x90)).toNat = n + 0x90 := by
      rw [hor _ hfix, UInt8.toNat_ofNat']
      omega
    rw [readValue, (filestreamRead_type h).1]
    simp only [List.headD_cons, hbyte]
    rw [if_neg (show ¬ n + 0x90 < 0x80 by omega), if_neg (show ¬ n + 0x90 < 0x90 by omega),
      if_pos (show n + 0x90 < 0xa0 by omega), Nat.add_sub_cancel]
    rfl
  · obtain ⟨htype, hrest⟩ := rest_tagged h
    rw [readValue_tagged (by decide) (by decide) htype,
      readTagged_array (w := 0) (by decide) (by omega) hrest, RFile.advance_advance]
    rfl
  · obtain ⟨htype, hrest⟩ := rest_tagged h
    rw [readValue_tagged (by decide) (by decide) htype,
      readTagged_array (w := 1) (by decide) (by omega) hrest, RFile.advance_advance]
    rfl

theorem readValue_mapHeader {n : ℕ} (hn : n < 2 ^ 32)
    (h : fd.rest = (rmsgpackWriteMapHeader n).bytes ++ tail) :
    readValue callbacks read fd data = readMap callbacks read n
      (fd.advance (rmsgpackWriteMapHeader n).bytes.length) data := by
  have hor : ∀ n < 16, n ||| 0x80 = n + 0x80 := by decide
  unfold rmsgpackWriteMapHeader at h ⊢
  split_ifs at h ⊢ with hfix h16
  · have hbyte : (UInt8.ofNat (n ||| 0x80)).toNat = n + 0x80 := by
      rw [hor _ hfix, UInt8.toNat_ofNat']
      omega
    rw [readValue, (filestreamRead_type h).1]
    simp only [List.headD_cons, hbyte]
    rw [if_neg (show ¬ n + 0x80 < 0x80 by omega), if_pos (show n + 0x80 < 0x90 by omega),
      Nat.add_sub_cancel]
    rfl
  · exact absurd h16 (Nat.not_lt.mpr (Nat.mod_le n _))
  · obtain ⟨htype, hrest⟩ := rest_tagged h
    rw [readValue_tagged (by decide) (by decide) htype,
      readTagged_map (w := 1) (by decide) (by omega) hrest, RFile.advance_advance]
    rfl

end RetroArch.LibretroDb
