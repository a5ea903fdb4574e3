/- What a patch does to a target, whatever was in it, and the patches for which that is defined. -/

import Mathlib.Data.List.GetD
import RetroArch.Tasks.Ips

namespace RetroArch.Tasks.Ips

section Items

variable (patch : List UInt8)

/-- The bytes from an offset on, which is a `uint32_t`. -/
def bytesAt (offset length : ℕ) : List UInt8 :=
  (List.range length).map fun i => patch.getD ((offset + i) % 2 ^ 32) 0

def numberAt (offset count : ℕ) : ℕ :=
  (bytesAt patch offset count).foldl (fun n b => n * 256 + b.toNat) 0

structure Record where
  address : ℕ
  bytes : List UInt8

def Record.last (r : Record) : ℕ := r.address + r.bytes.length

/-- What stands at an offset: no record, an end with the size it may give, a copy that is longer
than the patch, or a record with what it is followed by. -/
inductive Item
  | invalid
  | finish (size : Option ℕ)
  | overlong
  | record (r : Record) (offset : ℕ)

/-- A record behind its address. -/
def recordAt (address offset : ℕ) : Item :=
  let length := numberAt patch offset 2
  let start := (offset + 2) % 2 ^ 32
  if patch.length - 2 < offset then .invalid
  else if length ≠ 0 then
    if patch.length < length then .overlong
    else if patch.length - length < start then .invalid
    else .record ⟨address, bytesAt patch start length⟩ ((start + length) % 2 ^ 32)
  else if patch.length - 3 < start then .invalid
  else
    let length := numberAt patch start 2
    let start := (start + 2) % 2 ^ 32
    if length = 0 then .invalid
    else .record ⟨address, List.replicate length (patch.getD start 0)⟩ ((start + 1) % 2 ^ 32)

def itemAt (offset : ℕ) : Item :=
  let address := numberAt patch offset 3
  let start := (offset + 3) % 2 ^ 32
  if patch.length - 3 < offset then .invalid
  else if address = ipsEof ∧ start = patch.length then .finish none
  else if address = ipsEof ∧ start = patch.length - 3 then .finish (some (numberAt patch start 3))
  else recordAt patch address start

/-- The records up to an offset. -/
inductive RecordsTo : List Record → ℕ → Prop
  | start : RecordsTo [] 5
  | next {rs : List Record} {r : Record} {offset offset' : ℕ} (before : RecordsTo rs offset)
      (item : itemAt patch offset = .record r offset') : RecordsTo (rs ++ [r]) offset'

end Items

/-- The target with a record in it. -/
def Record.put (r : Record) (target : ℕ → UInt8) : ℕ → UInt8 := fun i =>
  if r.address ≤ i ∧ i < r.last then r.bytes.getD (i - r.address) 0 else target i

/-- The state behind some records. -/
def behind (source : List UInt8) (rs : List Record) (offset : ℕ) (target : ℕ → UInt8) : IpsData :=
  ⟨offset, rs.foldl (fun target r => r.put target) (ipsStart source target).target,
    rs.foldl (fun size r => max size r.last) source.length⟩

/-- A place with a byte of the source or of a record. -/
def Covered (source : List UInt8) (rs : List Record) (i : ℕ) : Prop :=
  i < source.length ∨ ∃ r ∈ rs, r.address ≤ i ∧ i < r.last

/-- Each copy that is come to is no longer than the patch, each record is within the target, and
at the end every place up to the size has got its byte. -/
def IpsSound (patch source : List UInt8) (capacity : ℕ) : Prop :=
  (patch.length < 8 ∨ patch.take 5 ≠ ipsMagic) ∨
    ∀ rs offset, RecordsTo patch rs offset →
      itemAt patch offset ≠ .overlong ∧ (∀ r ∈ rs, r.last ≤ capacity) ∧
        ∀ size, itemAt patch offset = .finish size →
          ∀ i < size.getD (behind source rs offset fun _ => 0).targetlength, Covered source rs i

/-- No access is outside, and the output of a success is the same whatever was in the target. -/
def WellDefined (patch source : List UInt8) (capacity : ℕ) : Prop :=
  (∀ target rounds, ∃ ended, ipsApplyPatch patch capacity rounds source target = .ok ended) ∧
    ∀ target target' rounds data,
      ipsApplyPatch patch capacity rounds source target = .ok (some (.success, data)) →
        ∃ data', ipsApplyPatch patch capacity rounds source target' = .ok (some (.success, data')) ∧
          data'.targetlength = data.targetlength ∧
          ∀ i < data.targetlength, data'.target i = data.target i

section Reads

variable {patch : List UInt8} {capacity : ℕ}

theorem bytesAt_succ (offset length : ℕ) :
    bytesAt patch offset (length + 1) =
      patch.getD (offset % 2 ^ 32) 0 :: bytesAt patch ((offset + 1) % 2 ^ 32) length := by
  rw [bytesAt, List.range_succ_eq_map, List.map_cons, List.map_map, bytesAt]
  congr 1
  apply List.map_congr_left
  intro i _
  change patch.getD ((offset + (i + 1)) % 2 ^ 32) 0 =
    patch.getD (((offset + 1) % 2 ^ 32 + i) % 2 ^ 32) 0
  congr 1
  omega

@[simp] theorem length_bytesAt (offset length : ℕ) :
    (bytesAt patch offset length).length = length := by
  rw [bytesAt, List.length_map, List.length_range]

theorem ipsRead_lt {offset : ℕ} (h : offset < patch.length) :
    ipsRead patch offset = .ok (patch.getD offset 0, (offset + 1) % 2 ^ 32) := by
  rw [ipsRead, List.getD_eq_getElem?_getD, List.getElem?_eq_getElem h]
  rfl

theorem ok_bind {α β : Type} (a : α) (f : α → Except IpsFault β) :
    ((Except.ok a : Except IpsFault α) >>= f) = f a := rfl

theorem error_bind {α β : Type} (e : IpsFault) (f : α → Except IpsFault β) :
    ((Except.error e : Except IpsFault α) >>= f) = .error e := rfl

theorem ipsNumber_ok {count offset : ℕ} (acc : ℕ) (hoffset : offset < 2 ^ 32)
    (h : offset + count ≤ patch.length) :
    ipsNumber patch count acc offset =
      .ok ((bytesAt patch offset count).foldl (fun n b => n * 256 + b.toNat) acc,
        (offset + count) % 2 ^ 32) := by
  induction count generalizing acc offset with
  | zero =>
    rw [ipsNumber, Nat.add_zero, Nat.mod_eq_of_lt hoffset]
    rfl
  | succ count ih =>
    have hle : (offset + 1) % 2 ^ 32 ≤ offset + 1 := Nat.mod_le _ _
    rw [ipsNumber, ipsRead_lt (by omega), ok_bind]
    simp only
    rw [ih _ (Nat.mod_lt _ (by decide)) (by omega), bytesAt_succ, Nat.mod_eq_of_lt hoffset,
      List.foldl_cons]
    congr 2
    omega

theorem ipsNumber_numberAt {count offset : ℕ} (hoffset : offset < 2 ^ 32)
    (h : offset + count ≤ patch.length) :
    ipsNumber patch count 0 offset = .ok (numberAt patch offset count, (offset + count) % 2 ^ 32) :=
  ipsNumber_ok 0 hoffset h

theorem put_nil (address : ℕ) (target : ℕ → UInt8) :
    (Record.mk address []).put target = target := by
  funext i
  rw [Record.put, if_neg]
  simp only [Record.last, List.length_nil, Nat.add_zero]
  omega

theorem put_cons (address : ℕ) (b : UInt8) (bs : List UInt8) (target : ℕ → UInt8) :
    (Record.mk address (b :: bs)).put target =
      (Record.mk (address + 1) bs).put (Function.update target address b) := by
  funext i
  change (if address ≤ i ∧ i < address + (bs.length + 1) then (b :: bs).getD (i - address) 0
      else target i) =
    if address + 1 ≤ i ∧ i < address + 1 + bs.length then bs.getD (i - (address + 1)) 0
      else Function.update target address b i
  by_cases hi : i = address
  · subst hi
    rw [if_pos (by omega), if_neg (by omega), Function.update_self, Nat.sub_self]
    rfl
  · rw [Function.update_of_ne hi]
    by_cases hin : address ≤ i ∧ i < address + (bs.length + 1)
    · have hsub : i - address = i - (address + 1) + 1 := by omega
      rw [if_pos hin, if_pos (by omega), hsub, List.getD_cons_succ]
    · rw [if_neg hin, if_neg (by omega)]

theorem ipsWrite_lt {target : ℕ → UInt8} {address : ℕ} {b : UInt8} (h : address < capacity) :
    ipsWrite capacity target address b = .ok (Function.update target address b) := if_pos h

theorem ipsWrite_ge {target : ℕ → UInt8} {address : ℕ} {b : UInt8} (h : capacity ≤ address) :
    ipsWrite capacity target address b = .error .targetWrite := if_neg (Nat.not_lt.mpr h)

/-- A copy out of the patch puts its bytes where there is room for them. -/
theorem ipsCopy_spec (capacity address : ℕ) {length offset : ℕ} (target : ℕ → UInt8)
    (hoffset : offset < 2 ^ 32) (h : offset + length ≤ patch.length) :
    (address + length ≤ capacity → ipsCopy patch capacity length address offset target =
        .ok ((Record.mk address (bytesAt patch offset length)).put target, address + length,
          (offset + length) % 2 ^ 32)) ∧
      (capacity < address + length → 0 < length →
        ∃ e, ipsCopy patch capacity length address offset target = .error e) := by
  induction length generalizing address offset target with
  | zero =>
    refine ⟨fun _ => ?_, fun _ hpos => absurd hpos (Nat.lt_irrefl 0)⟩
    rw [ipsCopy, Nat.add_zero, Nat.add_zero, Nat.mod_eq_of_lt hoffset]
    change _ = Except.ok ((Record.mk address []).put target, _)
    rw [put_nil]
  | succ length ih =>
    have hle : (offset + 1) % 2 ^ 32 ≤ offset + 1 := Nat.mod_le _ _
    rw [ipsCopy, ipsRead_lt (by omega), ok_bind]
    simp only
    by_cases hroom : address < capacity
    · rw [ipsWrite_lt hroom, ok_bind]
      obtain ⟨hok, herror⟩ := @ih (address + 1) ((offset + 1) % 2 ^ 32)
        (Function.update target address (patch.getD offset 0))
        (Nat.mod_lt (offset + 1) (by decide)) (by omega)
      constructor
      · intro hfits
        rw [hok (by omega), bytesAt_succ, put_cons, Nat.mod_eq_of_lt hoffset]
        congr 3
        · omega
        · omega
      · intro hfull _
        exact herror (by omega) (by omega)
    · rw [ipsWrite_ge (Nat.le_of_not_lt hroom), error_bind]
      exact ⟨fun hfits => by omega, fun _ _ => ⟨_, rfl⟩⟩

/-- A copy that is longer than the patch runs off it, or off the target. -/
theorem ipsCopy_overlong (capacity address : ℕ) {length offset : ℕ} (target : ℕ → UInt8)
    (hsmall : patch.length < 2 ^ 32) (h : patch.length < offset + length) (hpos : 0 < length) :
    ∃ e, ipsCopy patch capacity length address offset target = .error e := by
  induction length generalizing address offset target with
  | zero => exact absurd hpos (Nat.lt_irrefl 0)
  | succ length ih =>
    rw [ipsCopy]
    by_cases hin : offset < patch.length
    · rw [ipsRead_lt hin, ok_bind]
      simp only
      by_cases hroom : address < capacity
      · rw [ipsWrite_lt hroom, ok_bind]
        have hstep : (offset + 1) % 2 ^ 32 = offset + 1 := Nat.mod_eq_of_lt (by omega)
        rw [hstep]
        exact ih _ _ (by omega) (by omega)
      · rw [ipsWrite_ge (Nat.le_of_not_lt hroom)]
        exact ⟨_, rfl⟩
    · rw [ipsRead, List.getElem?_eq_none (Nat.le_of_not_lt hin)]
      exact ⟨_, rfl⟩

/-- A run puts its byte where there is room for it. -/
theorem ipsFill_spec (capacity address length : ℕ) {offset : ℕ} (target : ℕ → UInt8)
    (h : offset < patch.length) :
    (address + length ≤ capacity → ipsFill patch capacity offset length address target =
        .ok ((Record.mk address (List.replicate length (patch.getD offset 0))).put target,
          address + length)) ∧
      (capacity < address + length → 0 < length →
        ∃ e, ipsFill patch capacity offset length address target = .error e) := by
  induction length generalizing address target with
  | zero =>
    refine ⟨fun _ => ?_, fun _ hpos => absurd hpos (Nat.lt_irrefl 0)⟩
    rw [ipsFill, Nat.add_zero, List.replicate_zero, put_nil]
  | succ length ih =>
    rw [ipsFill, ipsRead_lt h, ok_bind]
    simp only
    by_cases hroom : address < capacity
    · rw [ipsWrite_lt hroom, ok_bind]
      obtain ⟨hok, herror⟩ := ih (address + 1)
        (Function.update target address (patch.getD offset 0))
      constructor
      · intro hfits
        rw [hok (by omega), List.replicate_succ, put_cons]
        congr 2
        omega
      · intro hfull _
        exact herror (by omega) (by omega)
    · rw [ipsWrite_ge (Nat.le_of_not_lt hroom), error_bind]
      exact ⟨fun hfits => by omega, fun _ _ => ⟨_, rfl⟩⟩

theorem numberAt_two_lt (patch : List UInt8) (offset : ℕ) : numberAt patch offset 2 < 2 ^ 16 := by
  have hhigh := (patch.getD (offset % 2 ^ 32) 0).toNat_lt
  have hlow := (patch.getD ((offset + 1) % 2 ^ 32 % 2 ^ 32) 0).toNat_lt
  rw [numberAt, bytesAt_succ, bytesAt_succ]
  change (0 * 256 + (patch.getD (offset % 2 ^ 32) 0).toNat) * 256 +
    (patch.getD ((offset + 1) % 2 ^ 32 % 2 ^ 32) 0).toNat < 2 ^ 16
  omega

theorem patchlenMinus_of_le {n : ℕ} (h : n ≤ patch.length) :
    patchlenMinus patch n = patch.length - n := if_pos h

theorem not_patchlenMinus_lt {n offset : ℕ} (hover : patch.length < n) (hn : n < 2 ^ 16)
    (hoffset : offset < 2 ^ 32) : ¬ patchlenMinus patch n < offset := by
  rw [patchlenMinus, if_neg (Nat.not_le.mpr hover)]
  omega

end Reads

section Rounds

variable {patch : List UInt8} {capacity : ℕ}

/-- What a round makes of what stands at its offset. -/
def Item.Met (capacity : ℕ) (data : IpsData) (round : Except IpsFault IpsRound) : Item → Prop
  | .invalid => round = .ok (.done .patchInvalid data)
  | .finish size => ∃ offset, round = .ok (.done .success
      ⟨offset, data.target, size.getD data.targetlength⟩)
  | .overlong => ∃ e, round = .error e
  | .record r offset => offset < 2 ^ 32 ∧
      (r.last ≤ capacity →
        round = .ok (.next ⟨offset, r.put data.target, max data.targetlength r.last⟩)) ∧
      (capacity < r.last → ∃ e, round = .error e)

theorem wrote_eq (data : IpsData) (target : ℕ → UInt8) (address offset : ℕ) :
    data.wrote target address offset = ⟨offset, target, max data.targetlength address⟩ := by
  rw [IpsData.wrote]
  congr 1
  split_ifs <;> omega

/-- A record that is written byte by byte, or not at all. -/
theorem met_record {data : IpsData} {address offset : ℕ} {bs : List UInt8}
    {round : Except IpsFault IpsRound} (hoffset : offset < 2 ^ 32)
    (hfits : address + bs.length ≤ capacity → round = .ok (.next
      (data.wrote ((Record.mk address bs).put data.target) (address + bs.length) offset)))
    (hfull : capacity < address + bs.length → ∃ e, round = .error e) :
    Item.Met capacity data round (.record ⟨address, bs⟩ offset) := by
  refine ⟨hoffset, fun h => ?_, hfull⟩
  rw [hfits h, wrote_eq]
  rfl

theorem recordAt_met (data : IpsData) (address : ℕ) {offset : ℕ} (hoffset : offset < 2 ^ 32)
    (hlong : 8 ≤ patch.length) :
    Item.Met capacity data (ipsRecord patch capacity data address offset)
      (recordAt patch address offset) := by
  have hmod : ∀ n, n % 2 ^ 32 < 2 ^ 32 := fun n => Nat.mod_lt n (by decide)
  have hmle : ∀ n, n % 2 ^ 32 ≤ n := fun n => Nat.mod_le n _
  rw [ipsRecord, recordAt, patchlenMinus_of_le (by omega)]
  by_cases htwo : patch.length - 2 < offset
  · rw [if_pos htwo, if_pos htwo]
    rfl
  rw [if_neg htwo, if_neg htwo, ipsNumber_numberAt hoffset (by omega), ok_bind]
  dsimp only
  by_cases hcopy : numberAt patch offset 2 ≠ 0
  · rw [if_pos hcopy, if_pos hcopy]
    have hpos := Nat.pos_of_ne_zero hcopy
    by_cases hover : patch.length < numberAt patch offset 2
    · have hlt := numberAt_two_lt patch offset
      rw [if_pos hover, if_neg (not_patchlenMinus_lt hover hlt (hmod _))]
      obtain ⟨e, he⟩ := ipsCopy_overlong capacity address data.target
        (show patch.length < 2 ^ 32 by omega) (Nat.lt_add_left ((offset + 2) % 2 ^ 32) hover) hpos
      rw [he]
      exact ⟨e, rfl⟩
    rw [if_neg hover, patchlenMinus_of_le (Nat.le_of_not_lt hover)]
    by_cases hend : patch.length - numberAt patch offset 2 < (offset + 2) % 2 ^ 32
    · rw [if_pos hend, if_pos hend]
      rfl
    rw [if_neg hend, if_neg hend]
    have hin : (offset + 2) % 2 ^ 32 + numberAt patch offset 2 ≤ patch.length := by omega
    obtain ⟨hok, herror⟩ := ipsCopy_spec capacity address data.target (hmod _) hin
    refine met_record (hmod _) (fun h => ?_) fun h => ?_
    · rw [length_bytesAt] at h ⊢
      rw [hok h]
      rfl
    · rw [length_bytesAt] at h
      obtain ⟨e, he⟩ := herror h hpos
      rw [he]
      exact ⟨e, rfl⟩
  · rw [if_neg hcopy, if_neg hcopy, patchlenMinus_of_le (by omega)]
    have hstart := hmle (offset + 2)
    by_cases hthree : patch.length - 3 < (offset + 2) % 2 ^ 32
    · rw [if_pos hthree, if_pos hthree]
      rfl
    rw [if_neg hthree, if_neg hthree, ipsNumber_numberAt (hmod _) (by omega), ok_bind]
    dsimp only
    by_cases hzero : numberAt patch ((offset + 2) % 2 ^ 32) 2 = 0
    · rw [if_pos hzero, if_pos hzero]
      rfl
    rw [if_neg hzero, if_neg hzero]
    have hnext := hmle ((offset + 2) % 2 ^ 32 + 2)
    have hin : ((offset + 2) % 2 ^ 32 + 2) % 2 ^ 32 < patch.length := by omega
    obtain ⟨hok, herror⟩ := ipsFill_spec capacity address
      (numberAt patch ((offset + 2) % 2 ^ 32) 2) data.target hin
    refine met_record (hmod _) (fun h => ?_) fun h => ?_
    · rw [List.length_replicate] at h ⊢
      rw [hok h]
      rfl
    · rw [List.length_replicate] at h
      obtain ⟨e, he⟩ := herror h (Nat.pos_of_ne_zero hzero)
      rw [he]
      exact ⟨e, rfl⟩

theorem ipsRound_met (data : IpsData) (hoffset : data.offset < 2 ^ 32) (hlong : 8 ≤ patch.length) :
    Item.Met capacity data (ipsRound patch capacity data) (itemAt patch data.offset) := by
  have hmod : ∀ n, n % 2 ^ 32 < 2 ^ 32 := fun n => Nat.mod_lt n (by decide)
  rw [ipsRound, itemAt, patchlenMinus_of_le (by omega)]
  by_cases hthree : patch.length - 3 < data.offset
  · rw [if_pos hthree, if_pos hthree]
    rfl
  rw [if_neg hthree, if_neg hthree, ipsNumber_numberAt hoffset (by omega), ok_bind]
  dsimp only
  by_cases hend : numberAt patch data.offset 3 = ipsEof ∧ (data.offset + 3) % 2 ^ 32 = patch.length
  · rw [if_pos hend, if_pos hend]
    exact ⟨data.offset, rfl⟩
  rw [if_neg hend, if_neg hend]
  by_cases hsize : numberAt patch data.offset 3 = ipsEof ∧
      (data.offset + 3) % 2 ^ 32 = patch.length - 3
  · rw [if_pos hsize, if_pos hsize, ipsNumber_numberAt (hmod _) (by omega)]
    exact ⟨_, rfl⟩
  · rw [if_neg hsize, if_neg hsize]
    exact recordAt_met data _ (hmod _) hlong

end Rounds

section Runs

variable {patch source : List UInt8} {capacity : ℕ}

theorem behind_next (rs : List Record) (r : Record) (offset offset' : ℕ) (target : ℕ → UInt8) :
    behind source (rs ++ [r]) offset' target =
      ⟨offset', r.put (behind source rs offset target).target,
        max (behind source rs offset target).targetlength r.last⟩ := by
  rw [behind, List.foldl_append, List.foldl_append]
  rfl

theorem RecordsTo.offset_lt {rs : List Record} {offset : ℕ} (hrecs : RecordsTo patch rs offset)
    (hlong : 8 ≤ patch.length) : offset < 2 ^ 32 := by
  induction hrecs with
  | start => decide
  | @next rs r offset offset' _ item ih =>
    have hmet := @ipsRound_met patch 0 ⟨offset, fun _ => 0, 0⟩ ih hlong
    rw [item] at hmet
    exact hmet.1

theorem round_met {rs : List Record} {offset : ℕ} (hrecs : RecordsTo patch rs offset)
    (hlong : 8 ≤ patch.length) (target : ℕ → UInt8) :
    Item.Met capacity (behind source rs offset target)
      (ipsRound patch capacity (behind source rs offset target)) (itemAt patch offset) :=
  ipsRound_met (behind source rs offset target) (hrecs.offset_lt hlong) hlong

theorem ipsLoop_error {rounds : ℕ} {data : IpsData} {e : IpsFault}
    (h : ipsRound patch capacity data = .error e) :
    ipsLoop patch capacity (rounds + 1) data = .error e := by
  rw [ipsLoop.eq_def]
  dsimp only
  rw [h]
  rfl

theorem ipsLoop_done {rounds : ℕ} {data data' : IpsData} {err : PatchError}
    (h : ipsRound patch capacity data = .ok (.done err data')) :
    ipsLoop patch capacity (rounds + 1) data = .ok (some (err, data')) := by
  rw [ipsLoop.eq_def]
  dsimp only
  rw [h]
  rfl

theorem ipsLoop_next {rounds : ℕ} {data data' : IpsData}
    (h : ipsRound patch capacity data = .ok (.next data')) :
    ipsLoop patch capacity (rounds + 1) data = ipsLoop patch capacity rounds data' := by
  rw [ipsLoop.eq_def]
  dsimp only
  rw [h]
  rfl

theorem ipsLoop_behind {rs : List Record} {offset : ℕ} (hrecs : RecordsTo patch rs offset)
    (hlong : 8 ≤ patch.length) (hfits : ∀ r ∈ rs, r.last ≤ capacity) (rounds : ℕ)
    (target : ℕ → UInt8) :
    ipsLoop patch capacity (rs.length + rounds) (ipsStart source target) =
      ipsLoop patch capacity rounds (behind source rs offset target) := by
  induction hrecs generalizing rounds with
  | start =>
    rw [List.length_nil, Nat.zero_add]
    rfl
  | @next rs r offset offset' before item ih =>
    have hmet : Item.Met capacity (behind source rs offset target) _ _ :=
      round_met before hlong target
    rw [item] at hmet
    have hround := hmet.2.1 (hfits r (List.mem_append_right rs (List.mem_singleton_self r)))
    have hbefore := ih (fun r hr => hfits r (List.mem_append_left _ hr)) (rounds + 1)
    rw [List.length_append, List.length_singleton, Nat.add_assoc, Nat.add_comm 1, hbefore,
      ipsLoop_next hround, behind_next rs r offset]

/-- Where no access is outside, every record that is come to fits. -/
theorem fits_of_ok {rs : List Record} {offset : ℕ} (hrecs : RecordsTo patch rs offset)
    (hlong : 8 ≤ patch.length) (target : ℕ → UInt8)
    (hok : ∀ rounds, ∃ ended, ipsLoop patch capacity rounds (ipsStart source target) = .ok ended) :
    ∀ r ∈ rs, r.last ≤ capacity := by
  induction hrecs with
  | start => exact fun r hr => absurd hr List.not_mem_nil
  | @next rs r offset offset' before item ih =>
    intro r' hr'
    rcases List.mem_append.mp hr' with hin | hlast
    · exact ih r' hin
    · rw [List.mem_singleton.mp hlast]
      by_contra hfull
      have hmet : Item.Met capacity (behind source rs offset target) _ _ :=
        round_met before hlong target
      rw [item] at hmet
      obtain ⟨e, he⟩ := hmet.2.2 (Nat.lt_of_not_le hfull)
      obtain ⟨ended, hended⟩ := hok (rs.length + 1)
      rw [ipsLoop_behind before hlong ih 1 target, ipsLoop_error he] at hended
      exact nomatch hended

theorem put_of_covered {i : ℕ} {target target' : ℕ → UInt8} (rs : List Record)
    (h : target i = target' i ∨ ∃ r ∈ rs, r.address ≤ i ∧ i < r.last) :
    rs.foldl (fun target r => r.put target) target i =
      rs.foldl (fun target r => r.put target) target' i := by
  induction rs generalizing target target' with
  | nil =>
    rcases h with h | ⟨r, hr, _⟩
    · exact h
    · exact absurd hr List.not_mem_nil
  | cons r rs ih =>
    rw [List.foldl_cons, List.foldl_cons]
    apply ih
    by_cases hin : r.address ≤ i ∧ i < r.last
    · left
      rw [Record.put, Record.put, if_pos hin, if_pos hin]
    · rcases h with h | ⟨r', hr', hin'⟩
      · left
        rw [Record.put, Record.put, if_neg hin, if_neg hin]
        exact h
      · rcases List.mem_cons.mp hr' with rfl | hr'
        · exact absurd hin' hin
        · exact Or.inr ⟨r', hr', hin'⟩

theorem put_of_uncovered {i : ℕ} (target : ℕ → UInt8) (rs : List Record)
    (h : ∀ r ∈ rs, ¬ (r.address ≤ i ∧ i < r.last)) :
    rs.foldl (fun target r => r.put target) target i = target i := by
  induction rs generalizing target with
  | nil => rfl
  | cons r rs ih =>
    have hr := h r (List.mem_cons_self)
    rw [List.foldl_cons, ih _ fun r' hr' => h r' (List.mem_cons_of_mem r hr'), Record.put,
      if_neg hr]

theorem behind_target_covered {rs : List Record} {i : ℕ} (hcovered : Covered source rs i)
    (offset : ℕ) (target target' : ℕ → UInt8) :
    (behind source rs offset target).target i = (behind source rs offset target').target i := by
  apply put_of_covered
  rcases hcovered with hi | hrecord
  · left
    change source.getD i (target i) = source.getD i (target' i)
    rw [List.getD_eq_getElem _ _ hi, List.getD_eq_getElem _ _ hi]
  · exact Or.inr hrecord

theorem behind_target_uncovered {rs : List Record} {i : ℕ} (hcovered : ¬ Covered source rs i)
    (offset : ℕ) (target : ℕ → UInt8) : (behind source rs offset target).target i = target i := by
  obtain ⟨hsource, hrecords⟩ := not_or.mp hcovered
  change rs.foldl (fun target r => r.put target) (ipsStart source target).target i = target i
  rw [put_of_uncovered _ _ fun r hr hin => hrecords ⟨r, hr, hin⟩]
  exact List.getD_eq_default _ _ (Nat.le_of_not_lt hsource)

/-- How a run ends, whatever was in the target. -/
def Ended (patch source : List UInt8) (run : (ℕ → UInt8) → Except IpsFault
    (Option (PatchError × IpsData))) : Prop :=
  (∀ target, run target = .ok none) ∨
    (∀ target, ∃ data, run target = .ok (some (.patchInvalid, data))) ∨
    ∃ rs offset size, RecordsTo patch rs offset ∧ itemAt patch offset = .finish size ∧
      ∀ target, ∃ offset', run target = .ok (some (.success,
        ⟨offset', (behind source rs offset target).target,
          size.getD (behind source rs offset target).targetlength⟩))

/-- At an end that gives success or not, the round is the last. -/
theorem ended_finish {rs : List Record} {offset : ℕ} {size : Option ℕ}
    (hrecs : RecordsTo patch rs offset) (hlong : 8 ≤ patch.length)
    (hitem : itemAt patch offset = .finish size) (rounds : ℕ) (target : ℕ → UInt8) :
    ∃ offset', ipsLoop patch capacity (rounds + 1) (behind source rs offset target) =
      .ok (some (.success, ⟨offset', (behind source rs offset target).target,
        size.getD (behind source rs offset target).targetlength⟩)) := by
  have hmet : Item.Met capacity (behind source rs offset target) _ _ :=
    round_met hrecs hlong target
  rw [hitem] at hmet
  obtain ⟨offset', hround⟩ := hmet
  exact ⟨offset', ipsLoop_done hround⟩

theorem ended_invalid {rs : List Record} {offset : ℕ} (hrecs : RecordsTo patch rs offset)
    (hlong : 8 ≤ patch.length) (hitem : itemAt patch offset = .invalid) (rounds : ℕ)
    (target : ℕ → UInt8) :
    ipsLoop patch capacity (rounds + 1) (behind source rs offset target) =
      .ok (some (.patchInvalid, behind source rs offset target)) := by
  have hmet : Item.Met capacity (behind source rs offset target) _ _ :=
    round_met hrecs hlong target
  rw [hitem] at hmet
  exact ipsLoop_done hmet

theorem ipsLoop_ended (hlong : 8 ≤ patch.length)
    (hsound : ∀ rs offset, RecordsTo patch rs offset →
      itemAt patch offset ≠ .overlong ∧ ∀ r ∈ rs, r.last ≤ capacity)
    {rs : List Record} {offset : ℕ} (hrecs : RecordsTo patch rs offset) (rounds : ℕ) :
    Ended patch source fun target =>
      ipsLoop patch capacity rounds (behind source rs offset target) := by
  induction rounds generalizing rs offset with
  | zero => exact Or.inl fun _ => rfl
  | succ rounds ih =>
    cases hitem : itemAt patch offset with
    | invalid =>
      right; left
      intro target
      exact ⟨_, ended_invalid hrecs hlong hitem rounds target⟩
    | finish size =>
      right; right
      exact ⟨rs, offset, size, hrecs, hitem, ended_finish hrecs hlong hitem rounds⟩
    | overlong => exact absurd hitem (hsound rs offset hrecs).1
    | record r offset' =>
      have hnext := hrecs.next hitem
      have hlast := List.mem_append_right rs (List.mem_singleton_self r)
      have hfits := (hsound _ _ hnext).2 r hlast
      have hstep : ∀ target,
          ipsLoop patch capacity (rounds + 1) (behind source rs offset target) =
            ipsLoop patch capacity rounds (behind source (rs ++ [r]) offset' target) := by
        intro target
        have hmet : Item.Met capacity (behind source rs offset target) _ _ :=
          round_met hrecs hlong target
        rw [hitem] at hmet
        rw [ipsLoop_next (hmet.2.1 hfits), behind_next rs r offset]
      simp only [hstep]
      exact ih hnext

theorem ipsApplyPatch_eq (hlong : 8 ≤ patch.length) (hmagic : patch.take 5 = ipsMagic)
    (hroom : source.length ≤ capacity) (rounds : ℕ) (target : ℕ → UInt8) :
    ipsApplyPatch patch capacity rounds source target =
      ipsLoop patch capacity rounds (ipsStart source target) := by
  rw [ipsApplyPatch, if_neg (not_or.mpr ⟨Nat.not_lt.mpr hlong, not_not_intro hmagic⟩),
    if_neg (Nat.not_lt.mpr hroom)]

/-- A place without its byte shows what was in the target. -/
theorem covered_of_wellDefined (hlong : 8 ≤ patch.length) (hmagic : patch.take 5 = ipsMagic)
    (hroom : source.length ≤ capacity) (hdefined : WellDefined patch source capacity)
    {rs : List Record} {offset : ℕ} (hrecs : RecordsTo patch rs offset)
    (hfits : ∀ r ∈ rs, r.last ≤ capacity) {size : Option ℕ}
    (hitem : itemAt patch offset = .finish size) {i : ℕ}
    (hi : i < size.getD (behind source rs offset fun _ => 0).targetlength) :
    Covered source rs i := by
  by_contra hcovered
  have hrun : ∀ target, ∃ offset', ipsApplyPatch patch capacity (rs.length + 1) source target =
      .ok (some (.success, ⟨offset', (behind source rs offset target).target,
        size.getD (behind source rs offset target).targetlength⟩)) := by
    intro target
    rw [ipsApplyPatch_eq hlong hmagic hroom, ipsLoop_behind hrecs hlong hfits]
    exact ended_finish hrecs hlong hitem 0 target
  obtain ⟨_, hzeros⟩ := hrun fun _ => 0
  obtain ⟨_, hones⟩ := hrun fun _ => 1
  obtain ⟨data, hdata, _, hbytes⟩ := hdefined.2 _ (fun _ => 1) _ _ hzeros
  rw [hones] at hdata
  cases hdata
  have hbyte := hbytes i hi
  dsimp only at hbyte
  rw [behind_target_uncovered hcovered, behind_target_uncovered hcovered] at hbyte
  exact absurd hbyte (by decide)

theorem sound_of_wellDefined (hlong : 8 ≤ patch.length) (hmagic : patch.take 5 = ipsMagic)
    (hroom : source.length ≤ capacity) (hdefined : WellDefined patch source capacity) :
    IpsSound patch source capacity := by
  refine Or.inr fun rs offset hrecs => ?_
  have hok : ∀ rounds, ∃ ended,
      ipsLoop patch capacity rounds (ipsStart source fun _ => 0) = .ok ended := by
    intro rounds
    rw [← ipsApplyPatch_eq hlong hmagic hroom]
    exact hdefined.1 (fun _ => 0) rounds
  have hfits := fits_of_ok hrecs hlong (fun _ => 0) hok
  refine ⟨fun hitem => ?_, hfits, fun size hitem i hi =>
    covered_of_wellDefined hlong hmagic hroom hdefined hrecs hfits hitem hi⟩
  have hmet : Item.Met capacity (behind source rs offset fun _ => 0) _ _ :=
    round_met hrecs hlong fun _ => 0
  rw [hitem] at hmet
  obtain ⟨e, he⟩ := hmet
  obtain ⟨ended, hended⟩ := hok (rs.length + 1)
  rw [ipsLoop_behind hrecs hlong hfits, ipsLoop_error he] at hended
  exact nomatch hended

theorem wellDefined_of_sound (hlong : 8 ≤ patch.length) (hmagic : patch.take 5 = ipsMagic)
    (hroom : source.length ≤ capacity)
    (hsound : ∀ rs offset, RecordsTo patch rs offset →
      itemAt patch offset ≠ .overlong ∧ (∀ r ∈ rs, r.last ≤ capacity) ∧
        ∀ size, itemAt patch offset = .finish size →
          ∀ i < size.getD (behind source rs offset fun _ => 0).targetlength, Covered source rs i) :
    WellDefined patch source capacity := by
  have hended : ∀ rounds, Ended patch source (ipsApplyPatch patch capacity rounds source) := by
    intro rounds
    rw [funext (ipsApplyPatch_eq hlong hmagic hroom rounds)]
    exact ipsLoop_ended hlong
      (fun rs offset hrecs => ⟨(hsound rs offset hrecs).1, (hsound rs offset hrecs).2.1⟩)
      RecordsTo.start rounds
  constructor
  · intro target rounds
    rcases hended rounds with hnone | hinvalid | ⟨rs, offset, size, _, _, hsuccess⟩
    · exact ⟨_, hnone target⟩
    · obtain ⟨data, hdata⟩ := hinvalid target
      exact ⟨_, hdata⟩
    · obtain ⟨offset', hdata⟩ := hsuccess target
      exact ⟨_, hdata⟩
  · intro target target' rounds data hdata
    rcases hended rounds with hnone | hinvalid | ⟨rs, offset, size, hrecs, hitem, hsuccess⟩
    · rw [hnone target] at hdata
      exact nomatch hdata
    · obtain ⟨data', hdata'⟩ := hinvalid target
      rw [hdata'] at hdata
      exact nomatch hdata
    · obtain ⟨_, hrun⟩ := hsuccess target
      obtain ⟨_, hrun'⟩ := hsuccess target'
      rw [hrun] at hdata
      cases hdata
      refine ⟨_, hrun', rfl, ?_⟩
      intro i hi
      have hcovered := (hsound rs offset hrecs).2.2 size hitem i hi
      exact behind_target_covered hcovered offset target' target

end Runs

/-- The applier is well defined for just the patches whose copies are no longer than the patch,
whose records are within the target and which leave no place of the output without its byte. -/
theorem ips_wellDefined_iff (patch source : List UInt8) (capacity : ℕ)
    (hroom : source.length ≤ capacity) :
    WellDefined patch source capacity ↔ IpsSound patch source capacity := by
  by_cases hrefused : patch.length < 8 ∨ patch.take 5 ≠ ipsMagic
  · refine iff_of_true ⟨fun target rounds => ?_, fun target target' rounds data hdata => ?_⟩
      (Or.inl hrefused)
    · rw [ipsApplyPatch, if_pos hrefused]
      exact ⟨_, rfl⟩
    · rw [ipsApplyPatch, if_pos hrefused] at hdata
      exact nomatch hdata
  · obtain ⟨hshort, hmagic⟩ := not_or.mp hrefused
    have hlong := Nat.le_of_not_lt hshort
    have hmagic := not_not.mp hmagic
    constructor
    · exact sound_of_wellDefined hlong hmagic hroom
    · rintro (hrefused' | hsound)
      · exact absurd hrefused' hrefused
      · exact wellDefined_of_sound hlong hmagic hroom hsound

/-- One byte of source in a target of four, and a record that fits behind it. -/
theorem ips_record_defined :
    WellDefined [0x50, 0x41, 0x54, 0x43, 0x48, 0, 0, 1, 0, 1, 7, 0x45, 0x4f, 0x46] [9] 4 ↔
      IpsSound [0x50, 0x41, 0x54, 0x43, 0x48, 0, 0, 1, 0, 1, 7, 0x45, 0x4f, 0x46] [9] 4 :=
  ips_wellDefined_iff _ _ _ (by decide)

/-- The same record at the address 3: the places 1 and 2 keep what was in the target. -/
theorem ips_gap_undefined :
    ¬ ∀ (patch source : List UInt8) (capacity : ℕ), source.length ≤ capacity →
      WellDefined patch source capacity := by
  intro h
  obtain ⟨_, hsame⟩ := h [0x50, 0x41, 0x54, 0x43, 0x48, 0, 0, 3, 0, 1, 7, 0x45, 0x4f, 0x46] [9] 4
    (by decide)
  obtain ⟨data, hdata, _, hbytes⟩ := hsame (fun _ => 0) (fun _ => 1) 2 _ rfl
  cases hdata
  exact absurd (hbytes 1 (by decide)) (by decide)

end RetroArch.Tasks.Ips
