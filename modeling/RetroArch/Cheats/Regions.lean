/- What the regions of a search hold, one after another. -/

import RetroArch.Cheats.Candidates

namespace RetroArch.Cheats

open Library.Memory

variable {m : Snapshot} {s : CheatManager} {regions : List Region}

theorem length_bytes (m : Snapshot) (r : Region) : (r.bytes m).length = r.len := by
  unfold Region.bytes
  rw [List.length_map, List.length_range]

theorem length_concat (m : Snapshot) (regions : List Region) :
    (concat m regions).length = totalLength regions := by
  unfold concat totalLength
  rw [List.length_flatMap]
  simp only [length_bytes]

theorem totalLength_cons (r : Region) (regions : List Region) :
    totalLength (r :: regions) = r.len + totalLength regions := rfl

theorem totalLength_append (before after : List Region) :
    totalLength (before ++ after) = totalLength before + totalLength after := by
  unfold totalLength
  rw [List.map_append, List.sum_append]

/-- The regions of a manager, with their lengths. -/
structure Holds (s : CheatManager) (regions : List Region) : Prop where
  list : s.memoryBufList = regions
  sizes : s.memorySizeList = regions.map fun r => r.len % 2 ^ 32

/-- From a place that the first regions end at, the region of an address is found. -/
theorem go_spec {address : ℕ} {curr : Option Region} {rest : List Region} {offset : ℕ}
    (hoffset : offset ≤ address) (hin : address < offset + totalLength rest)
    (hsmall : offset + totalLength rest < 2 ^ 32) :
    ∃ before r after, rest = before ++ r :: after ∧
      translateAddress.go address curr (rest.zip (rest.map fun r => r.len % 2 ^ 32)) offset =
        (offset + totalLength before, some r) ∧
      offset + totalLength before ≤ address ∧
      address < offset + totalLength before + r.len := by
  induction rest generalizing offset with
  | nil =>
    rw [totalLength, List.map_nil, List.sum_nil] at hin
    omega
  | cons r rest ih =>
    rw [totalLength_cons] at hin hsmall
    have hlen : r.len % 2 ^ 32 = r.len := Nat.mod_eq_of_lt (by omega)
    have hend : (offset + r.len) % 2 ^ 32 = offset + r.len := Nat.mod_eq_of_lt (by omega)
    rw [List.map_cons, List.zip_cons_cons, translateAddress.go, hlen, hend]
    by_cases hhere : address < offset + r.len
    · refine ⟨[], r, rest, rfl, if_pos ⟨hoffset, hhere⟩, ?_, ?_⟩
      · exact hoffset
      · exact hhere
    · rw [if_neg fun h => hhere h.2]
      obtain ⟨before, r', after, rfl, hgo, hle, hlt⟩ :=
        @ih (offset + r.len) (by omega) (by omega) (by omega)
      refine ⟨r :: before, r', after, rfl, ?_, ?_, ?_⟩
      · rw [hgo, totalLength_cons, Nat.add_assoc]
      · rw [totalLength_cons]
        omega
      · rw [totalLength_cons]
        omega

theorem translateAddress_spec (h : Holds s regions) (hsmall : totalLength regions < 2 ^ 32)
    {address : ℕ} (hin : address < totalLength regions) (curr : Option Region) :
    ∃ before r after, regions = before ++ r :: after ∧
      translateAddress s address curr = (totalLength before, some r) ∧
      totalLength before ≤ address ∧ address < totalLength before + r.len := by
  have hgo := @go_spec address curr regions 0 (Nat.zero_le _) (by omega) (by omega)
  rw [← h.sizes, ← h.list] at hgo
  simp only [Nat.zero_add] at hgo
  rw [← h.list]
  exact hgo

theorem dvd_totalLength {d : ℕ} {regions : List Region} (h : ∀ r ∈ regions, d ∣ r.len) :
    d ∣ totalLength regions := by
  induction regions with
  | nil => exact Nat.dvd_zero d
  | cons r regions ih =>
    rw [totalLength_cons]
    exact Nat.dvd_add (h r List.mem_cons_self)
      (ih fun r' hr' => h r' (List.mem_cons_of_mem r hr'))

theorem currValue_spec (h : Holds s regions) (hsmall : totalLength regions < 2 ^ 32) {d idx : ℕ}
    (hpos : 0 < d) (haligned : ∀ r ∈ regions, d ∣ r.len) (hdvd : d ∣ idx)
    (hin : idx < totalLength regions) (curr : Option Region) :
    ∃ offset curr', translateAddress s idx curr = (offset, curr') ∧
      currValue s m d idx offset curr' =
        some (itemValue s.bigEndian (((concat m regions).drop idx).take d)) := by
  obtain ⟨before, r, after, rfl, htranslate, hle, hlt⟩ :=
    translateAddress_spec h hsmall hin curr
  refine ⟨_, _, htranslate, ?_⟩
  have hbefore : d ∣ totalLength before :=
    dvd_totalLength fun r hr => haligned r (List.mem_append_left _ hr)
  have hr : d ∣ r.len := haligned r (List.mem_append_right _ List.mem_cons_self)
  -- the item ends in its region, since all ends of regions are ends of items
  have hends : idx - totalLength before + d ≤ r.len := by
    obtain ⟨a, rfl⟩ := hdvd
    obtain ⟨c, hc⟩ := hbefore
    obtain ⟨e, he⟩ := hr
    rw [hc] at hle hlt ⊢
    rw [he] at hlt ⊢
    have hac : c ≤ a := Nat.le_of_mul_le_mul_left hle hpos
    have hlt' : a < c + e := by
      apply Nat.lt_of_mul_lt_mul_left (a := d)
      rw [Nat.mul_add]
      exact hlt
    rw [← Nat.mul_sub]
    calc d * (a - c) + d = d * (a - c + 1) := (Nat.mul_succ d (a - c)).symm
      _ ≤ d * e := Nat.mul_le_mul_left d (by omega)
  have hbytes : ((concat m (before ++ r :: after)).drop idx).take d =
      ((r.bytes m).drop (idx - totalLength before)).take d := by
    unfold concat
    rw [List.flatMap_append, List.flatMap_cons]
    have hlen : (before.flatMap (Region.bytes m)).length = totalLength before :=
      length_concat m before
    rw [List.drop_append, hlen, List.drop_eq_nil_of_le (by rw [hlen]; exact hle), List.nil_append,
      List.drop_append_of_le_length (by rw [length_bytes]; omega),
      List.take_append_of_le_length (by rw [List.length_drop, length_bytes]; omega)]
  unfold currValue
  dsimp only
  rw [if_neg (Nat.not_lt.mpr hle), peeks_of_le (by rw [length_bytes]; exact hends), hbytes]
  rfl

theorem region_unique {before before' after after' : List Region} {r r' : Region} {idx : ℕ}
    (heq : before ++ r :: after = before' ++ r' :: after') (hle : totalLength before ≤ idx)
    (hlt : idx < totalLength before + r.len) (hle' : totalLength before' ≤ idx)
    (hlt' : idx < totalLength before' + r'.len) : before = before' ∧ r = r' := by
  rcases List.append_eq_append_iff.mp heq with ⟨as, hbefore', hrest⟩ | ⟨as, hbefore, hrest⟩
  · cases as with
    | nil =>
      rw [List.nil_append] at hrest
      rw [List.append_nil] at hbefore'
      exact ⟨hbefore'.symm, (List.cons.inj hrest).1⟩
    | cons a as =>
      obtain ⟨rfl, -⟩ := List.cons.inj hrest
      rw [hbefore', totalLength_append, totalLength_cons] at hle'
      omega
  · cases as with
    | nil =>
      rw [List.nil_append] at hrest
      rw [List.append_nil] at hbefore
      exact ⟨hbefore, (List.cons.inj hrest).1.symm⟩
    | cons a as =>
      obtain ⟨rfl, -⟩ := List.cons.inj hrest
      rw [hbefore, totalLength_append, totalLength_cons] at hle
      omega

/-- An item that goes beyond the end of its region cannot be read. -/
theorem currValue_misaligned (h : Holds s regions) (hsmall : totalLength regions < 2 ^ 32)
    {before after : List Region} {r : Region} (hregions : regions = before ++ r :: after)
    (d idx : ℕ)
    (hin : totalLength before ≤ idx) (hlt : idx < totalLength before + r.len)
    (hout : totalLength before + r.len < idx + d) (curr : Option Region) :
    ∃ offset curr', translateAddress s idx curr = (offset, curr') ∧
      currValue s m d idx offset curr' = none := by
  have htotal : idx < totalLength regions := by
    rw [hregions, totalLength_append, totalLength_cons]
    omega
  obtain ⟨before', r', after', hregions', htranslate, hle', hlt'⟩ :=
    translateAddress_spec h hsmall htotal curr
  obtain ⟨rfl, rfl⟩ := region_unique (hregions.symm.trans hregions') hin hlt hle' hlt'
  refine ⟨_, _, htranslate, ?_⟩
  have hpeeks : peeks (r.bytes m) (idx - totalLength before) d = none := by
    unfold peeks
    apply if_neg
    rw [length_bytes]
    omega
  unfold currValue
  dsimp only
  rw [if_neg (Nat.not_lt.mpr hle'), hpeeks]
  rfl

theorem copyRegions_spec {rest : List Region} {offset : ℕ} {buf : List UInt8}
    (hlength : buf.length = offset + totalLength rest) (hsmall : buf.length < 2 ^ 32) :
    copyRegions m rest (rest.map fun r => r.len % 2 ^ 32) offset buf =
      some (buf.take offset ++ concat m rest) := by
  induction rest generalizing offset buf with
  | nil =>
    have hall : buf.take offset = buf := by
      apply List.take_of_length_le
      rw [hlength, totalLength, List.map_nil, List.sum_nil]
      exact le_rfl
    rw [hall]
    exact congrArg some (List.append_nil buf).symm
  | cons r rest ih =>
    rw [totalLength_cons] at hlength
    have hlen : r.len % 2 ^ 32 = r.len := Nat.mod_eq_of_lt (by omega)
    have hend : (offset + r.len) % 2 ^ 32 = offset + r.len := Nat.mod_eq_of_lt (by omega)
    have hbytes : ((r.bytes m).drop 0).take r.len = r.bytes m := by
      rw [List.drop_zero]
      apply List.take_of_length_le
      rw [length_bytes]
    rw [List.map_cons, copyRegions, hlen, hend,
      peeks_of_le (by rw [length_bytes, Nat.zero_add]), Option.bind_some, hbytes, pokes,
      if_pos (by rw [length_bytes]; omega), Option.bind_some, ih]
    · have htake : (buf.take offset ++ r.bytes m ++ buf.drop (offset + (r.bytes m).length)).take
          (offset + r.len) = buf.take offset ++ r.bytes m := by
        apply List.take_left'
        rw [List.length_append, List.length_take, length_bytes]
        omega
      rw [htake, List.append_assoc]
      rfl
    · rw [List.length_append, List.length_append, List.length_take, List.length_drop,
        length_bytes]
      omega
    · rw [List.length_append, List.length_append, List.length_take, List.length_drop,
        length_bytes]
      omega

theorem foldl_addRegion (regions rest : List Region) (s : CheatManager) (h : Holds s regions)
    (htotal : s.totalMemorySize = totalLength regions % 2 ^ 32) :
    let s' := rest.foldl addRegion s
    Holds s' (regions ++ rest) ∧ s'.totalMemorySize = totalLength (regions ++ rest) % 2 ^ 32 ∧
      s'.searchBitSize = s.searchBitSize ∧ s'.bigEndian = s.bigEndian ∧
      s'.numMatches = s.numMatches := by
  induction rest generalizing s regions with
  | nil =>
    rw [List.append_nil]
    exact ⟨h, htotal, rfl, rfl, rfl⟩
  | cons r rest ih =>
    have hnext : Holds (addRegion s r) (regions ++ [r]) := by
      refine ⟨congrArg (· ++ [r]) h.list, ?_⟩
      change s.memorySizeList ++ [r.len % 2 ^ 32] = _
      rw [h.sizes, List.map_append]
      rfl
    have htotal' : (addRegion s r).totalMemorySize = totalLength (regions ++ [r]) % 2 ^ 32 := by
      change (s.totalMemorySize + r.len) % 2 ^ 32 = _
      rw [htotal, totalLength_append, totalLength_cons, totalLength, Nat.mod_add_mod]
      rfl
    obtain ⟨hholds, htot, hbits, hendian, hmatches⟩ :=
      ih (regions ++ [r]) (addRegion s r) hnext htotal'
    rw [List.append_assoc] at hholds htot
    exact ⟨hholds, htot, hbits, hendian, hmatches⟩

/-- What a new search starts with. -/
theorem initialize_eq (descriptors : List MemoryDescriptor) (systemRam : Region) (m : Snapshot)
    (s : CheatManager) :
    ∃ noted : CheatManager,
      Holds noted (searchedRegions descriptors systemRam) ∧
      noted.totalMemorySize =
        totalLength (searchedRegions descriptors systemRam) % 2 ^ 32 ∧
      noted.searchBitSize = s.searchBitSize ∧ noted.bigEndian = s.bigEndian ∧
      noted.numMatches = s.numMatches ∧
      cheatManagerInitializeMemory descriptors systemRam true m s =
        if searchedRegions descriptors systemRam = [] then some noted
        else (initializeSearch m { noted with
          numMatches := noted.totalMemorySize * 8 % 2 ^ 32 / 2 ^ noted.searchBitSize }).map
            fun s => { s with memoryInitialized := true } := by
  set empty : CheatManager := { s with
    totalMemorySize := 0
    currMemoryBuf := none
    memoryBufList := []
    memorySizeList := [] } with hempty
  set accepted := descriptors.filterMap MemoryDescriptor.accepted with haccepted
  obtain ⟨hholds, htotal, hbits, hendian, hmatches⟩ :=
    foldl_addRegion [] accepted empty ⟨rfl, rfl⟩ rfl
  rw [List.nil_append] at hholds htotal
  have hlist : (accepted.foldl addRegion empty).memoryBufList = accepted := hholds.list
  by_cases hnone : accepted = []
  · have hregions : searchedRegions descriptors systemRam =
        if systemRam.len = 0 then [] else [systemRam] := if_pos hnone
    by_cases hram : systemRam.len = 0
    · rw [hregions, if_pos hram]
      refine ⟨accepted.foldl addRegion empty, ?_, ?_, hbits, hendian, hmatches, ?_⟩
      · rw [← hnone]
        exact hholds
      · rw [← hnone]
        exact htotal
      · rw [if_pos rfl]
        exact if_pos ⟨hlist.trans hnone, hram⟩
    · rw [hregions, if_neg hram]
      obtain ⟨hholds', htotal', hbits', hendian', hmatches'⟩ :=
        foldl_addRegion [] [systemRam] empty ⟨rfl, rfl⟩ rfl
      refine ⟨addRegion empty systemRam, hholds', htotal', hbits', hendian', hmatches', ?_⟩
      rw [if_neg (List.cons_ne_nil _ _)]
      unfold cheatManagerInitializeMemory
      dsimp only
      rw [← hempty, ← haccepted, hnone, List.foldl_nil, if_neg fun h => hram h.2, if_pos rfl]
      rfl
  · have hregions : searchedRegions descriptors systemRam = accepted := if_neg hnone
    rw [hregions]
    refine ⟨accepted.foldl addRegion empty, hholds, htotal, hbits, hendian, hmatches, ?_⟩
    have hsome : (accepted.foldl addRegion empty).memoryBufList ≠ [] := by
      rw [hlist]
      exact hnone
    rw [if_neg hnone]
    unfold cheatManagerInitializeMemory
    dsimp only
    rw [← hempty, ← haccepted, if_neg fun h => hsome h.1, if_neg hsome]
    rfl

end RetroArch.Cheats
