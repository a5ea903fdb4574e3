/- The builds of the scans: with vectors, with whole machine words, and without unaligned
   accesses. In each of them the patches are exact. -/

import RetroArch.Rewind.Patch

namespace RetroArch.Rewind.Variants

open Patch

/-- `__SSE2__`, whether a `size_t` has eight bytes or four, and `NO_UNALIGNED_MEM`. -/
structure Build where
  sse2 : Bool
  wide : Bool
  noUnalignedMem : Bool
  deriving DecidableEq

/-- The words of a `size_t`. -/
def Build.sizeWords (build : Build) : ℕ := if build.wide then 4 else 2

/-- The words in front of the next aligned one, as far as they are the same. The blocks
themselves are aligned, so that alignment is a matter of the place in the block. -/
def skipUnaligned (w : ℕ) : ℕ → List UInt16 → List UInt16 → Option ℕ
  | pos, a :: as, b :: bs =>
    if pos % w ≠ 0 ∧ a = b then (skipUnaligned w (pos + 1) as bs).map (· + 1) else some 0
  | _, _, _ => none

/-- The loop over `size_t` of `w` words. -/
def scanBig (w : ℕ) : ℕ → List UInt16 → List UInt16 → Option ℕ
  | 0, _, _ => none
  | fuel + 1, a, b =>
    if w ≤ a.length ∧ w ≤ b.length then
      if a.take w = b.take w then (scanBig w fuel (a.drop w) (b.drop w)).map (· + w)
      else some 0
    else none

def scanChange : List UInt16 → List UInt16 → Option ℕ
  | a :: as, b :: bs => if a = b then (scanChange as bs).map (· + 1) else some 0
  | _, _ => none

/-- `find_change` from a place in the block. -/
def Build.findChange (build : Build) (pos : ℕ) (a b : List UInt16) : Option ℕ :=
  if build.sse2 then Patch.findChange a b
  else
    (if build.noUnalignedMem then skipUnaligned build.sizeWords pos a b else some 0).bind
      fun i =>
        if build.noUnalignedMem ∧ a[i]? ≠ b[i]? then some i
        else
          (scanBig build.sizeWords a.length (a.drop i) (b.drop i)).bind fun j =>
            (scanChange (a.drop (i + j)) (b.drop (i + j))).map (i + j + ·)

/-- `find_same` from a place in the block. -/
def Build.findSame (build : Build) (pos : ℕ) (a b : List UInt16) : Option ℕ :=
  if build.noUnalignedMem then
    a[0]?.bind fun a₀ => b[0]?.bind fun b₀ =>
      let i := if pos % 2 ≠ 0 ∧ a₀ ≠ b₀ then 1 else 0
      a[i]?.bind fun aᵢ => b[i]?.bind fun bᵢ =>
        if aᵢ = bᵢ then some i
        else
          (scanSame (a.drop i) (b.drop i)).map fun j =>
            if i + j ≠ 0 ∧ a[i + j - 1]? = b[i + j - 1]? then i + j - 1 else i + j
  else Patch.findSame a b

section Compressing

variable (build : Build)

/-- The loop of `state_manager_raw_compress` in a build. -/
def compressFrom : ℕ → ℕ → List UInt16 → List UInt16 → ℕ → Option (List UInt16)
  | 0, _, _, _, _ => none
  | fuel + 1, pos, old16, new16, num16s =>
    if num16s = 0 then some [0, 0, 0]
    else
      (build.findChange pos old16 new16).bind fun skip =>
        if num16s ≤ skip then some [0, 0, 0]
        else
          let pos := pos + skip
          let old16 := old16.drop skip
          let new16 := new16.drop skip
          let num16s := num16s - skip
          if 0xFFFF < skip then
            let skip := if 0xFFFFFFFF < skip then 0xFFFFFFFF else skip
            (compressFrom fuel pos old16 new16 num16s).map fun rest =>
              0 :: UInt16.ofNat skip :: UInt16.ofNat (skip >>> 16) :: rest
          else
            (build.findSame pos old16 new16).bind fun changed =>
              let changed := if 0xFFFF < changed then 0xFFFF else changed
              (compressFrom fuel (pos + changed) (old16.drop changed) (new16.drop changed)
                (num16s - changed)).map fun rest =>
                  UInt16.ofNat changed :: UInt16.ofNat skip :: (old16.take changed ++ rest)

def rawCompress (src dst : List UInt16) (len : ℕ) : Option (List UInt16) :=
  compressFrom build ((len + 1) / 2 + 1) 0 src dst ((len + 1) / 2)

end Compressing

section FindChange

variable {p as bs : List UInt16} {x y : UInt16}

theorem skipUnaligned_le (p as bs : List UInt16) (w pos : ℕ) (hxy : x ≠ y) :
    ∃ i ≤ p.length, skipUnaligned w pos (p ++ x :: as) (p ++ y :: bs) = some i := by
  induction p generalizing pos with
  | nil =>
    refine ⟨0, Nat.le_refl 0, ?_⟩
    rw [List.nil_append, List.nil_append, skipUnaligned, if_neg (fun h => hxy h.2)]
  | cons c p ih =>
    rw [List.cons_append, List.cons_append, skipUnaligned]
    split_ifs with h
    · obtain ⟨i, hi, hskip⟩ := ih (pos + 1)
      refine ⟨i + 1, Nat.succ_le_succ hi, ?_⟩
      rw [hskip]
      rfl
    · exact ⟨0, Nat.zero_le _, rfl⟩

theorem scanBig_le {w fuel : ℕ} (hw : 0 < w) (hxy : x ≠ y) (ha : w ≤ as.length + 1)
    (hb : w ≤ bs.length + 1) (hfuel : p.length < fuel) :
    ∃ j ≤ p.length, scanBig w fuel (p ++ x :: as) (p ++ y :: bs) = some j := by
  induction fuel generalizing p with
  | zero => exact absurd hfuel (Nat.not_lt_zero _)
  | succ fuel ih =>
    have hroom : w ≤ (p ++ x :: as).length ∧ w ≤ (p ++ y :: bs).length := by
      simp only [List.length_append, List.length_cons]
      omega
    rw [scanBig, if_pos hroom]
    by_cases hlong : w ≤ p.length
    · have hsame : (p ++ x :: as).take w = (p ++ y :: bs).take w := by
        rw [List.take_append_of_le_length hlong, List.take_append_of_le_length hlong]
      have hrest : (p.drop w).length < fuel := by
        rw [List.length_drop]
        omega
      obtain ⟨j, hj, hscan⟩ := ih hrest
      rw [if_pos hsame, List.drop_append_of_le_length hlong,
        List.drop_append_of_le_length hlong, hscan]
      rw [List.length_drop] at hj
      exact ⟨j + w, by omega, rfl⟩
    · have hdiff : (p ++ x :: as).take w ≠ (p ++ y :: bs).take w := by
        intro heq
        have hword := congrArg (·[p.length]?) heq
        simp only [List.getElem?_take] at hword
        rw [if_pos (Nat.lt_of_not_le hlong), if_pos (Nat.lt_of_not_le hlong)] at hword
        simp at hword
        exact hxy hword
      rw [if_neg hdiff]
      exact ⟨0, Nat.zero_le _, rfl⟩

theorem scanChange_append (hxy : x ≠ y) :
    scanChange (p ++ x :: as) (p ++ y :: bs) = some p.length := by
  induction p with
  | nil => rw [List.nil_append, List.nil_append, scanChange, if_neg hxy]; rfl
  | cons c p ih =>
    rw [List.cons_append, List.cons_append, scanChange, if_pos rfl, ih]
    rfl

theorem Build.findChange_append (build : Build) (pos : ℕ) (hxy : x ≠ y) (ha : 7 ≤ as.length)
    (hb : 7 ≤ bs.length) :
    build.findChange pos (p ++ x :: as) (p ++ y :: bs) = some p.length := by
  have hwords : 0 < build.sizeWords ∧ build.sizeWords ≤ 4 := by
    rw [Build.sizeWords]
    split_ifs <;> omega
  have hfrom : ∀ i ≤ p.length,
      ((scanBig build.sizeWords (p ++ x :: as).length ((p ++ x :: as).drop i)
        ((p ++ y :: bs).drop i)).bind fun j =>
          (scanChange ((p ++ x :: as).drop (i + j)) ((p ++ y :: bs).drop (i + j))).map
            (i + j + ·)) = some p.length := by
    intro i hi
    have hfuel : (p.drop i).length < (p ++ x :: as).length := by
      rw [List.length_drop, List.length_append, List.length_cons]
      omega
    obtain ⟨j, hj, hscan⟩ := scanBig_le (p := p.drop i) hwords.1 hxy
      (show build.sizeWords ≤ as.length + 1 by omega)
      (show build.sizeWords ≤ bs.length + 1 by omega) hfuel
    rw [List.length_drop] at hj
    have hij : i + j ≤ p.length := by omega
    rw [List.drop_append_of_le_length hi, List.drop_append_of_le_length hi, hscan,
      Option.bind_some, List.drop_append_of_le_length hij, List.drop_append_of_le_length hij,
      scanChange_append hxy, Option.map_some, List.length_drop]
    congr 1
    omega
  rw [Build.findChange]
  split_ifs with hsse hun
  · exact Patch.findChange_append p hxy ha hb
  · obtain ⟨i, hi, hskip⟩ := skipUnaligned_le p as bs build.sizeWords pos hxy
    rw [hskip, Option.bind_some]
    split_ifs with hdiff
    · -- the scan stopped at a word that is not the same
      congr 1
      by_contra hne
      refine hdiff.2 ?_
      rw [List.getElem?_append_left (by omega), List.getElem?_append_left (by omega)]
    · exact hfrom i hi
  · rw [Option.bind_some, if_neg (fun h => hun h.1)]
    exact hfrom 0 (Nat.zero_le _)

/-- Either the states are the same and the scan stops in the padding, or it stops at the first
change. -/
theorem Build.findChange_cases (build : Build) (pos : ℕ) {wo wn : List UInt16} {m : ℕ}
    {u v : UInt16} (huv : u ≠ v) (ho : wo.length = m) (hn : wn.length = m) :
    (wo = wn ∧ build.findChange pos (wo ++ padding u) (wn ++ padding v) = some (m + 3)) ∨
      ∃ p x y so sn, x ≠ y ∧ wo = p ++ x :: so ∧ wn = p ++ y :: sn ∧
        build.findChange pos (wo ++ padding u) (wn ++ padding v) = some p.length := by
  rcases Patch.findChange_cases huv ho hn with
    ⟨rfl, -⟩ | ⟨p, x, y, so, sn, hxy, rfl, rfl, -⟩
  · refine .inl ⟨rfl, ?_⟩
    have hroom : 7 ≤ ([0, 0, 0, 0, 0, 0, 0, 0] : List UInt16).length := by decide
    have hscan := build.findChange_append (p := wo ++ [0, 0, 0]) pos huv hroom hroom
    rw [List.append_assoc, List.append_assoc, List.length_append, ho] at hscan
    exact hscan
  · refine .inr ⟨p, x, y, so, sn, hxy, rfl, rfl, ?_⟩
    rw [List.append_assoc, List.append_assoc]
    exact build.findChange_append pos hxy (by simp [padding]) (by simp [padding])

end FindChange

section FindSame

variable {wa wb : List UInt16} {m : ℕ} {u v : UInt16}

private theorem head_padding (u : UInt16) (w : List UInt16) :
    ∃ a, (w ++ padding u)[0]? = some a := by
  cases w with
  | nil => exact ⟨0, rfl⟩
  | cons a w => exact ⟨a, rfl⟩

/-- The aligned scan either stops behind one changed word or goes on as the other one does. -/
theorem Build.findSame_aligned {build : Build} (hun : build.noUnalignedMem = true) (pos : ℕ)
    (hne : (wa ++ padding u)[0]? ≠ (wb ++ padding v)[0]?) :
    build.findSame pos (wa ++ padding u) (wb ++ padding v) =
      if pos % 2 = 0 then Patch.findSame (wa ++ padding u) (wb ++ padding v)
      else if (wa ++ padding u)[1]? = (wb ++ padding v)[1]? then some 1
      else (Patch.findSame ((wa ++ padding u).drop 1) ((wb ++ padding v).drop 1)).map
        (· + 1) := by
  obtain ⟨a₀, ha₀⟩ := head_padding u wa
  obtain ⟨b₀, hb₀⟩ := head_padding v wb
  have hdiff : a₀ ≠ b₀ := by
    rintro rfl
    exact hne (ha₀.trans hb₀.symm)
  have hsecond : ∀ (w : List UInt16) (t : UInt16), ∃ a, (w ++ padding t)[1]? = some a := by
    intro w t
    exact ⟨_, List.getElem?_eq_getElem (by simp [padding])⟩
  obtain ⟨a₁, ha₁⟩ := hsecond wa u
  obtain ⟨b₁, hb₁⟩ := hsecond wb v
  rw [Build.findSame, if_pos hun, ha₀, hb₀, Option.bind_some, Option.bind_some]
  by_cases hpos : pos % 2 = 0
  · simp only [hpos, ne_eq, not_true_eq_false, false_and, if_false, if_true, ha₀, hb₀,
      Option.bind_some, hdiff, List.drop_zero, Nat.zero_add]
    rfl
  · simp only [hpos, ne_eq, not_false_eq_true, hdiff, and_self, if_true, if_false, ha₁, hb₁,
      Option.bind_some, Option.some.injEq]
    by_cases hone : a₁ = b₁
    · rw [if_pos hone, if_pos hone]
    · rw [if_neg hone, if_neg hone, Patch.findSame, Option.map_map]
      -- the first pair is not the same, so that the step back stays behind it
      have hpair : ∀ i, scanSame ((wa ++ padding u).drop 1) ((wb ++ padding v).drop 1) = some i →
          i ≠ 0 := by
        rintro i hi rfl
        have hword : ∀ {a b : List UInt16}, scanSame a b = some 0 → a[0]? = b[0]? := by
          intro a b hzero
          rcases a with _ | ⟨c₀, _ | ⟨c₁, c⟩⟩
          · simp [scanSame] at hzero
          · simp [scanSame] at hzero
          · rcases b with _ | ⟨d₀, _ | ⟨d₁, d⟩⟩
            · simp [scanSame] at hzero
            · simp [scanSame] at hzero
            · rw [scanSame] at hzero
              split_ifs at hzero with heq
              · simp [heq.1]
              · obtain ⟨k, -, hk⟩ := Option.map_eq_some_iff.mp hzero
                exact absurd hk (by omega)
        have hsame := hword hi
        rw [List.getElem?_drop, List.getElem?_drop, ha₁, hb₁] at hsame
        exact hone (Option.some.inj hsame)
      cases hscan : scanSame ((wa ++ padding u).drop 1) ((wb ++ padding v).drop 1) with
      | none => rfl
      | some i =>
        have hi := hpair i hscan
        simp only [Option.map_some, Function.comp_apply, List.getElem?_drop]
        have hback : 1 + i - 1 = 1 + (i - 1) := by omega
        rw [hback]
        by_cases hlast : (wa ++ padding u)[1 + (i - 1)]? = (wb ++ padding v)[1 + (i - 1)]?
        · rw [if_pos ⟨by omega, hlast⟩, if_pos ⟨hi, hlast⟩]
          congr 1
          omega
        · rw [if_neg (fun h => hlast h.2), if_neg (fun h => hlast h.2)]
          congr 1
          omega

theorem Build.findSame_spec (build : Build) (pos : ℕ) (ha : wa.length = m)
    (hb : wb.length = m) (hne : (wa ++ padding u)[0]? ≠ (wb ++ padding v)[0]?) :
    ∃ c, build.findSame pos (wa ++ padding u) (wb ++ padding v) = some c ∧ 0 < c ∧ c ≤ m := by
  have hplain : ∃ c, Patch.findSame (wa ++ padding u) (wb ++ padding v) = some c ∧ 0 < c ∧
      c ≤ m := by
    obtain ⟨c, hc, hpos, hle, -⟩ := Patch.findSame_spec u v ha hb hne
    exact ⟨c, hc, hpos, hle⟩
  have hm : 0 < m := by
    obtain ⟨c, -, hpos, hle⟩ := hplain
    omega
  by_cases hun : build.noUnalignedMem = true
  · rw [build.findSame_aligned hun pos hne]
    split_ifs with heven hone
    · exact hplain
    · exact ⟨1, rfl, Nat.one_pos, hm⟩
    · have ha' : (wa.drop 1).length = m - 1 := by rw [List.length_drop, ha]
      have hb' : (wb.drop 1).length = m - 1 := by rw [List.length_drop, hb]
      have hda : (wa ++ padding u).drop 1 = wa.drop 1 ++ padding u :=
        List.drop_append_of_le_length (by omega)
      have hdb : (wb ++ padding v).drop 1 = wb.drop 1 ++ padding v :=
        List.drop_append_of_le_length (by omega)
      have hne' : (wa.drop 1 ++ padding u)[0]? ≠ (wb.drop 1 ++ padding v)[0]? := by
        rw [← hda, ← hdb, List.getElem?_drop, List.getElem?_drop]
        exact hone
      obtain ⟨c, hc, hpos, hle, -⟩ := Patch.findSame_spec u v ha' hb' hne'
      rw [hda, hdb, hc]
      exact ⟨c + 1, rfl, Nat.succ_pos c, by omega⟩
  · rw [Build.findSame, if_neg hun]
    exact hplain

end FindSame

section Exactness

variable {o n r : List UInt16}

theorem compressFrom_blocks (build : Build) {u v : UInt16} (huv : u ≠ v) {fuel m : ℕ} (pos : ℕ)
    {wo wn : List UInt16} (ho : wo.length = m) (hn : wn.length = m) (hfuel : m < fuel) :
    ∃ r, compressFrom build fuel pos (wo ++ padding u) (wn ++ padding v) m = some r ∧
      Blocks wo wn r := by
  induction fuel generalizing pos m wo wn with
  | zero => exact absurd hfuel (Nat.not_lt_zero m)
  | succ fuel ih =>
    rw [compressFrom]
    split_ifs with hzero
    · subst hzero
      rw [List.eq_nil_of_length_eq_zero ho, List.eq_nil_of_length_eq_zero hn]
      exact ⟨_, rfl, .same []⟩
    rcases build.findChange_cases pos huv ho hn with
      ⟨rfl, hfind⟩ | ⟨p, x, y, so, sn, hxy, rfl, rfl, hfind⟩
    · rw [hfind, Option.bind_some, if_pos (by omega)]
      exact ⟨_, rfl, .same wo⟩
    rw [List.length_append] at ho hn
    have hpos : 0 < (x :: so).length := Nat.zero_lt_succ _
    have hlen : (x :: so).length = m - p.length := by omega
    have hlen' : (y :: sn).length = m - p.length := by omega
    rw [hfind, Option.bind_some, if_neg (by omega)]
    simp only [List.append_assoc, List.drop_left]
    by_cases hlong : 0xFFFF < p.length
    · obtain ⟨r, hr, hblocks⟩ := ih (pos + p.length) hlen hlen' (by omega)
      rw [if_pos hlong, hr]
      exact ⟨_, rfl, .long hlong hpos hblocks⟩
    · obtain ⟨c, hsame, hc, hcm⟩ := build.findSame_spec (u := u) (v := v) (pos + p.length)
        hlen hlen' (by simpa using hxy)
      rw [if_neg hlong, hsame, Option.bind_some]
      obtain ⟨k, hk⟩ : ∃ k, k = if 0xFFFF < c then 0xFFFF else c := ⟨_, rfl⟩
      have hkc : 0 < k ∧ k ≤ c ∧ k ≤ 0xFFFF := by
        split_ifs at hk <;> omega
      obtain ⟨htake, hdrop⟩ := length_take_drop hlen (k := k) (by omega)
      obtain ⟨htake', hdrop'⟩ := length_take_drop hlen' (k := k) (by omega)
      obtain ⟨r, hr, hblocks⟩ := ih (pos + p.length + k) hdrop hdrop' (by omega)
      rw [← hk, List.drop_append_of_le_length (by omega),
        List.drop_append_of_le_length (by omega), List.take_append_of_le_length (by omega), hr]
      refine ⟨_, rfl, ?_⟩
      have hblock := Blocks.block (p := p) (d := (x :: so).take k) (e := (y :: sn).take k)
        (Nat.le_of_not_lt hlong) (by omega) (by omega) (htake'.trans htake.symm) hblocks
      rw [List.take_append_drop, List.take_append_drop, htake] at hblock
      exact hblock

theorem decompressAt_cut (h : Blocks o n r) (hlen : o.length ≤ 2 ^ 32) (fuel : ℕ) {k : ℕ}
    (hk : k < r.length) (t : List UInt16) :
    decompressAt fuel (r.take k) (n ++ t) = none := by
  induction h generalizing fuel k with
  | same w =>
    cases fuel with
    | zero => rfl
    | succ fuel =>
      have hfew : k = 0 ∨ k = 1 ∨ k = 2 := by
        simp only [List.length_cons, List.length_nil] at hk
        omega
      rcases hfew with rfl | rfl | rfl <;> rfl
  | @long p o n r hp ho hrest ih =>
    rw [List.length_append] at hlen
    cases fuel with
    | zero => rfl
    | succ fuel =>
      match k with
      | 0 => rfl
      | 1 => rfl
      | 2 => rfl
      | k + 3 =>
        simp only [List.length_cons] at hk
        simp only [List.take_succ_cons]
        rw [if_neg (by omega), List.append_assoc, decompressAt_skip hp (by omega) rfl,
          ih (by omega) fuel (by omega)]
        rfl
  | @block p d e o n r hp hd hd' he hrest ih =>
    simp only [List.length_append] at hlen
    cases fuel with
    | zero => rfl
    | succ fuel =>
      have hcount : (UInt16.ofNat d.length).toNat = d.length := by
        rw [UInt16.toNat_ofNat']
        omega
      have hne : UInt16.ofNat d.length ≠ 0 := by
        intro h
        rw [h] at hcount
        exact Nat.ne_of_lt hd hcount
      match k with
      | 0 => rfl
      | 1 =>
        simp only [List.take_succ_cons, List.take_zero]
        rw [decompressAt, if_pos hne]
      | k + 2 =>
        simp only [List.length_cons, List.length_append] at hk
        simp only [List.take_succ_cons]
        by_cases hinside : k < d.length
        · have hshort : ¬ ((UInt16.ofNat d.length).toNat ≤ ((d ++ r).take k).length ∧
              (UInt16.ofNat p.length).toNat + (UInt16.ofNat d.length).toNat ≤
                (p ++ (e ++ n) ++ t).length) := by
            rw [hcount, List.length_take]
            omega
          rw [decompressAt, if_pos hne]
          exact if_neg hshort
        · obtain ⟨j, rfl⟩ : ∃ j, k = d.length + j := ⟨k - d.length, by omega⟩
          rw [List.take_length_add_append, List.append_assoc, List.append_assoc,
            decompressAt_block hd hd' hp rfl rfl he, ih (by omega) fuel (by omega)]
          rfl

end Exactness

end RetroArch.Rewind.Variants
