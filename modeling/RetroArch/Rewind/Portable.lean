/- How much room a patch needs in the build without unaligned accesses. -/

import RetroArch.Rewind.Variants

namespace RetroArch.Rewind.Portable

open Patch Variants

/-- The words at a place are the same; behind the states all are. -/
def Same (o n : List UInt16) (i : ℕ) : Prop := o[i]? = n[i]?

instance (o n : List UInt16) (i : ℕ) : Decidable (Same o n i) :=
  inferInstanceAs (Decidable (_ = _))

/-- Where a stretch of changed words that begins at `pos` ends: behind one word at an odd place
if the next one is the same, or else at the first pair at an even place that is the same, one
word before it if that one is the same as well. -/
inductive StretchEnd (pos : ℕ) (o n : List UInt16) : ℕ → Prop
  | lone (hodd : pos % 2 ≠ 0) (hnext : Same o n 1) : StretchEnd pos o n 1
  | pair {q : ℕ} (hnext : pos % 2 ≠ 0 → ¬ Same o n 1) (heven : (pos + q) % 2 = 0)
      (hpair : Same o n q ∧ Same o n (q + 1))
      (hfirst : ∀ q' < q, (pos + q') % 2 = 0 → ¬ (Same o n q' ∧ Same o n (q' + 1))) :
      StretchEnd pos o n (if Same o n (q - 1) then q - 1 else q)

/-- How the two states divide from the place `pos` on: how many stretches of changed words, of
at most 65535 each, how many longer stretches of unchanged ones, and how many unchanged words in
all lie between the stretches. -/
inductive Division : ℕ → List UInt16 → List UInt16 → ℕ → ℕ → ℕ → Prop
  | same (pos : ℕ) (w : List UInt16) : Division pos w w 0 0 w.length
  | long {pos stretches longs passed : ℕ} {x y : UInt16} {p o n : List UInt16}
      (hp : 0xFFFF < p.length) (hxy : x ≠ y)
      (hrest : Division (pos + p.length) (x :: o) (y :: n) stretches longs passed) :
      Division pos (p ++ x :: o) (p ++ y :: n) stretches (longs + 1) (p.length + passed)
  | stretch {pos c stretches longs passed : ℕ} {x y : UInt16} {p so sn : List UInt16}
      (hp : p.length ≤ 0xFFFF) (hxy : x ≠ y) (hlen : so.length = sn.length)
      (hend : StretchEnd (pos + p.length) (x :: so) (y :: sn) c)
      (hrest : Division (pos + p.length + min c 0xFFFF) ((x :: so).drop (min c 0xFFFF))
        ((y :: sn).drop (min c 0xFFFF)) stretches longs passed) :
      Division pos (p ++ x :: so) (p ++ y :: sn) (stretches + 1) longs (p.length + passed)

/-- The overhead of a patch is paid for by unchanged words, and by two words for every started
65535 of the state. -/
def Paid (src dst : List UInt16) (len : ℕ) : Prop :=
  ∃ stretches longs passed, Division 0 src dst stretches longs passed ∧
    2 * stretches + 3 * longs ≤ passed + 2 * ((len + 131069) / 131070)

section Ends

variable {pos c m : ℕ} {o n : List UInt16} {u v : UInt16}

theorem same_padding (ho : o.length = m) (hn : n.length = m) {i : ℕ} (hi : i < m + 3) :
    (o ++ padding u)[i]? = (n ++ padding v)[i]? ↔ Same o n i := by
  by_cases hin : i < m
  · rw [List.getElem?_append_left (by omega), List.getElem?_append_left (by omega)]
    rfl
  · have hbehind : Same o n i := by
      rw [Same, List.getElem?_eq_none (by omega), List.getElem?_eq_none (by omega)]
    refine iff_of_true ?_ hbehind
    rw [List.getElem?_append_right (by omega), List.getElem?_append_right (by omega), ho, hn]
    have hfew : i - m = 0 ∨ i - m = 1 ∨ i - m = 2 := by omega
    rcases hfew with h | h | h <;> rw [h] <;> rfl

theorem two_words (l : List UInt16) (h : 1 < l.length) : ∃ x y t, l = x :: y :: t := by
  rcases l with _ | ⟨x, _ | ⟨y, t⟩⟩
  · cases h
  · exact absurd h (Nat.lt_irrefl 1)
  · exact ⟨x, y, t, rfl⟩

theorem scanSame_first {a b : List UInt16} {j : ℕ} (ha : 2 * j + 1 < a.length)
    (hb : 2 * j + 1 < b.length)
    (hpair : a[2 * j]? = b[2 * j]? ∧ a[2 * j + 1]? = b[2 * j + 1]?)
    (hfirst : ∀ k < j, ¬ (a[2 * k]? = b[2 * k]? ∧ a[2 * k + 1]? = b[2 * k + 1]?)) :
    scanSame a b = some (2 * j) := by
  induction j generalizing a b with
  | zero =>
    obtain ⟨a₀, a₁, as, rfl⟩ := two_words a (by omega)
    obtain ⟨b₀, b₁, bs, rfl⟩ := two_words b (by omega)
    have heq : a₀ = b₀ ∧ a₁ = b₁ := by simpa using hpair
    rw [scanSame, if_pos heq]
  | succ j ih =>
    obtain ⟨a₀, a₁, as, rfl⟩ := two_words a (by omega)
    obtain ⟨b₀, b₁, bs, rfl⟩ := two_words b (by omega)
    have hne : ¬ (a₀ = b₀ ∧ a₁ = b₁) := by
      have hzero := hfirst 0 (Nat.succ_pos j)
      simpa using hzero
    simp only [List.length_cons] at ha hb
    have hrest : scanSame as bs = some (2 * j) := ih (by omega) (by omega)
      (by simpa [Nat.mul_add] using hpair)
      (fun k hk => by simpa [Nat.mul_add] using hfirst (k + 1) (Nat.succ_lt_succ hk))
    rw [scanSame, if_neg hne, hrest]
    rfl

theorem behind_same (ho : o.length = m) (hn : n.length = m) {i : ℕ} (hi : m ≤ i) :
    Same o n i := by
  rw [Same, List.getElem?_eq_none (by omega), List.getElem?_eq_none (by omega)]

theorem StretchEnd.le (h : StretchEnd pos o n c) (ho : o.length = m) (hn : n.length = m)
    (hne : ¬ Same o n 0) : 0 < c ∧ c ≤ m := by
  have hm : 0 < m := by
    by_contra hzero
    exact hne (behind_same ho hn (by omega))
  cases h with
  | lone hodd hnext => exact ⟨Nat.one_pos, hm⟩
  | @pair q hnext heven hpair hfirst =>
    have hq : q ≤ m + 1 := by
      by_contra hgt
      obtain ⟨k, hk, hk'⟩ : ∃ k, (k = m ∨ k = m + 1) ∧ (pos + k) % 2 = 0 := by
        rcases Nat.mod_two_eq_zero_or_one (pos + m) with h0 | h1
        · exact ⟨m, .inl rfl, h0⟩
        · exact ⟨m + 1, .inr rfl, by omega⟩
      exact hfirst k (by omega) hk'
        ⟨behind_same ho hn (by omega), behind_same ho hn (by omega)⟩
    have hpos : q ≠ 0 := by
      rintro rfl
      exact hne hpair.1
    split_ifs with hback
    · have hone : q ≠ 1 := by
        rintro rfl
        exact hne hback
      omega
    · have hlt : q ≠ m + 1 := by
        rintro rfl
        exact hback (behind_same ho hn (by omega))
      omega

theorem StretchEnd.findSame {build : Build} (hun : build.noUnalignedMem = true)
    (h : StretchEnd pos o n c) (ho : o.length = m) (hn : n.length = m) (hne : ¬ Same o n 0) :
    build.findSame pos (o ++ padding u) (n ++ padding v) = some c := by
  have hm : 0 < m := by
    by_contra hzero
    exact hne (behind_same ho hn (by omega))
  have hdiff : (o ++ padding u)[0]? ≠ (n ++ padding v)[0]? := by
    rw [ne_eq, same_padding ho hn (by omega)]
    exact hne
  have hpad : (padding u).length = 12 ∧ (padding v).length = 12 := ⟨rfl, rfl⟩
  rw [build.findSame_aligned hun pos hdiff]
  cases h with
  | lone hodd hnext =>
    rw [if_neg hodd, if_pos ((same_padding ho hn (by omega)).mpr hnext)]
  | @pair q hnext heven hpair hfirst =>
    have hend := StretchEnd.le (.pair hnext heven hpair hfirst) ho hn hne
    have hq : q ≤ m + 1 := by
      split_ifs at hend <;> omega
    have hback : ∀ i, i ≤ q → ((o ++ padding u)[i]? = (n ++ padding v)[i]? ↔ Same o n i) :=
      fun i hi => same_padding ho hn (by omega)
    have hlast : (o ++ padding u)[q + 1]? = (n ++ padding v)[q + 1]? ↔ Same o n (q + 1) :=
      same_padding ho hn (by omega)
    by_cases hodd : pos % 2 = 0
    · rw [if_pos hodd]
      obtain ⟨j, rfl⟩ : ∃ j, q = 2 * j := ⟨q / 2, by omega⟩
      have hscan : scanSame (o ++ padding u) (n ++ padding v) = some (2 * j) := by
        refine scanSame_first (by rw [List.length_append]; omega)
          (by rw [List.length_append]; omega)
          ⟨(hback _ (Nat.le_refl _)).mpr hpair.1, hlast.mpr hpair.2⟩ ?_
        intro k hk hsame
        exact hfirst (2 * k) (by omega) (by omega)
          ⟨(hback _ (by omega)).mp hsame.1, (hback _ (by omega)).mp hsame.2⟩
      have hpos : 2 * j ≠ 0 := by
        intro hzero
        rw [hzero] at hpair
        exact hne hpair.1
      rw [Patch.findSame, hscan, Option.map_some]
      simp only [hpos, ne_eq, not_false_eq_true, true_and, hback _ (Nat.sub_le _ 1)]
    · have hone := hnext hodd
      rw [if_neg hodd, if_neg (by rw [same_padding ho hn (by omega)]; exact hone)]
      obtain ⟨j, rfl⟩ : ∃ j, q = 2 * j + 1 := ⟨q / 2, by omega⟩
      have hscan : scanSame ((o ++ padding u).drop 1) ((n ++ padding v).drop 1) =
          some (2 * j) := by
        refine scanSame_first (by rw [List.length_drop, List.length_append]; omega)
          (by rw [List.length_drop, List.length_append]; omega) ?_ ?_
        · simp only [List.getElem?_drop, Nat.add_comm 1]
          exact ⟨(hback _ (Nat.le_refl _)).mpr hpair.1, hlast.mpr hpair.2⟩
        · intro k hk hsame
          simp only [List.getElem?_drop, Nat.add_comm 1] at hsame
          exact hfirst (2 * k + 1) (by omega) (by omega)
            ⟨(hback _ (by omega)).mp hsame.1, (hback _ (by omega)).mp hsame.2⟩
      have hpos : 2 * j ≠ 0 := by
        intro hzero
        rw [hzero] at hpair
        exact hone hpair.1
      have hprev : 2 * j - 1 + 1 = 2 * j := by omega
      rw [Patch.findSame, hscan, Option.map_some, Option.map_some]
      simp only [hpos, ne_eq, not_false_eq_true, true_and, List.getElem?_drop,
        Nat.add_comm 1, hprev, hback (2 * j) (Nat.le_succ _), Nat.add_sub_cancel]
      split_ifs
      · rw [hprev]
      · rfl

theorem stretchEnd_exists (pos : ℕ) (ho : o.length = m) (hn : n.length = m) :
    ∃ c, StretchEnd pos o n c := by
  by_cases hlone : pos % 2 ≠ 0 ∧ Same o n 1
  · exact ⟨1, .lone hlone.1 hlone.2⟩
  · have hex : ∃ q, (pos + q) % 2 = 0 ∧ Same o n q ∧ Same o n (q + 1) := by
      rcases Nat.mod_two_eq_zero_or_one (pos + m) with h0 | h1
      · exact ⟨m, h0, behind_same ho hn (by omega), behind_same ho hn (by omega)⟩
      · exact ⟨m + 1, by omega, behind_same ho hn (by omega), behind_same ho hn (by omega)⟩
    classical
    refine ⟨_, .pair (fun hodd hsame => hlone ⟨hodd, hsame⟩) (Nat.find_spec hex).1
      (Nat.find_spec hex).2 ?_⟩
    intro q' hq' heven hpair
    exact Nat.find_min hex hq' ⟨heven, hpair⟩

end Ends

section Lengths

variable {build : Build} {u v : UInt16} {pos stretches longs passed : ℕ} {o n : List UInt16}

theorem Division.length_eq (h : Division pos o n stretches longs passed) :
    o.length = n.length := by
  induction h with
  | same pos w => rfl
  | long hp hxy hrest ih => rw [List.length_append, List.length_append, ih]
  | stretch hp hxy hlen hend hrest ih =>
    simp only [List.length_append, List.length_cons, hlen]

theorem division_exists (pos : ℕ) (hlen : o.length = n.length) :
    ∃ stretches longs passed, Division pos o n stretches longs passed := by
  induction hm : o.length using Nat.strong_induction_on generalizing pos o n with
  | _ m ih =>
    rcases Patch.findChange_cases (show (0 : UInt16) ≠ 1 by decide) hm (hlen.symm.trans hm) with
      ⟨rfl, -⟩ | ⟨p, x, y, so, sn, hxy, rfl, rfl, -⟩
    · exact ⟨0, 0, o.length, .same pos o⟩
    simp only [List.length_append, List.length_cons] at hlen hm
    by_cases hp : 0xFFFF < p.length
    · obtain ⟨stretches, longs, passed, hrest⟩ :=
        ih (x :: so).length (by rw [List.length_cons]; omega) (pos + p.length)
          (show (x :: so).length = (y :: sn).length by simp only [List.length_cons]; omega) rfl
      exact ⟨stretches, longs + 1, p.length + passed, .long hp hxy hrest⟩
    · have hso : so.length = sn.length := by omega
      obtain ⟨c, hend⟩ := stretchEnd_exists (o := x :: so) (n := y :: sn)
        (pos + p.length) rfl (by simp only [List.length_cons, hso])
      have hc := hend.le rfl (by simp only [List.length_cons, hso])
        (fun hsame => hxy (by simpa [Same] using hsame))
      obtain ⟨stretches, longs, passed, hrest⟩ :=
        ih ((x :: so).drop (min c 0xFFFF)).length
          (by rw [List.length_drop, List.length_cons]; omega)
          (pos + p.length + min c 0xFFFF)
          (show ((x :: so).drop (min c 0xFFFF)).length =
              ((y :: sn).drop (min c 0xFFFF)).length by
            simp only [List.length_drop, List.length_cons, hso]) rfl
      exact ⟨stretches + 1, longs, p.length + passed,
        .stretch (Nat.le_of_not_lt hp) hxy hso hend hrest⟩

theorem Division.compress (hun : build.noUnalignedMem = true) (huv : u ≠ v)
    (h : Division pos o n stretches longs passed) {fuel : ℕ} (hfuel : o.length < fuel) :
    ∃ r, compressFrom build fuel pos (o ++ padding u) (n ++ padding v) o.length = some r ∧
      r.length + passed = o.length + 2 * stretches + 3 * longs + 3 := by
  induction h generalizing fuel with
  | same pos w =>
    obtain ⟨fuel, rfl⟩ : ∃ k, fuel = k + 1 := ⟨fuel - 1, by omega⟩
    rw [compressFrom]
    split_ifs with hzero
    · refine ⟨_, rfl, ?_⟩
      simp only [List.length_cons, List.length_nil]
      omega
    · have hroom : 7 ≤ ([0, 0, 0, 0, 0, 0, 0, 0] : List UInt16).length := by decide
      have hscan := build.findChange_append (p := w ++ [0, 0, 0]) pos huv hroom hroom
      rw [List.append_assoc, List.append_assoc, List.length_append] at hscan
      have hpad : ∀ t, w ++ ([0, 0, 0] ++ t :: [0, 0, 0, 0, 0, 0, 0, 0]) = w ++ padding t :=
        fun t => rfl
      rw [hpad, hpad] at hscan
      rw [hscan, Option.bind_some, if_pos (Nat.le_add_right _ _)]
      refine ⟨_, rfl, ?_⟩
      simp only [List.length_cons, List.length_nil]
      omega
  | @long pos stretches longs passed x y p so sn hp hxy hrest ih =>
    obtain ⟨fuel, rfl⟩ : ∃ k, fuel = k + 1 := ⟨fuel - 1, by omega⟩
    have hlen := hrest.length_eq
    simp only [List.length_append, List.length_cons] at hfuel hlen
    obtain ⟨r, hr, hcost⟩ := ih (show (x :: so).length < fuel by
      rw [List.length_cons]; omega)
    have hfind : build.findChange pos (p ++ x :: so ++ padding u) (p ++ y :: sn ++ padding v) =
        some p.length := by
      rw [List.append_assoc, List.append_assoc]
      exact build.findChange_append pos hxy (by simp [padding]) (by simp [padding])
    rw [compressFrom, if_neg (by rw [List.length_append, List.length_cons]; omega), hfind,
      Option.bind_some, if_neg (by rw [List.length_append, List.length_cons]; omega)]
    simp only [List.append_assoc, List.drop_left, List.length_append, Nat.add_sub_cancel_left]
    rw [if_pos hp, hr]
    refine ⟨_, rfl, ?_⟩
    simp only [List.length_cons] at hcost ⊢
    omega
  | @stretch pos c stretches longs passed x y p so sn hp hxy hlen hend hrest ih =>
    obtain ⟨fuel, rfl⟩ : ∃ k, fuel = k + 1 := ⟨fuel - 1, by omega⟩
    have hne : ¬ Same (x :: so) (y :: sn) 0 := fun hsame => hxy (by simpa [Same] using hsame)
    have hcons : (y :: sn).length = (x :: so).length := by
      simp only [List.length_cons, hlen]
    have hc := hend.le rfl hcons hne
    simp only [List.length_append, List.length_cons] at hfuel
    rw [List.length_cons] at hc
    obtain ⟨r, hr, hcost⟩ := ih (show ((x :: so).drop (min c 0xFFFF)).length < fuel by
      rw [List.length_drop, List.length_cons]; omega)
    have hfind : build.findChange pos (p ++ x :: so ++ padding u) (p ++ y :: sn ++ padding v) =
        some p.length := by
      rw [List.append_assoc, List.append_assoc]
      exact build.findChange_append pos hxy (by simp [padding]) (by simp [padding])
    have hmin : (if 0xFFFF < c then 0xFFFF else c) = min c 0xFFFF := by
      split_ifs <;> omega
    rw [compressFrom, if_neg (by rw [List.length_append, List.length_cons]; omega), hfind,
      Option.bind_some, if_neg (by rw [List.length_append, List.length_cons]; omega)]
    simp only [List.append_assoc, List.drop_left, List.length_append, Nat.add_sub_cancel_left]
    rw [if_neg (Nat.not_lt.mpr hp), hend.findSame hun rfl hcons hne, Option.bind_some]
    simp only [hmin]
    have hdrop : (x :: so).length - min c 0xFFFF = ((x :: so).drop (min c 0xFFFF)).length := by
      rw [List.length_drop]
    have htake : ((x :: so).take (min c 0xFFFF)).length = min c 0xFFFF := by
      rw [List.length_take, List.length_cons]
      omega
    rw [List.drop_append_of_le_length (by rw [List.length_cons]; omega),
      List.drop_append_of_le_length (by rw [hcons, List.length_cons]; omega),
      List.take_append_of_le_length (by rw [List.length_cons]; omega), hdrop, hr]
    refine ⟨_, rfl, ?_⟩
    simp only [List.length_cons, List.length_append, htake]
    simp only [List.length_drop, List.length_cons] at hcost
    omega

end Lengths

/-- Without unaligned accesses a patch fits the space set aside for it exactly where its
overhead is paid for. -/
theorem patch_fits_iff (wide : Bool) (len : ℕ) (src dst : List UInt16) (uniq uniq' : UInt16)
    (hsrc : src.length = (len + 1) / 2) (hdst : dst.length = (len + 1) / 2)
    (huniq : uniq ≠ uniq') :
    (∃ patch, rawCompress ⟨false, wide, true⟩ (src ++ padding uniq) (dst ++ padding uniq') len =
        some patch ∧ 2 * patch.length ≤ stateManagerRawMaxsize len) ↔ Paid src dst len := by
  have hcost : ∀ {stretches longs passed : ℕ}, Division 0 src dst stretches longs passed →
      ∃ patch, rawCompress ⟨false, wide, true⟩ (src ++ padding uniq) (dst ++ padding uniq') len =
        some patch ∧
        patch.length + passed = (len + 1) / 2 + 2 * stretches + 3 * longs + 3 := by
    intro stretches longs passed hdiv
    rw [rawCompress, ← hsrc]
    exact hdiv.compress rfl huniq (Nat.lt_succ_self _)
  constructor
  · rintro ⟨patch, hpatch, hfits⟩
    obtain ⟨stretches, longs, passed, hdiv⟩ := division_exists 0 (hsrc.trans hdst.symm)
    obtain ⟨patch', hpatch', hlen⟩ := hcost hdiv
    obtain rfl := Option.some.inj (hpatch.symm.trans hpatch')
    refine ⟨stretches, longs, passed, hdiv, ?_⟩
    rw [stateManagerRawMaxsize] at hfits
    omega
  · rintro ⟨stretches, longs, passed, hdiv, hpaid⟩
    obtain ⟨patch, hpatch, hlen⟩ := hcost hdiv
    refine ⟨patch, hpatch, ?_⟩
    rw [stateManagerRawMaxsize]
    omega

theorem patch_fits_iff_small :
    ([1, 2] : List UInt16).length = (4 + 1) / 2 ∧ ([1, 5] : List UInt16).length = (4 + 1) / 2 ∧
      (0 : UInt16) ≠ 1 ∧
      ((∃ patch, rawCompress ⟨false, true, true⟩ ([1, 2] ++ padding 0) ([1, 5] ++ padding 1) 4 =
          some patch ∧ 2 * patch.length ≤ stateManagerRawMaxsize 4) ↔ Paid [1, 2] [1, 5] 4) :=
  ⟨rfl, rfl, by decide, patch_fits_iff true 4 [1, 2] [1, 5] 0 1 rfl rfl (by decide)⟩

/-- Every other word changed, at the odd places: two words too many for six of them. -/
theorem alternate_words_overflow :
    ¬ ∃ patch, rawCompress ⟨false, true, true⟩ ([0, 1, 0, 1, 0, 1] ++ padding 0)
        ([0, 0, 0, 0, 0, 0] ++ padding 1) 12 = some patch ∧
      2 * patch.length ≤ stateManagerRawMaxsize 12 := by
  have hrun : rawCompress ⟨false, true, true⟩ ([0, 1, 0, 1, 0, 1] ++ padding 0)
      ([0, 0, 0, 0, 0, 0] ++ padding 1) 12 = some [1, 1, 1, 1, 1, 1, 1, 1, 1, 0, 0, 0] := by
    decide
  rintro ⟨patch, hpatch, hfits⟩
  obtain rfl := Option.some.inj (hrun.symm.trans hpatch)
  exact absurd hfits (by decide)

end RetroArch.Rewind.Portable
