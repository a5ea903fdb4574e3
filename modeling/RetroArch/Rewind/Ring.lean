/- The chain of patches in the rewind ring: what a push, a pop and a discarded frame leave of it. -/

import RetroArch.Library.Path
import RetroArch.Rewind.Manager

namespace RetroArch.Rewind.Ring

open Library.Bytes Library.Region Library.Path Patch Manager

variable {data data' : List UInt8} {m p q tail head : ℕ} {r : List UInt16}
  {rs : List (List UInt16)}

/-- One record of the chain: the link to the next one, the patch, the link back. -/
def Record (data : List UInt8) (p : ℕ) (r : List UInt16) (q : ℕ) : Prop :=
  q = p + 16 + 2 * r.length ∧ slice data p q = toLE 8 q ++ (bytes r ++ toLE 8 p)

/-- The record at which the chain turns to the start of the ring; its link back stands there. -/
def Turn (data : List UInt8) (p : ℕ) (r : List UInt16) : Prop :=
  slice data p (p + 8 + 2 * r.length) = toLE 8 8 ++ bytes r ∧
    slice data 0 8 = toLE 8 p

/-- The chain from `tail` to `head`, newest patch first. -/
inductive Chain (data : List UInt8) (m tail head : ℕ) : List (List UInt16) → Prop
  | straight {rs : List (List UInt16)} (path : Trail (Record data) tail head rs) :
      Chain data m tail head rs
  | wrapped {q : ℕ} {r : List UInt16} {old new : List (List UInt16)}
      (before : Trail (Record data) tail q old) (turn : Turn data q r)
      (after : Trail (Record data) 8 head new) (clear : head + 8 < tail)
      (hq : q + m ≤ data.length + 8) : Chain data m tail head (new ++ r :: old)

/-- The ring between two operations. The head never comes closer to the end than one record,
and the tail stands at the first record or clear of it. -/
structure RingInv (data : List UInt8) (m tail head : ℕ) (rs : List (List UInt16)) : Prop where
  word : data.length < 256 ^ 8
  large : 22 ≤ m
  room : 2 * m ≤ data.length
  tail_pos : tail = 8 ∨ 16 < tail
  head_le : head + m ≤ data.length + 8
  chain : Chain data m tail head rs

theorem Record.step (h : Record data p r q) : p + 16 ≤ q := by
  rw [h.1]
  omega

theorem Record.up (h : Record data p r q) : p ≤ q := le_trans (Nat.le_add_right p 16) h.step

theorem Record.le_length (h : Record data p r q) : q ≤ data.length := by
  have hlen := congrArg List.length h.2
  have hq := h.1
  simp only [length_slice, List.length_append, length_toLE, length_bytes] at hlen
  omega

private theorem slice_congr {a b : ℕ} (h : ∀ i, a ≤ i → i < b → data'[i]? = data[i]?) :
    slice data' a b = slice data a b := by
  apply List.ext_getElem?
  intro i
  simp only [getElem?_slice]
  split_ifs with hi
  · exact h _ (Nat.le_add_right a i) hi
  · rfl

theorem Record.congr (h : Record data p r q)
    (same : ∀ i, p ≤ i → i < q → data'[i]? = data[i]?) : Record data' p r q :=
  ⟨h.1, (slice_congr same).trans h.2⟩

theorem Turn.congr (h : Turn data p r) (front : ∀ i, i < 8 → data'[i]? = data[i]?)
    (same : ∀ i, p ≤ i → i < p + 8 + 2 * r.length → data'[i]? = data[i]?) :
    Turn data' p r :=
  ⟨(slice_congr same).trans h.1, (slice_congr fun i _ hi => front i hi).trans h.2⟩

theorem trail_congr {a b : ℕ} (h : Trail (Record data) a b rs)
    (same : ∀ i, a ≤ i → i < b → data'[i]? = data[i]?) : Trail (Record data') a b rs :=
  h.mono (fun _ _ _ => Record.up) fun _ _ _ hc hd hrec =>
    hrec.congr fun i hi hi' => same i (le_trans hc hi) (lt_of_lt_of_le hi' hd)

theorem trail_length {a b : ℕ} (h : Trail (Record data) a b rs) : a + 16 * rs.length ≤ b :=
  h.measure fun _ _ _ => Record.step

theorem readSizeT_of_slice {pos v : ℕ} (hv : v < 256 ^ 8)
    (h : slice data pos (pos + 8) = toLE 8 v) : readSizeT data pos = some v := by
  have hlen := congrArg List.length h
  rw [length_slice, length_toLE] at hlen
  rw [readSizeT, if_pos (by omega), h, ofLE_toLE hv]

theorem words_of_slice {pos : ℕ} (h : slice data pos (pos + 2 * r.length) = bytes r) :
    ∃ junk, words (data.drop pos) = r ++ junk := by
  refine ⟨words ((data.drop pos).drop (2 * r.length)), ?_⟩
  have hfront : (data.drop pos).take (2 * r.length) = bytes r := by
    rw [← h, slice, List.drop_take, Nat.add_sub_cancel_left]
  rw [← words_bytes_append, ← hfront, List.take_append_drop]

theorem Record.next (h : Record data p r q) (hword : data.length < 256 ^ 8) :
    readSizeT data p = some q := by
  have hq := h.1
  refine readSizeT_of_slice (lt_of_le_of_lt h.le_length hword) ?_
  have htake := take_slice data p q 8
  rw [h.2, min_eq_right (by omega), List.take_left' (length_toLE _ _)] at htake
  exact htake.symm

theorem Record.back (h : Record data p r q) (hword : data.length < 256 ^ 8) :
    readSizeT data (q - 8) = some p := by
  have hq := h.1
  have hp : p < 256 ^ 8 := lt_of_le_of_lt (le_trans h.up h.le_length) hword
  refine readSizeT_of_slice hp ?_
  have hdrop := drop_slice data p q (8 + 2 * r.length)
  rw [h.2, ← List.append_assoc, List.drop_left' (by simp)] at hdrop
  rw [hdrop, Nat.sub_add_cancel (by omega)]
  congr 1
  omega

theorem Record.patch (h : Record data p r q) :
    ∃ junk, words (data.drop (p + 8)) = r ++ junk := by
  have hq := h.1
  refine words_of_slice ?_
  have hdrop := drop_slice data p q 8
  rw [h.2, List.drop_left' (length_toLE _ _)] at hdrop
  have htake := take_slice data (p + 8) q (2 * r.length)
  rw [← hdrop, List.take_left' (length_bytes r), min_eq_right (by omega)] at htake
  exact htake.symm

theorem Turn.next (h : Turn data p r) : readSizeT data p = some 8 := by
  refine readSizeT_of_slice (by decide) ?_
  have htake := take_slice data p (p + 8 + 2 * r.length) 8
  rw [h.1, min_eq_right (by omega), List.take_left' (length_toLE _ _)] at htake
  exact htake.symm

theorem Turn.back (h : Turn data p r) (hp : p < 256 ^ 8) : readSizeT data 0 = some p :=
  readSizeT_of_slice hp h.2

theorem Turn.patch (h : Turn data p r) :
    ∃ junk, words (data.drop (p + 8)) = r ++ junk := by
  refine words_of_slice ?_
  have hdrop := drop_slice data p (p + 8 + 2 * r.length) 8
  rw [h.1, List.drop_left' (length_toLE _ _)] at hdrop
  exact hdrop.symm

theorem RingInv.order (h : RingInv data m tail head rs) : tail ≤ head ∨ head + 8 < tail := by
  cases h.chain with
  | straight path => exact .inl (by have := trail_length path; omega)
  | wrapped before turn after clear hq => exact .inr clear

theorem RingInv.empty (h : RingInv data m head head rs) : rs = [] := by
  cases h.chain with
  | straight path =>
    have := trail_length path
    exact List.eq_nil_of_length_eq_zero (by omega)
  | wrapped before turn after clear hq => omega

theorem RingInv.length_lt (h : RingInv data m tail head rs) : rs.length < data.length := by
  have hroom := h.room
  have hlarge := h.large
  have hhead := h.head_le
  cases h.chain with
  | straight path =>
    have := trail_length path
    omega
  | wrapped before turn after clear hq =>
    have hb := trail_length before
    have ha := trail_length after
    simp only [List.length_append, List.length_cons]
    omega

theorem RingInv.pop (h : RingInv data m tail head rs) (hne : head ≠ tail) :
    ∃ start r rest junk, readSizeT data (head - 8) = some start ∧ rs = r :: rest ∧
      words (data.drop (start + 8)) = r ++ junk ∧ RingInv data m tail start rest := by
  have hhead := h.head_le
  have hlarge := h.large
  have hword := h.word
  cases h.chain with
  | straight path =>
    cases path with
    | nil => exact absurd rfl hne
    | @snoc start _ r rest init last =>
      obtain ⟨junk, hpatch⟩ := last.patch
      have hstep := last.up
      exact ⟨start, r, rest, junk, last.back hword, rfl, hpatch, h.word, h.large, h.room,
        h.tail_pos, by omega, .straight init⟩
  | @wrapped q turned old new before turn after clear hq =>
    cases after with
    | nil =>
      obtain ⟨junk, hpatch⟩ := turn.patch
      exact ⟨q, turned, old, junk, turn.back (by omega), rfl, hpatch, h.word, h.large,
        h.room, h.tail_pos, hq, .straight before⟩
    | @snoc start _ r rest init last =>
      obtain ⟨junk, hpatch⟩ := last.patch
      have hstep := last.up
      exact ⟨start, r, rest ++ turned :: old, junk, last.back hword, rfl, hpatch, h.word,
        h.large, h.room, h.tail_pos, by omega,
        .wrapped before turn init (by omega) hq⟩

theorem RingInv.discard (h : RingInv data m tail head rs) (hne : rs ≠ []) :
    ∃ tail' r rest, readSizeT data tail = some tail' ∧ rs = rest ++ [r] ∧
      RingInv data m tail' head rest ∧ (tail' = 8 ∨ tail + 16 ≤ tail') := by
  have hhead := h.head_le
  have hword := h.word
  have htail : 8 ≤ tail := by
    rcases h.tail_pos with rfl | h16 <;> omega
  cases h.chain with
  | straight path =>
    obtain ⟨tail', r, rest, hfirst, hrest, rfl⟩ := path.first hne
    have hstep := hfirst.step
    exact ⟨tail', r, rest, hfirst.next hword, rfl,
      ⟨h.word, h.large, h.room, .inr (by omega), hhead, .straight hrest⟩, .inr hstep⟩
  | @wrapped q turned old new before turn after clear hq =>
    by_cases hold : old = []
    · subst hold
      cases before
      exact ⟨8, turned, new, turn.next, rfl,
        ⟨h.word, h.large, h.room, .inl rfl, hhead, .straight after⟩, .inl rfl⟩
    · obtain ⟨tail', r, rest, hfirst, hrest, rfl⟩ := before.first hold
      have hstep := hfirst.step
      exact ⟨tail', r, new ++ turned :: rest, hfirst.next hword, by simp,
        ⟨h.word, h.large, h.room, .inr (by omega), hhead,
          .wrapped hrest turn after (by omega) hq⟩, .inr hstep⟩

/-- More than `m` bytes are free behind the link at the head. -/
def Free (data : List UInt8) (m tail head : ℕ) : Prop :=
  tail ≤ head ∧ m < tail + data.length - 8 - head ∨ head + 8 + m < tail

private theorem remaining_spec (h : RingInv data m tail head rs) :
    m < (tail + data.length - 8 - head - 1) % data.length + 1 ↔ Free data m tail head := by
  have hhead := h.head_le
  have hlarge := h.large
  have htail : 8 ≤ tail := by
    rcases h.tail_pos with rfl | h16 <;> omega
  rw [Free]
  rcases h.order with hle | hlt
  · rw [Nat.mod_eq_of_lt (by omega)]
    omega
  · rw [Nat.mod_eq_sub_mod (by omega)]
    by_cases hfit : tail + data.length - 8 - head - 1 - data.length < data.length
    · rw [Nat.mod_eq_of_lt hfit]
      omega
    · have hmod := Nat.mod_le (tail + data.length - 8 - head - 1 - data.length) data.length
      have htl : tail ≤ data.length := by
        cases h.chain with
        | straight path =>
          have := trail_length path
          omega
        | wrapped before turn after clear hq =>
          have := trail_length before
          omega
      omega

theorem Chain.eq_of_nil (h : Chain data m tail head rs) (hnil : rs = []) :
    tail = head := by
  cases h with
  | straight path =>
    cases path with
    | nil => rfl
    | snoc init last => cases hnil
  | wrapped before turn after clear hq => simp at hnil

theorem RingInv.free_of_nil (h : RingInv data m tail head []) : Free data m tail head := by
  have hroom := h.room
  have hlarge := h.large
  have hempty := h.chain.eq_of_nil rfl
  exact .inl ⟨hempty.le, by omega⟩

theorem recheckcapacity_spec (fuel : ℕ) (state : StateManager)
    (hcap : state.capacity = state.data.length)
    (h : RingInv state.data state.maxcompsize state.tail state.head rs)
    (hfuel : rs.length ≤ fuel) :
    ∃ tail entries rest, recheckcapacity fuel state =
        some { state with tail := tail, entries := entries } ∧ rest <+: rs ∧
      RingInv state.data state.maxcompsize tail state.head rest ∧
      Free state.data state.maxcompsize tail state.head := by
  induction fuel generalizing state rs with
  | zero =>
    have hnil : rs = [] := List.eq_nil_of_length_eq_zero (Nat.le_zero.mp hfuel)
    subst hnil
    have hroom := (remaining_spec h).mpr h.free_of_nil
    rw [← hcap] at hroom
    rw [recheckcapacity, if_neg (by omega)]
    exact ⟨_, _, [], rfl, List.prefix_refl [], h, h.free_of_nil⟩
  | succ fuel ih =>
    by_cases hfree : Free state.data state.maxcompsize state.tail state.head
    · have hroom := (remaining_spec h).mpr hfree
      rw [← hcap] at hroom
      rw [recheckcapacity, if_neg (by omega)]
      exact ⟨_, _, rs, rfl, List.prefix_refl rs, h, hfree⟩
    · have hfull := mt (remaining_spec h).mp hfree
      have hne : rs ≠ [] := by
        rintro rfl
        exact hfree h.free_of_nil
      obtain ⟨tail', r, rest, hread, rfl, hinv, -⟩ := h.discard hne
      have hlen : rest.length ≤ fuel := by simpa using hfuel
      obtain ⟨tail, entries, rest', hloop, hpre, hinv', hfree'⟩ :=
        ih { state with tail := tail', entries := state.entries - 1 } hcap hinv hlen
      rw [← hcap] at hfull
      rw [recheckcapacity, if_pos (by omega)]
      refine ⟨tail, entries, rest', ?_, hpre.trans (List.prefix_append rest [r]), hinv',
        hfree'⟩
      rw [hread, Option.bind_some]
      exact hloop

private theorem record_written (data : List UInt8) (p : ℕ) (r : List UInt16)
    (hfit : p + 16 + 2 * r.length ≤ data.length) :
    ∃ d, d = blit (blit (blit data (p + 8) (bytes r)) (p + 8 + 2 * r.length) (toLE 8 p)) p
        (toLE 8 (p + 8 + 2 * r.length + 8)) ∧ d.length = data.length ∧
      Record d p r (p + 8 + 2 * r.length + 8) ∧
      ∀ i, i < p ∨ p + 8 + 2 * r.length + 8 ≤ i → d[i]? = data[i]? := by
  have h₁ : (blit data (p + 8) (bytes r)).length = data.length :=
    length_blit _ _ _ (by rw [length_bytes]; omega)
  have h₂ : (blit (blit data (p + 8) (bytes r)) (p + 8 + 2 * r.length) (toLE 8 p)).length =
      data.length := (length_blit _ _ _ (by rw [length_toLE]; omega)).trans h₁
  refine ⟨_, rfl, (length_blit _ _ _ (by rw [length_toLE]; omega)).trans h₂,
    ⟨by omega, ?_⟩, fun i hi => ?_⟩
  · rw [← slice_append _ (Nat.le_add_right p 8) (by omega),
      ← slice_append _ (Nat.le_add_right (p + 8) (2 * r.length)) (by omega)]
    have hon := slice_blit_same
      (blit (blit data (p + 8) (bytes r)) (p + 8 + 2 * r.length) (toLE 8 p))
      (toLE 8 (p + 8 + 2 * r.length + 8)) p (by omega)
    rw [length_toLE] at hon
    have hback := slice_blit_same (blit data (p + 8) (bytes r)) (toLE 8 p)
      (p + 8 + 2 * r.length) (by omega)
    rw [length_toLE] at hback
    have hpatch := slice_blit_same data (bytes r) (p + 8) (by omega)
    rw [length_bytes] at hpatch
    rw [hon, slice_blit_after _ _ (by rw [length_toLE]) (by omega),
      slice_blit_before _ _ le_rfl (by omega), hpatch,
      slice_blit_after _ _ (by rw [length_toLE]; omega) (by omega), hback]
  · rw [getElem?_blit _ _ _ _ (by omega), getElem?_blit _ _ _ _ (by omega),
      getElem?_blit _ _ _ _ (by omega)]
    simp only [length_toLE, length_bytes]
    rcases hi with hi | hi
    · rw [if_pos hi, if_pos (by omega), if_pos (by omega)]
    · rw [if_neg (by omega), if_neg (by omega), if_neg (by omega), if_neg (by omega),
        if_neg (by omega), if_neg (by omega)]

private theorem turn_written (data : List UInt8) (p : ℕ) (r : List UInt16) (hp : 8 ≤ p)
    (hfit : p + 8 + 2 * r.length ≤ data.length) :
    ∃ d, d = blit (blit (blit data (p + 8) (bytes r)) 0 (toLE 8 p)) p (toLE 8 8) ∧
      d.length = data.length ∧ Turn d p r ∧
      ∀ i, 8 ≤ i → i < p → d[i]? = data[i]? := by
  have h₁ : (blit data (p + 8) (bytes r)).length = data.length :=
    length_blit _ _ _ (by rw [length_bytes]; omega)
  have h₂ : (blit (blit data (p + 8) (bytes r)) 0 (toLE 8 p)).length =
      data.length := (length_blit _ _ _ (by rw [length_toLE]; omega)).trans h₁
  refine ⟨_, rfl, (length_blit _ _ _ (by rw [length_toLE]; omega)).trans h₂,
    ⟨?_, ?_⟩, fun i hi hi' => ?_⟩
  · rw [← slice_append _ (Nat.le_add_right p 8) (by omega)]
    have hon := slice_blit_same (blit (blit data (p + 8) (bytes r)) 0 (toLE 8 p)) (toLE 8 8) p
      (by omega)
    rw [length_toLE] at hon
    have hpatch := slice_blit_same data (bytes r) (p + 8) (by omega)
    rw [length_bytes] at hpatch
    rw [hon, slice_blit_after _ _ (by rw [length_toLE]) (by omega),
      slice_blit_after _ _ (by rw [length_toLE]; omega) (by omega), hpatch]
  · have hback := slice_blit_same (blit data (p + 8) (bytes r)) (toLE 8 p) 0 (by omega)
    rw [length_toLE] at hback
    rw [slice_blit_before _ _ hp (by omega)]
    exact hback
  · rw [getElem?_blit _ _ _ _ (by omega), getElem?_blit _ _ _ _ (by omega),
      getElem?_blit _ _ _ _ (by omega)]
    simp only [length_toLE]
    rw [if_pos hi', if_neg (by omega), if_neg (by omega), if_pos (by omega)]

/-- Chaining in a patch that fits the free bytes disturbs no record and no link that is kept. -/
theorem pushPatch_spec (state : StateManager)
    (hcap : state.capacity = state.data.length)
    (h : RingInv state.data state.maxcompsize state.tail state.head rs)
    (hfree : Free state.data state.maxcompsize state.tail state.head)
    (hpatch : stateManagerRawCompress state.thisblock state.nextblock state.blocksize = some r)
    (hlen : 2 * r.length + 16 ≤ state.maxcompsize) :
    ∃ data tail head rest, pushPatch state =
        some { state with data := data, tail := tail, head := head } ∧
      data.length = state.data.length ∧ rest <+: rs ∧
      RingInv data state.maxcompsize tail head (r :: rest) := by
  have hhead := h.head_le
  have hroom := h.room
  have hword := h.word
  have hlarge := h.large
  have htail : 8 ≤ state.tail := by
    rcases h.tail_pos with h8 | h16 <;> omega
  have hwrite : writePatch state.data (state.head + 8) r =
      some (blit state.data (state.head + 8) (bytes r)) := by
    rw [writePatch, if_pos (by omega)]
  have hlen₁ : (blit state.data (state.head + 8) (bytes r)).length = state.data.length :=
    length_blit _ _ _ (by rw [length_bytes]; omega)
  rw [pushPatch, hpatch, Option.bind_some, hwrite, Option.bind_some]
  by_cases hwraps : state.capacity < state.head + 8 + 2 * r.length + state.maxcompsize
  · obtain ⟨path⟩ | ⟨before, turn, after, clear, hq⟩ := h.chain
    swap
    · have := trail_length before
      rcases hfree with hfree | hfree <;> omega
    have hpath := trail_length path
    obtain ⟨d, hd, hdlen, hturn, hsame⟩ :=
      turn_written state.data state.head r (by omega) (by omega)
    have hwrite₂ : ∀ t, (writeSizeT (blit state.data (state.head + 8) (bytes r)) 0
        state.head).bind (fun data => (writeSizeT data state.head (0 + 8)).map fun data =>
          { state with data := data, tail := t, head := 0 + 8 }) =
        some { state with data := d, tail := t, head := 8 } := by
      intro t
      have hlen₂ : (blit (blit state.data (state.head + 8) (bytes r)) 0
          (toLE 8 state.head)).length = state.data.length :=
        (length_blit _ _ _ (by rw [length_toLE]; omega)).trans hlen₁
      rw [writeSizeT, if_pos (by omega), Option.bind_some, writeSizeT, if_pos (by omega),
        Option.map_some, hd]
    have hpos : 8 + state.maxcompsize ≤ d.length + 8 := by omega
    by_cases hfirst : state.tail = 8
    · -- the first record would be overwritten by the link back, so it is discarded
      have hne : rs ≠ [] := by
        rintro rfl
        have := h.chain.eq_of_nil rfl
        omega
      obtain ⟨tail', r', rest, hrec, hrest, rfl⟩ := path.first hne
      have hstep := hrec.step
      have hread : readSizeT (blit state.data (state.head + 8) (bytes r)) state.tail =
          some tail' := by
        have hnext := hrec.next hword
        rw [readSizeT] at hnext ⊢
        rw [hlen₁, slice_blit_before _ _ (by omega) (by omega)]
        exact hnext
      refine ⟨d, tail', 8, rest, ?_, hdlen, List.prefix_append rest [r'],
        by rw [hdlen]; exact hword, hlarge, by omega, .inr (by omega), hpos, ?_⟩
      · simp only [hwraps, hfirst, true_and, if_true]
        rw [hfirst] at hread
        rw [hread, Option.bind_some]
        exact hwrite₂ tail'
      · show Chain d _ tail' 8 ([] ++ r :: rest)
        exact .wrapped (trail_congr hrest fun i hi hi' => hsame i (by omega) hi') hturn .nil
          (by omega) (by omega)
    · have hclear : 16 < state.tail := by
        rcases h.tail_pos with h8 | h16
        · exact absurd h8 hfirst
        · exact h16
      refine ⟨d, state.tail, 8, rs, ?_, hdlen, List.prefix_refl rs,
        by rw [hdlen]; exact hword, hlarge, by omega, h.tail_pos, hpos, ?_⟩
      · simp only [hwraps, hfirst, and_false, if_true, if_false, Option.bind_some]
        exact hwrite₂ state.tail
      · show Chain d _ state.tail 8 ([] ++ r :: rs)
        exact .wrapped (trail_congr path fun i hi hi' => hsame i (by omega) hi') hturn .nil
          (by omega) (by omega)
  · obtain ⟨d, hd, hdlen, hrec, hsame⟩ :=
      record_written state.data state.head r (by omega)
    have hlen₂ : (blit (blit state.data (state.head + 8) (bytes r))
        (state.head + 8 + 2 * r.length) (toLE 8 state.head)).length = state.data.length :=
      (length_blit _ _ _ (by rw [length_toLE]; omega)).trans hlen₁
    refine ⟨d, state.tail, state.head + 8 + 2 * r.length + 8, rs, ?_, hdlen,
      List.prefix_refl rs, by rw [hdlen]; exact hword, hlarge, by omega, h.tail_pos,
      by omega, ?_⟩
    · simp only [hwraps, false_and, if_false, Option.bind_some]
      rw [writeSizeT, if_pos (by omega), Option.bind_some, writeSizeT, if_pos (by omega),
        Option.map_some, hd]
    · obtain ⟨path⟩ | @⟨q, turned, old, new, before, turn, after, clear, hq⟩ := h.chain
      · exact .straight (.snoc (trail_congr path fun i _ hi => hsame i (.inl hi)) hrec)
      · have hbefore := trail_length before
        have hafter := trail_length after
        have hgap : state.head + 8 + state.maxcompsize < state.tail := by
          rcases hfree with hfree | hfree <;> omega
        rw [← List.cons_append]
        exact .wrapped
          (trail_congr before fun i hi _ => hsame i (.inr (by omega)))
          (turn.congr (fun i hi => hsame i (.inl (by omega)))
            fun i hi _ => hsame i (.inr (by omega)))
          (.snoc (trail_congr after fun i _ hi => hsame i (.inl hi)) hrec)
          (by omega) (by omega)

end RetroArch.Rewind.Ring
