/- When the rewind ring follows the link at its tail. -/

import RetroArch.Rewind.Stack

namespace RetroArch.Rewind.Links

open Library.Bytes Library.LossyStack Patch Manager Ring Stack

/-- Whether the loop at `recheckcapacity` has to give up a record. -/
def Full (state : StateManager) : Prop :=
  (state.tail + state.capacity - 8 - state.head - 1) % state.capacity + 1 ≤ state.maxcompsize

instance (state : StateManager) : Decidable (Full state) :=
  inferInstanceAs (Decidable (_ ≤ _))

/-- The states in which the loop reads the link at the tail. -/
def recheckReads : ℕ → StateManager → List StateManager
  | 0, state => if Full state then [state] else []
  | fuel + 1, state =>
    if Full state then
      state :: ((readSizeT state.data state.tail).map fun tail =>
        recheckReads fuel { state with tail := tail, entries := state.entries - 1 }).getD []
    else []

/-- The state in which the push turns to the start of the ring and reads the link at the tail. -/
def turnReads (state : StateManager) : List StateManager :=
  match stateManagerRawCompress state.thisblock state.nextblock state.blocksize with
  | some patch =>
    if state.capacity < state.head + 8 + 2 * patch.length + state.maxcompsize ∧
        state.tail = 8 then [state]
    else []
  | none => []

/-- The states in which `state_manager_push_do` reads the link at the tail. -/
def tailReads (state : StateManager) : List StateManager :=
  if state.thisblockValid ∧ 8 + state.maxcompsize ≤ state.capacity then
    recheckReads state.capacity state ++
      ((recheckcapacity state.capacity state).map turnReads).getD []
  else []

/-- After any operations on a new rewind buffer, a push comes to its end, and the ring holds a
record whenever the link at its tail is read. -/
def LinksLive (size : ℕ) (fresh : List UInt8) : Prop :=
  ∀ (ops : List (Op State)) (s : State), (∀ s', .push s' ∈ ops → s'.length = size) →
    s.length = size →
      ∃ answers state ready pushed,
        performs size (stateManagerNew size fresh) ops = some (answers, state) ∧
        stateManagerPushWhere state = some ready ∧
        stateManagerPushDo { ready with nextblock := serializeInto ready.nextblock s } =
          some pushed ∧
        ∀ at' ∈ tailReads { ready with nextblock := serializeInto ready.nextblock s },
          at'.tail ≠ at'.head

section Patches

variable {u v : UInt16} {o n r : List UInt16}

theorem diff_applies (h : Diff u v o n r) {fuel : ℕ} (hfuel : r.length ≤ fuel)
    (junk t d : List UInt16) (hd : d.length = n.length) :
    ∃ out, out.length = d.length ∧ decompressAt fuel (r ++ junk) (d ++ t) = some (out ++ t) := by
  induction h generalizing fuel d t with
  | same w =>
    obtain ⟨fuel, rfl⟩ : ∃ k, fuel = k + 1 := ⟨fuel - 1, by simp at hfuel; omega⟩
    exact ⟨d, rfl, decompressAt_end _ _ _⟩
  | @long p o n r hp ho hrest ih =>
    simp only [List.length_cons] at hfuel
    rw [List.length_append] at hd
    obtain ⟨fuel, rfl⟩ : ∃ k, fuel = k + 1 := ⟨fuel - 1, by omega⟩
    obtain ⟨c, hc⟩ : ∃ c, c = if 0xFFFFFFFF < p.length then 0xFFFFFFFF else p.length :=
      ⟨_, rfl⟩
    have hcut : 0xFFFF < c ∧ c ≤ 0xFFFFFFFF ∧ c ≤ p.length := by
      split_ifs at hc <;> omega
    -- a count that was cut leaves words behind those the rest of the patch is about
    have hfront : (d.take c).length = c := by
      rw [List.length_take]
      omega
    have hmid : ((d.drop c).take n.length).length = n.length := by
      rw [List.length_take, List.length_drop]
      omega
    obtain ⟨out, hout, hrun⟩ := ih (show r.length ≤ fuel by omega)
      ((d.drop c).drop n.length ++ t) ((d.drop c).take n.length) hmid
    have hsplit : d ++ t = d.take c ++ ((d.drop c).take n.length ++
        ((d.drop c).drop n.length ++ t)) := by
      rw [← List.append_assoc ((d.drop c).take n.length), List.take_append_drop,
        ← List.append_assoc, List.take_append_drop]
    refine ⟨d.take c ++ (out ++ (d.drop c).drop n.length), ?_, ?_⟩
    · simp only [List.length_append, List.length_drop, hfront, hout, hmid]
      omega
    · rw [← hc, hsplit, List.cons_append, List.cons_append, List.cons_append,
        decompressAt_skip hcut.1 hcut.2.1 hfront, hrun]
      simp only [Option.map_some, List.append_assoc]
  | @block p b e o n r hp hb hb' he hne hgap hrest ih =>
    simp only [List.length_cons, List.length_append] at hfuel hd
    obtain ⟨fuel, rfl⟩ : ∃ k, fuel = k + 1 := ⟨fuel - 1, by omega⟩
    have hfront : (d.take p.length).length = p.length := by
      rw [List.length_take]
      omega
    have hmid : ((d.drop p.length).take b.length).length = b.length := by
      rw [List.length_take, List.length_drop]
      omega
    have hback : ((d.drop p.length).drop b.length).length = n.length := by
      rw [List.length_drop, List.length_drop]
      omega
    obtain ⟨out, hout, hrun⟩ := ih (show r.length ≤ fuel by omega) t
      ((d.drop p.length).drop b.length) hback
    have hsplit : d ++ t = d.take p.length ++ ((d.drop p.length).take b.length ++
        ((d.drop p.length).drop b.length ++ t)) := by
      rw [← List.append_assoc ((d.drop p.length).take b.length), List.take_append_drop,
        ← List.append_assoc, List.take_append_drop]
    refine ⟨d.take p.length ++ (b ++ out), ?_, ?_⟩
    · simp only [List.length_append, hfront, hout, hback]
      omega
    · rw [hsplit, List.cons_append, List.cons_append, List.append_assoc,
        decompressAt_block hb hb' hp hfront rfl hmid, hrun]
      simp only [Option.map_some, List.append_assoc]

theorem diff_length_of_all_ne (h : Diff u v o n r) (hall : ∀ i < o.length, o[i]? ≠ n[i]?) :
    r.length = o.length + 2 * ((o.length + 65534) / 65535) + 3 := by
  induction h with
  | same w =>
    cases w with
    | nil => rfl
    | cons a w => exact absurd rfl (hall 0 (Nat.zero_lt_succ _))
  | @long p o n r hp ho hrest ih =>
    have hfirst := hall 0 (by rw [List.length_append]; omega)
    rw [List.getElem?_append_left (by omega), List.getElem?_append_left (by omega)] at hfirst
    exact absurd rfl hfirst
  | @block p d e o n r hp hd hd' he hne hgap hrest ih =>
    have hnil : p = [] := by
      cases p with
      | nil => rfl
      | cons a p => exact absurd rfl (hall 0 (by simp))
    subst hnil
    rw [List.nil_append, List.nil_append] at hall
    have hrest_ne : ∀ i < o.length, o[i]? ≠ n[i]? := by
      intro i hi
      have hword := hall (d.length + i) (by rw [List.length_append]; omega)
      rw [List.getElem?_append_right (Nat.le_add_right _ i),
        List.getElem?_append_right (by omega), he, Nat.add_sub_cancel_left] at hword
      exact hword
    have hlen := ih hrest_ne
    have hfull : d.length = 0xFFFF ∨ o = [] := by
      rcases hgap with hcut | hgap
      · exact .inl hcut
      · refine .inr ?_
        cases o with
        | nil => rfl
        | cons a o =>
          have hlength := hrest.length_eq
          have hzero := hrest_ne 0 (Nat.zero_lt_succ _)
          have hsame := hgap.1
          rw [List.length_cons] at hlength
          rw [List.getElem?_append_left (Nat.zero_lt_succ _),
            List.getElem?_append_left (by omega)] at hsame
          exact absurd hsame hzero
    simp only [List.length_cons, List.length_append, List.length_nil, List.nil_append, hlen]
    rcases hfull with hfull | rfl
    · omega
    · simp only [List.length_nil]
      omega

end Patches

section Rings

variable {size : ℕ} {state : StateManager} {rs : List (List UInt16)} {s : State}

/-- A rewind buffer for savestates of `size` bytes, whatever its blocks hold. -/
structure Sound (size : ℕ) (state : StateManager) (rs : List (List UInt16)) : Prop where
  capacity : state.capacity = state.data.length
  maxcompsize : state.maxcompsize = stateManagerRawMaxsize size + 8 * 2
  blocksize : state.blocksize = (size + 1) / 2 * 2
  ring : RingInv state.data state.maxcompsize state.tail state.head rs
  blocks : ∃ w w' u v, u ≠ v ∧ w.length = (size + 1) / 2 ∧ w'.length = (size + 1) / 2 ∧
    state.thisblock = w ++ padding u ∧ state.nextblock = w' ++ padding v
  patches : ∀ r ∈ rs, ∃ u v o n, Diff u v o n r ∧ n.length = (size + 1) / 2

theorem sound_new {fresh : List UInt8}
    (hroom : 2 * (stateManagerRawMaxsize size + 8 * 2) ≤ fresh.length)
    (hword : fresh.length < 2 ^ 64) : Sound size (stateManagerNew size fresh) [] where
  capacity := rfl
  maxcompsize := rfl
  blocksize := rfl
  ring := (holds_new hroom hword).ring
  blocks := ⟨_, _, 0, 1, by decide, List.length_replicate, List.length_replicate,
    stateManagerRawAlloc_eq size 0, stateManagerRawAlloc_eq size 1⟩
  patches := by simp

theorem Sound.pop (h : Sound size state rs) :
    ∃ answer state' rs', stateManagerPop state = some (answer, state') ∧
      Sound size state' rs' := by
  cases hvalid : state.thisblockValid with
  | true =>
    rw [stateManagerPop, if_pos hvalid]
    exact ⟨_, _, rs, rfl,
      ⟨h.capacity, h.maxcompsize, h.blocksize, h.ring, h.blocks, h.patches⟩⟩
  | false =>
    by_cases hempty : state.head = state.tail
    · rw [stateManagerPop, if_neg (by rw [hvalid]; decide), if_pos hempty]
      exact ⟨_, _, rs, rfl, h⟩
    · obtain ⟨start, r, rest, junk, hback, rfl, hwords, hring⟩ := h.ring.pop hempty
      obtain ⟨w, w', u, v, huv, hw, hw', hthis, hnext⟩ := h.blocks
      obtain ⟨u', v', o, n, hdiff, hn⟩ := h.patches r List.mem_cons_self
      obtain ⟨out, hout, hrun⟩ := diff_applies hdiff
        (show r.length ≤ (r ++ junk).length + 1 by rw [List.length_append]; omega)
        junk (padding u) w (hw.trans hn.symm)
      rw [stateManagerPop, if_neg (by rw [hvalid]; decide), if_neg hempty, hback,
        Option.bind_some, hwords, hthis, stateManagerRawDecompress, hrun]
      exact ⟨_, _, rest, rfl, ⟨h.capacity, h.maxcompsize, h.blocksize, hring,
        ⟨out, w', u, v, huv, hout.trans hw, hw', rfl, hnext⟩,
        fun r' hr' => h.patches r' (List.mem_cons_of_mem r hr')⟩⟩

theorem Sound.pushWhere (h : Sound size state rs) :
    ∃ ready rs', stateManagerPushWhere state = some ready ∧ Sound size ready rs' := by
  rw [stateManagerPushWhere]
  split_ifs with hvalid
  · exact ⟨state, rs, rfl, h⟩
  · obtain ⟨answer, state', rs', hpop, hsound⟩ := h.pop
    rw [hpop]
    cases answer with
    | true =>
      exact ⟨_, rs', rfl, ⟨hsound.capacity, hsound.maxcompsize, hsound.blocksize, hsound.ring,
        hsound.blocks, hsound.patches⟩⟩
    | false => exact ⟨state', rs', rfl, hsound⟩

private theorem words_serialize {w' : List UInt16} {v : UInt16}
    (hw' : w'.length = (size + 1) / 2) (hs : s.length = size) :
    ∃ w, w.length = (size + 1) / 2 ∧ serializeInto (w' ++ padding v) s = w ++ padding v := by
  obtain ⟨tail, htail⟩ : ∃ tail, tail = (bytes w').drop s.length := ⟨_, rfl⟩
  have hbytes : (bytes w').length = (size + 1) / 2 * 2 := by
    rw [length_bytes, hw', Nat.mul_comm]
  have hlen : (s ++ tail).length = (size + 1) / 2 * 2 := by
    rw [List.length_append, htail, List.length_drop, hbytes, hs]
    omega
  have hpad : words (bytes (padding v)) = padding v := by
    have happ := words_bytes_append (padding v) []
    rw [List.append_nil] at happ
    exact happ.trans (List.append_nil _)
  have hdrop : (bytes (w' ++ padding v)).drop s.length = tail ++ bytes (padding v) := by
    rw [bytes_append, List.drop_append_of_le_length (by rw [hbytes, hs]; omega), htail]
  have hwords := length_words (s ++ tail) (by rw [hlen]; omega)
  refine ⟨words (s ++ tail), by omega, ?_⟩
  rw [serializeInto, hdrop, ← List.append_assoc,
    ← bytes_words (show 2 ∣ (s ++ tail).length by rw [hlen]; exact Nat.dvd_mul_left _ _),
    words_bytes_append, hpad,
    bytes_words (show 2 ∣ (s ++ tail).length by rw [hlen]; exact Nat.dvd_mul_left _ _)]

theorem Sound.serialize (h : Sound size state rs) (hs : s.length = size) :
    Sound size { state with nextblock := serializeInto state.nextblock s } rs := by
  obtain ⟨w, w', u, v, huv, hw, hw', hthis, hnext⟩ := h.blocks
  obtain ⟨w'', hw'', hser⟩ := words_serialize (v := v) hw' hs
  rw [← hnext] at hser
  exact ⟨h.capacity, h.maxcompsize, h.blocksize, h.ring,
    ⟨w, w'', u, v, huv, hw, hw'', hthis, hser⟩, h.patches⟩

theorem Sound.compress (h : Sound size state rs) :
    ∃ r, stateManagerRawCompress state.thisblock state.nextblock state.blocksize = some r ∧
      2 * r.length + 16 ≤ state.maxcompsize ∧
      ∃ u v o n, Diff u v o n r ∧ n.length = (size + 1) / 2 := by
  obtain ⟨w, w', u, v, huv, hw, hw', hthis, hnext⟩ := h.blocks
  have hwords : ((size + 1) / 2 * 2 + 1) / 2 = (size + 1) / 2 := by omega
  obtain ⟨r, hr, hdiff⟩ := compressAt_diff huv (hw.trans hwords.symm) (hw'.trans hwords.symm)
    (Nat.lt_succ_self _)
  refine ⟨r, ?_, ?_, u, v, w, w', hdiff, hw'⟩
  · rw [hthis, hnext, h.blocksize]
    exact hr
  · have hle := hdiff.length_le.1
    have hmax := h.maxcompsize
    rw [stateManagerRawMaxsize] at hmax
    omega

theorem Sound.tail_ne (h : Sound size state rs) (hfull : Full state) :
    state.tail ≠ state.head := by
  intro hempty
  have hroom := h.ring.room
  have hlarge := h.ring.large
  have hcap := h.capacity
  rw [Full, hempty, Nat.mod_eq_of_lt (by omega)] at hfull
  omega

theorem recheckReads_live (fuel : ℕ) (h : Sound size state rs) :
    ∀ at' ∈ recheckReads fuel state, at'.tail ≠ at'.head := by
  induction fuel generalizing state rs with
  | zero =>
    intro at' hat
    rw [recheckReads] at hat
    split_ifs at hat with hfull
    · obtain rfl := List.mem_singleton.mp hat
      exact h.tail_ne hfull
    · exact absurd hat List.not_mem_nil
  | succ fuel ih =>
    intro at' hat
    rw [recheckReads] at hat
    split_ifs at hat with hfull
    · have hne := h.tail_ne hfull
      rcases List.mem_cons.mp hat with rfl | hrest
      · exact hne
      · have hrs : rs ≠ [] := by
          rintro rfl
          exact hne (h.ring.chain.eq_of_nil rfl)
        obtain ⟨tail', r, rest, hread, rfl, hring, -⟩ := h.ring.discard hrs
        rw [hread, Option.map_some, Option.getD_some] at hrest
        have hnext : Sound size
            { state with tail := tail', entries := state.entries - 1 } rest :=
          ⟨h.capacity, h.maxcompsize, h.blocksize, hring, h.blocks,
            fun r' hr' => h.patches r' (List.mem_append_left _ hr')⟩
        exact ih hnext at' hrest
    · exact absurd hat List.not_mem_nil

theorem Sound.recheck (h : Sound size state rs) :
    ∃ state' rest, recheckcapacity state.capacity state = some state' ∧
      Sound size state' rest ∧ Free state'.data state'.maxcompsize state'.tail state'.head ∧
      state'.thisblockValid = state.thisblockValid := by
  have hcap := h.capacity
  obtain ⟨tail, entries, rest, hloop, hpre, hring, hfree⟩ := recheckcapacity_spec
    state.capacity state hcap h.ring (by rw [hcap]; exact h.ring.length_lt.le)
  exact ⟨_, rest, hloop, ⟨hcap, h.maxcompsize, h.blocksize, hring, h.blocks,
    fun r hr => h.patches r (hpre.subset hr)⟩, hfree, rfl⟩

theorem Sound.pushPatch (h : Sound size state rs)
    (hfree : Free state.data state.maxcompsize state.tail state.head) :
    ∃ state' rs', pushPatch state = some state' ∧ Sound size state' rs' ∧
      state'.thisblockValid = state.thisblockValid := by
  obtain ⟨r, hr, hlen, hdiff⟩ := h.compress
  obtain ⟨data, tail, head, rest, hpush, hdata, hpre, hring⟩ :=
    pushPatch_spec state h.capacity h.ring hfree hr hlen
  refine ⟨_, r :: rest, hpush, ⟨h.capacity.trans hdata.symm, h.maxcompsize, h.blocksize, hring,
    h.blocks, ?_⟩, rfl⟩
  intro r' hr'
  rcases List.mem_cons.mp hr' with rfl | hmem
  · exact hdiff
  · exact h.patches r' (hpre.subset hmem)

theorem Sound.swap (h : Sound size state rs) : Sound size (swapBlocks state) rs := by
  obtain ⟨w, w', u, v, huv, hw, hw', hthis, hnext⟩ := h.blocks
  exact ⟨h.capacity, h.maxcompsize, h.blocksize, h.ring,
    ⟨w', w, v, u, huv.symm, hw', hw, hnext, hthis⟩, h.patches⟩

theorem Sound.turnReads_live (h : Sound size state rs) :
    ∀ at' ∈ turnReads state, at'.tail ≠ at'.head := by
  intro at' hat
  obtain ⟨r, hr, hlen, -⟩ := h.compress
  have hroom := h.ring.room
  have hcap := h.capacity
  rw [turnReads, hr] at hat
  dsimp only at hat
  split_ifs at hat with hturn
  · obtain rfl := List.mem_singleton.mp hat
    intro hempty
    have hhead : at'.head = 8 := hempty.symm.trans hturn.2
    rw [hhead] at hturn
    omega
  · exact absurd hat List.not_mem_nil

theorem Sound.pushDo (h : Sound size state rs) :
    ∃ pushed rs', stateManagerPushDo state = some pushed ∧ Sound size pushed rs' ∧
      ∀ at' ∈ tailReads state, at'.tail ≠ at'.head := by
  have hroom := h.ring.room
  have hlarge := h.ring.large
  have hcap := h.capacity
  cases hvalid : state.thisblockValid with
  | false =>
    have hswap : Sound size { state with thisblockValid := true } rs :=
      ⟨h.capacity, h.maxcompsize, h.blocksize, h.ring, h.blocks, h.patches⟩
    refine ⟨_, rs, by rw [stateManagerPushDo, if_neg (by rw [hvalid]; decide)], hswap.swap, ?_⟩
    intro at' hat
    rw [tailReads, if_neg (by rw [hvalid]; simp)] at hat
    exact absurd hat List.not_mem_nil
  | true =>
    obtain ⟨looped, rest, hloop, hsound, hfree, -⟩ := h.recheck
    obtain ⟨pushed, rs', hpush, hsound', -⟩ := hsound.pushPatch hfree
    have hguard : ¬ state.capacity < 8 + state.maxcompsize := by omega
    refine ⟨swapBlocks pushed, rs', ?_, hsound'.swap, ?_⟩
    · rw [stateManagerPushDo, if_pos hvalid, if_neg hguard, hloop, Option.bind_some, hpush]
      rfl
    · intro at' hat
      rw [tailReads, if_pos ⟨hvalid, Nat.le_of_not_lt hguard⟩, hloop, Option.map_some,
        Option.getD_some] at hat
      rcases List.mem_append.mp hat with hloop' | hturn
      · exact recheckReads_live _ h at' hloop'
      · exact hsound.turnReads_live at' hturn

theorem Sound.push (h : Sound size state rs) (hs : s.length = size) :
    ∃ ready pushed rs', stateManagerPushWhere state = some ready ∧
      stateManagerPushDo { ready with nextblock := serializeInto ready.nextblock s } =
        some pushed ∧ Sound size pushed rs' ∧
      ∀ at' ∈ tailReads { ready with nextblock := serializeInto ready.nextblock s },
        at'.tail ≠ at'.head := by
  obtain ⟨ready, rs₁, hwhere, hready⟩ := h.pushWhere
  obtain ⟨pushed, rs', hpush, hpushed, hlive⟩ := (hready.serialize hs).pushDo
  exact ⟨ready, pushed, rs', hwhere, hpush, hpushed, hlive⟩

theorem Sound.performs (h : Sound size state rs) (ops : List (Op State))
    (hops : ∀ s, .push s ∈ ops → s.length = size) :
    ∃ answers state' rs', performs size state ops = some (answers, state') ∧
      Sound size state' rs' := by
  induction ops generalizing state rs with
  | nil => exact ⟨[], state, rs, rfl, h⟩
  | cons op ops ih =>
    have hrest : ∀ s, .push s ∈ ops → s.length = size :=
      fun s hs => hops s (List.mem_cons_of_mem op hs)
    have hstep : ∃ answer state₁ rs₁, perform size state op = some (answer, state₁) ∧
        Sound size state₁ rs₁ := by
      cases op with
      | push s =>
        obtain ⟨ready, pushed, rs₁, hwhere, hpush, hpushed, -⟩ :=
          h.push (hops s List.mem_cons_self)
        refine ⟨.pushed, pushed, rs₁, ?_, hpushed⟩
        rw [perform, Manager.push, hwhere, Option.bind_some, hpush]
        rfl
      | pop =>
        obtain ⟨answer, state₁, rs₁, hpop, hsound⟩ := h.pop
        rw [perform, hpop]
        cases answer with
        | true => exact ⟨_, state₁, rs₁, rfl, hsound⟩
        | false => exact ⟨_, state₁, rs₁, rfl, hsound⟩
    obtain ⟨answer, state₁, rs₁, hperform, hsound⟩ := hstep
    obtain ⟨answers, state', rs', hperforms, hsound'⟩ := ih hsound hrest
    refine ⟨answer :: answers, state', rs', ?_, hsound'⟩
    rw [Stack.performs, hperform, Option.bind_some]
    show Option.map _ (Stack.performs size state₁ ops) = _
    rw [hperforms]
    rfl

end Rings

section Small

variable {size : ℕ} {fresh : List UInt8}

private theorem words_ones (size : ℕ) :
    ∀ a ∈ words (even (List.replicate size 255)), a ≠ 0 := by
  induction size using Nat.strong_induction_on with
  | _ size ih =>
    match size with
    | 0 => simp [even, words]
    | 1 => simp [even, words]
    | size + 2 =>
      have hsplit : even (List.replicate (size + 2) 255) =
          255 :: 255 :: even (List.replicate size 255) := by
        rw [even, even, List.length_replicate, List.length_replicate, Nat.add_mod_right]
        rfl
      rw [hsplit, words]
      intro a ha
      rcases List.mem_cons.mp ha with rfl | hmem
      · decide
      · exact ih size (by omega) a hmem

/-- The patch between a state of zeros and one of ones takes all the space set aside for it. -/
theorem compress_ones (size : ℕ) :
    ∃ r, stateManagerRawCompress (block (List.replicate size 0) 1)
        (block (List.replicate size 255) 0) ((size + 1) / 2 * 2) = some r ∧
      2 * r.length = stateManagerRawMaxsize size := by
  obtain ⟨r, hr, -, hdiff⟩ := rawCompress_fits (show (1 : UInt16) ≠ 0 by decide)
    (List.length_replicate (n := size) (a := 0)) (List.length_replicate (n := size) (a := 255))
  refine ⟨r, hr, ?_⟩
  have hzeros : (words (even (List.replicate size 0))).length = (size + 1) / 2 := by
    rw [length_words_even, List.length_replicate]
  have hall : ∀ i < (words (even (List.replicate size 0))).length,
      (words (even (List.replicate size 0)))[i]? ≠
        (words (even (List.replicate size 255)))[i]? := by
    intro i hi
    have hones : i < (words (even (List.replicate size 255))).length := by
      rw [length_words_even, List.length_replicate, ← hzeros]
      exact hi
    rw [List.getElem?_eq_getElem hi, List.getElem?_eq_getElem hones]
    intro heq
    have hzero : (words (even (List.replicate size 0)))[i] = 0 := by
      have halloc := rawAlloc_block size 0
      rw [stateManagerRawAlloc_eq, block] at halloc
      obtain ⟨hwords, -⟩ := List.append_inj' halloc rfl
      simp only [← hwords, List.getElem_replicate]
    exact words_ones size _ (List.getElem_mem hones) ((Option.some.inj heq).symm.trans hzero)
  have hlen := diff_length_of_all_ne hdiff hall
  rw [hzeros] at hlen
  rw [stateManagerRawMaxsize]
  omega

/-- Without a record and without the room for two, a push of the largest patch reads a link. -/
theorem stale_link (state : StateManager) {r : List UInt16}
    (hvalid : state.thisblockValid = true) (htail : state.tail = 8) (hhead : state.head = 8)
    (hguard : 8 + state.maxcompsize ≤ state.capacity)
    (hsmall : state.capacity < 2 * state.maxcompsize)
    (hr : stateManagerRawCompress state.thisblock state.nextblock state.blocksize = some r)
    (hlen : 2 * r.length + 16 = state.maxcompsize) :
    ∃ at' ∈ tailReads state, at'.tail = at'.head := by
  refine ⟨state, ?_, htail.trans hhead.symm⟩
  rw [tailReads, if_pos ⟨hvalid, hguard⟩, List.mem_append]
  obtain ⟨k, hk⟩ : ∃ k, state.capacity = k + 1 := ⟨state.capacity - 1, by omega⟩
  by_cases hfull : Full state
  · refine .inl ?_
    rw [hk, recheckReads, if_pos hfull]
    exact List.mem_cons_self
  · refine .inr ?_
    have hloop : recheckcapacity state.capacity state = some state := by
      rw [hk, recheckcapacity]
      exact if_neg hfull
    rw [hloop, Option.map_some, Option.getD_some, turnReads, hr]
    dsimp only
    rw [if_pos ⟨by omega, htail⟩]
    exact List.mem_singleton_self state

theorem second_push_stale (hguard : 8 + (stateManagerNew size fresh).maxcompsize ≤ fresh.length)
    (hsmall : fresh.length < 2 * (stateManagerNew size fresh).maxcompsize) :
    ¬ LinksLive size fresh := by
  intro hlive
  have hzero : (List.replicate size (0 : UInt8)).length = size := List.length_replicate
  have hone : (List.replicate size (255 : UInt8)).length = size := List.length_replicate
  obtain ⟨answers, state, ready, pushed, hrun, hwhere, -, hreads⟩ :=
    hlive [.push (List.replicate size 0)] (List.replicate size 255)
      (by
        intro s' hs'
        rw [List.mem_singleton] at hs'
        obtain rfl := Op.push.inj hs'
        exact hzero) hone
  have hfirst : Manager.push (stateManagerNew size fresh) (List.replicate size 0) =
      some (swapBlocks { stateManagerNew size fresh with
        nextblock := block (List.replicate size 0) 1, thisblockValid := true }) := by
    rw [Manager.push, stateManagerPushWhere]
    simp only [stateManagerNew, stateManagerPop, rawAlloc_block, Bool.false_eq_true, if_false,
      if_true, Option.map_some, Option.bind_some, stateManagerPushDo,
      serializeInto_block 1 (rfl : (List.replicate size (0 : UInt8)).length = _)]
  rw [Stack.performs, perform, hfirst, Option.map_some, Option.bind_some] at hrun
  obtain ⟨-, rfl⟩ := Prod.mk.inj (Option.some.inj hrun)
  rw [stateManagerPushWhere, if_pos (by rfl)] at hwhere
  obtain rfl := Option.some.inj hwhere
  obtain ⟨r, hr, hlen⟩ := compress_ones size
  have hnext : serializeInto (stateManagerRawAlloc size 0) (List.replicate size 255) =
      block (List.replicate size 255) 0 := by
    rw [rawAlloc_block, serializeInto_block 0 (hone.trans hzero.symm)]
  obtain ⟨at', hmem, hstale⟩ := stale_link { swapBlocks
      { stateManagerNew size fresh with
        nextblock := block (List.replicate size 0) 1, thisblockValid := true } with
      nextblock := serializeInto (stateManagerRawAlloc size 0) (List.replicate size 255) }
    rfl rfl rfl hguard hsmall (by rw [hnext]; exact hr)
    (by
      show 2 * r.length + 16 = stateManagerRawMaxsize size + 8 * 2
      omega)
  exact hreads at' hmem hstale

end Small

/-- The guard admits every ring with room for one record; the links at the tail are live exactly
where there is room for two. -/
theorem links_live_iff (size : ℕ) (fresh : List UInt8)
    (hguard : 8 + (stateManagerNew size fresh).maxcompsize ≤ fresh.length)
    (hword : fresh.length < 2 ^ 64) :
    LinksLive size fresh ↔ 2 * (stateManagerNew size fresh).maxcompsize ≤ fresh.length := by
  constructor
  · intro hlive
    by_contra hsmall
    exact second_push_stale hguard (Nat.lt_of_not_le hsmall) hlive
  · intro hroom ops s hops hs
    obtain ⟨answers, state, rs, hrun, hsound⟩ := (sound_new hroom hword).performs ops hops
    obtain ⟨ready, pushed, rs', hwhere, hpush, -, hlive⟩ := hsound.push hs
    exact ⟨answers, state, ready, pushed, hrun, hwhere, hpush, hlive⟩

theorem links_live_iff_small :
    8 + (stateManagerNew 4 (List.replicate 40 0)).maxcompsize ≤
        (List.replicate 40 (0 : UInt8)).length ∧
      (List.replicate 40 (0 : UInt8)).length < 2 ^ 64 ∧
      (LinksLive 4 (List.replicate 40 0) ↔
        2 * (stateManagerNew 4 (List.replicate 40 0)).maxcompsize ≤
          (List.replicate 40 (0 : UInt8)).length) :=
  ⟨by decide, by decide, links_live_iff 4 (List.replicate 40 0) (by decide) (by decide)⟩

/-- The smallest ring the guard admits for states of four bytes. -/
theorem links_stale_at_guard : ¬ LinksLive 4 (List.replicate 38 0) :=
  second_push_stale (by decide) (by decide)

end RetroArch.Rewind.Links
