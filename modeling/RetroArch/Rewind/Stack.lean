/- Rewinding as a bounded stack of savestates. -/

import RetroArch.Library.LossyStack
import RetroArch.Rewind.Ring

namespace RetroArch.Rewind.Stack

open Library.Bytes Library.LossyStack Patch Manager Ring

/-- A savestate, rounded up to whole words. -/
def even (s : List UInt8) : List UInt8 := s ++ List.replicate (s.length % 2) 0

/-- A block from `state_manager_raw_alloc` that holds the savestate `s`. -/
def block (s : List UInt8) (uniq : UInt16) : List UInt16 := words (even s) ++ padding uniq

theorem length_even (s : List UInt8) : (even s).length = (s.length + 1) / 2 * 2 := by
  rw [even, List.length_append, List.length_replicate]
  omega

theorem length_words_even (s : List UInt8) :
    (words (even s)).length = (s.length + 1) / 2 := by
  have hlen := length_words (even s) (by rw [length_even]; omega)
  rw [length_even] at hlen
  omega

theorem bytes_words_even (s : List UInt8) : bytes (words (even s)) = even s :=
  bytes_words (by rw [length_even]; omega)

theorem take_bytes_block (s : List UInt8) (u : UInt16) :
    (bytes (block s u)).take s.length = s := by
  rw [block, bytes_append, bytes_words_even, even, List.append_assoc, List.take_left]

theorem serializeInto_block {s w : List UInt8} (u : UInt16) (h : s.length = w.length) :
    serializeInto (block w u) s = block s u := by
  have hpad : words (bytes (padding u)) = padding u := by
    have happ := words_bytes_append (padding u) []
    rw [List.append_nil] at happ
    exact happ.trans (List.append_nil _)
  rw [serializeInto, block, bytes_append, bytes_words_even, even, h, List.append_assoc,
    List.drop_left, ← List.append_assoc, ← h]
  show words (even s ++ bytes (padding u)) = block s u
  rw [← bytes_words_even s, words_bytes_append, hpad, block]

private theorem words_zeros (k : ℕ) (rest : List UInt8) :
    words (List.replicate (k * 2) 0 ++ rest) = List.replicate k 0 ++ words rest := by
  have zeros : bytes (List.replicate k 0) = List.replicate (k * 2) 0 := by
    induction k with
    | zero => rfl
    | succ k ih =>
      rw [Nat.succ_mul, List.replicate_succ, List.replicate_succ, List.replicate_succ, bytes,
        ih]
      rfl
  rw [← zeros, words_bytes_append]

theorem rawAlloc_block (size : ℕ) (u : UInt16) :
    stateManagerRawAlloc size u = block (List.replicate size 0) u := by
  have heven : even (List.replicate size 0) =
      List.replicate ((size + 1) / 2 * 2) 0 ++ ([] : List UInt8) := by
    rw [even, List.length_replicate, ← List.replicate_add, List.append_nil]
    congr 1
    omega
  rw [stateManagerRawAlloc_eq, block, heven, words_zeros]
  simp [words]

/-- The patch `r` undoes the step from the savestate `s` to its successor `b`. -/
def Undoes (r : List UInt16) (b s : List UInt8) : Prop :=
  ∀ u junk, stateManagerRawDecompress (r ++ junk) (block b u) = some (block s u)

/-- The patches lead from `b` back through the savestates. -/
inductive Undo : List UInt8 → List (List UInt16) → List (List UInt8) → Prop
  | nil (b : List UInt8) : Undo b [] []
  | cons {b s : List UInt8} {r : List UInt16} {rs : List (List UInt16)}
      {ss : List (List UInt8)} (first : Undoes r b s) (rest : Undo s rs ss) :
      Undo b (r :: rs) (s :: ss)

theorem Undo.kept {b : List UInt8} {rs kept : List (List UInt16)} {ss : List (List UInt8)}
    (h : Undo b rs ss) (hkept : kept <+: rs) : ∃ ss', ss' <+: ss ∧ Undo b kept ss' := by
  induction h generalizing kept with
  | nil b =>
    obtain rfl := List.prefix_nil.mp hkept
    exact ⟨[], List.prefix_refl [], .nil b⟩
  | @cons b s r rs ss first rest ih =>
    cases kept with
    | nil => exact ⟨[], List.nil_prefix, .nil b⟩
    | cons r' kept =>
      obtain ⟨rfl, hrest⟩ := List.cons_prefix_cons.mp hkept
      obtain ⟨ss', hss, hundo⟩ := ih hrest
      exact ⟨s :: ss', List.cons_prefix_cons.mpr ⟨rfl, hss⟩, .cons first hundo⟩

theorem rawCompress_fits {b s : List UInt8} {u v : UInt16} {size : ℕ} (huv : u ≠ v)
    (hb : b.length = size) (hs : s.length = size) :
    ∃ r, stateManagerRawCompress (block b u) (block s v) ((size + 1) / 2 * 2) = some r ∧
      2 * r.length ≤ stateManagerRawMaxsize size ∧
      Diff u v (words (even b)) (words (even s)) r := by
  have hwb : (words (even b)).length = ((size + 1) / 2 * 2 + 1) / 2 := by
    rw [length_words_even, hb]
    omega
  have hws : (words (even s)).length = ((size + 1) / 2 * 2 + 1) / 2 := by
    rw [length_words_even, hs]
    omega
  obtain ⟨r, hr, hdiff⟩ := compressAt_diff huv hwb hws (Nat.lt_succ_self _)
  refine ⟨r, hr, ?_, hdiff⟩
  have hle := hdiff.length_le.1
  rw [length_words_even, hb] at hle
  rw [stateManagerRawMaxsize]
  omega

/-- Up to 2^33 bytes, the patch undoes the push. -/
theorem undoes_of_diff {b s : List UInt8} {u v : UInt16} {r : List UInt16}
    (h : Diff u v (words (even b)) (words (even s)) r) (hlen : b.length ≤ 2 ^ 33) :
    Undoes r s b := by
  intro w junk
  have hwords : (words (even b)).length ≤ 2 ^ 32 := by
    rw [length_words_even]
    omega
  exact h.decompress hwords (by rw [List.length_append]; omega) junk (padding w)

/-- A rewind buffer for savestates of `size` bytes that holds `base` outside the ring and the
patches `rs` in it. -/
structure Holds (size : ℕ) (state : StateManager) (base : List UInt8)
    (rs : List (List UInt16)) : Prop where
  capacity : state.capacity = state.data.length
  maxcompsize : state.maxcompsize = stateManagerRawMaxsize size + 8 * 2
  blocksize : state.blocksize = (size + 1) / 2 * 2
  ring : RingInv state.data state.maxcompsize state.tail state.head rs
  base_length : base.length = size
  blocks : ∃ w u v, u ≠ v ∧ w.length = size ∧ state.thisblock = block base u ∧
    state.nextblock = block w v

variable {size : ℕ} {state : StateManager} {base s : List UInt8} {r : List UInt16}
  {rs : List (List UInt16)}

theorem holds_new {fresh : List UInt8}
    (hroom : 2 * (stateManagerRawMaxsize size + 8 * 2) ≤ fresh.length)
    (hword : fresh.length < 2 ^ 64) :
    Holds size (stateManagerNew size fresh) (List.replicate size 0) [] where
  capacity := rfl
  maxcompsize := rfl
  blocksize := rfl
  ring := by
    have hlarge : 22 ≤ stateManagerRawMaxsize size + 8 * 2 := by
      rw [stateManagerRawMaxsize]
      omega
    refine ⟨hword, hlarge, hroom, .inl rfl, ?_, .straight .nil⟩
    show 8 + (stateManagerRawMaxsize size + 8 * 2) ≤ fresh.length + 8
    omega
  base_length := List.length_replicate
  blocks := ⟨List.replicate size 0, 0, 1, by decide, List.length_replicate,
    rawAlloc_block size 0, rawAlloc_block size 1⟩

theorem Holds.pop_valid (h : Holds size state base rs) (hvalid : state.thisblockValid = true) :
    ∃ state', stateManagerPop state = some (true, state') ∧ Holds size state' base rs ∧
      state'.thisblockValid = false := by
  rw [stateManagerPop, if_pos hvalid]
  exact ⟨_, rfl, ⟨h.capacity, h.maxcompsize, h.blocksize, h.ring, h.base_length, h.blocks⟩, rfl⟩

theorem Holds.pop_empty (h : Holds size state base []) (hvalid : state.thisblockValid = false) :
    stateManagerPop state = some (false, state) := by
  rw [stateManagerPop, if_neg (by rw [hvalid]; decide),
    if_pos (h.ring.chain.eq_of_nil rfl).symm]

theorem Holds.pop_chain (h : Holds size state base (r :: rs))
    (hvalid : state.thisblockValid = false) (hs : s.length = size) (hundo : Undoes r base s) :
    ∃ state', stateManagerPop state = some (true, state') ∧ Holds size state' s rs ∧
      state'.thisblockValid = false := by
  obtain ⟨w, u, v, huv, hw, hthis, hnext⟩ := h.blocks
  have hne : state.head ≠ state.tail := by
    intro heq
    have hring := h.ring
    rw [heq] at hring
    exact absurd hring.empty (by simp)
  obtain ⟨start, r', rest, junk, hback, heq, hwords, hring⟩ := h.ring.pop hne
  obtain ⟨rfl, rfl⟩ := List.cons.inj heq
  rw [stateManagerPop, if_neg (by rw [hvalid]; decide), if_neg hne, hback, Option.bind_some,
    hwords, hthis, hundo u junk]
  exact ⟨_, rfl, ⟨h.capacity, h.maxcompsize, h.blocksize, hring, hs,
    ⟨w, u, v, huv, hw, rfl, hnext⟩⟩, hvalid⟩

theorem Holds.pushDo_valid (h : Holds size state base rs) (hvalid : state.thisblockValid = true)
    (hs : s.length = size) :
    ∃ state' r kept u v, stateManagerPushDo
        { state with nextblock := serializeInto state.nextblock s } = some state' ∧
      Holds size state' s (r :: kept) ∧ state'.thisblockValid = true ∧ kept <+: rs ∧ u ≠ v ∧
      stateManagerRawCompress (block base u) (block s v) ((size + 1) / 2 * 2) = some r ∧
      Diff u v (words (even base)) (words (even s)) r := by
  obtain ⟨w, u, v, huv, hw, hthis, hnext⟩ := h.blocks
  obtain ⟨r, hr, hfits, hdiff⟩ := rawCompress_fits huv h.base_length hs
  have hroom := h.ring.room
  have hlarge := h.ring.large
  have hmax := h.maxcompsize
  have hcap := h.capacity
  obtain ⟨tail, entries, rest, hloop, hpre, hring, hfree⟩ := recheckcapacity_spec
    state.capacity { state with nextblock := serializeInto state.nextblock s } hcap h.ring
    (by rw [hcap]; exact h.ring.length_lt.le)
  obtain ⟨data, tail', head', kept, hpush, hdata, hkept, hring'⟩ := pushPatch_spec
    { state with
      nextblock := serializeInto state.nextblock s, tail := tail, entries := entries }
    hcap hring hfree
    (by rw [hthis, hnext, serializeInto_block v (hs.trans hw.symm), h.blocksize]; exact hr)
    (by show 2 * r.length + 16 ≤ state.maxcompsize; omega)
  have hfit : ¬ state.capacity < 8 + state.maxcompsize := by omega
  rw [stateManagerPushDo, if_pos hvalid, if_neg hfit, hloop,
    Option.bind_some, hpush]
  refine ⟨_, r, kept, u, v, rfl, ⟨?_, hmax, h.blocksize, hring', hs, ?_⟩, hvalid,
    hkept.trans hpre, huv, hr, hdiff⟩
  · exact hcap.trans hdata.symm
  · exact ⟨base, v, u, huv.symm, h.base_length, by
      show serializeInto state.nextblock s = block s v
      rw [hnext, serializeInto_block v (hs.trans hw.symm)], hthis⟩

theorem Holds.push_empty (h : Holds size state base []) (hvalid : state.thisblockValid = false)
    (hs : s.length = size) :
    ∃ state', push state s = some state' ∧ Holds size state' s [] ∧
      state'.thisblockValid = true := by
  obtain ⟨w, u, v, huv, hw, hthis, hnext⟩ := h.blocks
  rw [push, stateManagerPushWhere, if_neg (by rw [hvalid]; decide), h.pop_empty hvalid,
    Option.map_some, Option.bind_some, stateManagerPushDo, if_neg (by rw [hvalid]; decide)]
  refine ⟨_, rfl, ⟨h.capacity, h.maxcompsize, h.blocksize, h.ring, hs, ?_⟩, rfl⟩
  exact ⟨base, v, u, huv.symm, h.base_length, by
    show serializeInto state.nextblock s = block s v
    rw [hnext, serializeInto_block v (hs.trans hw.symm)], hthis⟩

theorem push_valid (hvalid : state.thisblockValid = true) :
    push state s = stateManagerPushDo
      { state with nextblock := serializeInto state.nextblock s } := by
  rw [push, stateManagerPushWhere, if_pos hvalid, Option.bind_some]

abbrev State := List UInt8

/-- One operation. A pop answers the `size` bytes at `*data`, which is `thisblock`. -/
def perform (size : ℕ) (state : StateManager) : Op State → Option (Answer State × StateManager)
  | .push s => (push state s).map fun state => (.pushed, state)
  | .pop => (stateManagerPop state).map fun
      | (true, state) => (.popped ((bytes state.thisblock).take size), state)
      | (false, state) => (.empty, state)

def performs (size : ℕ) : StateManager → List (Op State) →
    Option (List (Answer State) × StateManager)
  | state, [] => some ([], state)
  | state, op :: ops =>
    (perform size state op).bind fun (answer, state) =>
      (performs size state ops).map fun (answers, state) => (answer :: answers, state)

/-- Every record and link of the ring stands, and together with `thisblock` the records give
the states of `stack`. -/
def Intact (size : ℕ) (state : StateManager) (stack : List State) : Prop :=
  ∃ base rs ss, Holds size state base rs ∧ Undo base rs ss ∧ (∀ s ∈ ss, s.length = size) ∧
    stack = if state.thisblockValid then base :: ss else ss

/-- The rewind buffer made over the memory `fresh` is a stack of savestates that forgets only
the oldest ones. -/
def IsBoundedStack (size : ℕ) (fresh : List UInt8) : Prop :=
  ∀ ops : List (Op State), (∀ s, .push s ∈ ops → s.length = size) →
    ∃ answers state stack, performs size (stateManagerNew size fresh) ops =
        some (answers, state) ∧ Explains [] ops answers stack ∧ Intact size state stack

private theorem perform_popped {state' : StateManager}
    (hpop : stateManagerPop state = some (true, state')) (h : Holds size state' base rs) :
    perform size state .pop = some (.popped base, state') := by
  obtain ⟨w, u, v, -, -, hthis, -⟩ := h.blocks
  have htake : (bytes state'.thisblock).take size = base := by
    rw [hthis, ← h.base_length, take_bytes_block]
  rw [perform, hpop, Option.map_some]
  show some (Answer.popped ((bytes state'.thisblock).take size), state') = _
  rw [htake]

theorem perform_step {stack : List State} {op : Op State} (hsize : size ≤ 2 ^ 33)
    (h : Intact size state stack) (hop : ∀ s, op = .push s → s.length = size) :
    ∃ answer state' stack', perform size state op = some (answer, state') ∧
      Step stack op answer stack' ∧ Intact size state' stack' := by
  obtain ⟨base, rs, ss, hholds, hundo, hss, rfl⟩ := h
  cases hvalid : state.thisblockValid with
  | true =>
    cases op with
    | push s =>
      have hs := hop s rfl
      obtain ⟨state', r, kept, u, v, hpush, hholds', hvalid', hkept, -, -, hdiff⟩ :=
        hholds.pushDo_valid hvalid hs
      obtain ⟨ss', hpre, hundo'⟩ := hundo.kept hkept
      have hfirst := undoes_of_diff hdiff (by rw [hholds.base_length]; exact hsize)
      refine ⟨.pushed, state', s :: base :: ss', ?_, .push s ?_, s, r :: kept, base :: ss',
        hholds', .cons hfirst hundo', ?_, by rw [hvalid', if_pos rfl]⟩
      · rw [perform, push_valid hvalid, hpush, Option.map_some]
      · rw [if_pos rfl]
        exact List.cons_prefix_cons.mpr ⟨rfl, hpre⟩
      · intro s' hs'
        rcases List.mem_cons.mp hs' with rfl | hmem
        · exact hholds.base_length
        · exact hss s' (hpre.subset hmem)
    | pop =>
      obtain ⟨state', hpop, hholds', hvalid'⟩ := hholds.pop_valid hvalid
      exact ⟨.popped base, state', ss, perform_popped hpop hholds', .pop base, base, rs, ss,
        hholds', hundo, hss, by rw [hvalid']; rfl⟩
  | false =>
    cases hundo with
    | nil =>
      cases op with
      | push s =>
        obtain ⟨state', hpush, hholds', hvalid'⟩ :=
          hholds.push_empty hvalid (hop s rfl)
        refine ⟨.pushed, state', [s], ?_, .push s (List.prefix_refl _), s, [], [],
          hholds', .nil s, by simp, by rw [hvalid']; rfl⟩
        rw [perform, hpush, Option.map_some]
      | pop =>
        refine ⟨.empty, state, [], ?_, .empty, base, [], [], hholds, .nil base, by simp,
          by rw [hvalid]; rfl⟩
        rw [perform, hholds.pop_empty hvalid, Option.map_some]
    | @cons _ b r rs ss first rest =>
      have hb : b.length = size := hss b List.mem_cons_self
      obtain ⟨state₁, hpop, hholds₁, hvalid₁⟩ := hholds.pop_chain hvalid hb first
      cases op with
      | push s =>
        -- the newest patch is undone first, to have a base for the new one
        have hbased : Holds size
            { state₁ with thisblockValid := true, entries := state₁.entries + 1 } b rs :=
          ⟨hholds₁.capacity, hholds₁.maxcompsize, hholds₁.blocksize, hholds₁.ring,
            hholds₁.base_length, hholds₁.blocks⟩
        obtain ⟨state', r', kept, u, v, hpush, hholds', hvalid', hkept, -, -, hdiff⟩ :=
          hbased.pushDo_valid rfl (hop s rfl)
        obtain ⟨ss', hpre, hundo'⟩ := rest.kept hkept
        have hfirst := undoes_of_diff hdiff (by rw [hb]; exact hsize)
        refine ⟨.pushed, state', s :: b :: ss', ?_, .push s ?_, s, r' :: kept, b :: ss',
          hholds', .cons hfirst hundo', ?_, by rw [hvalid', if_pos rfl]⟩
        · rw [perform, push, stateManagerPushWhere, if_neg (by rw [hvalid]; decide), hpop,
            Option.map_some, Option.bind_some]
          exact congrArg (Option.map _) hpush
        · exact List.cons_prefix_cons.mpr ⟨rfl, hpre⟩
        · intro s' hs'
          rcases List.mem_cons.mp hs' with rfl | hmem
          · exact hb
          · exact hss s' (List.mem_cons_of_mem b (hpre.subset hmem))
      | pop =>
        exact ⟨.popped b, state₁, ss, perform_popped hpop hholds₁, .pop b, b, rs, ss,
          hholds₁, rest, fun s' hs' => hss s' (List.mem_cons_of_mem b hs'),
          by rw [hvalid₁]; rfl⟩

private theorem performs_cons {state' last : StateManager} {op : Op State}
    {answer : Answer State} {ops : List (Op State)} {answers : List (Answer State)}
    (first : perform size state op = some (answer, state'))
    (rest : performs size state' ops = some (answers, last)) :
    performs size state (op :: ops) = some (answer :: answers, last) := by
  rw [performs, first, Option.bind_some]
  show Option.map _ (performs size state' ops) = _
  rw [rest]
  rfl

theorem performs_explained {stack : List State} {ops : List (Op State)}
    (hsize : size ≤ 2 ^ 33) (h : Intact size state stack)
    (hops : ∀ s, .push s ∈ ops → s.length = size) :
    ∃ answers state' stack', performs size state ops = some (answers, state') ∧
      Explains stack ops answers stack' ∧ Intact size state' stack' := by
  induction ops generalizing state stack with
  | nil => exact ⟨[], state, stack, rfl, .done stack, h⟩
  | cons op ops ih =>
    obtain ⟨answer, state₁, stack₁, hperform, hstep, h₁⟩ := perform_step hsize h
      fun s hs => hops s (hs ▸ List.mem_cons_self)
    obtain ⟨answers, state', stack', hrest, hexplains, h'⟩ := ih h₁
      fun s hs => hops s (List.mem_cons_of_mem op hs)
    exact ⟨answer :: answers, state', stack', performs_cons hperform hrest,
      .step hstep hexplains, h'⟩

/-- Two blocks that first differ in the word at 2^32: the patch passes over one word less and
then puts the old word where nothing changed. -/
private theorem compress_far {n k : ℕ} {u v : UInt16} (huv : u ≠ v) (hn : n = 2 ^ 32) :
    compressAt (n + 1 + k + 1)
        (List.replicate n 0 ++ (0 :: List.replicate k 0 ++ padding u))
        (List.replicate n 0 ++ (1 :: List.replicate k 0 ++ padding v))
        (n + 1 + k) =
      some [0, UInt16.ofNat 0xFFFFFFFF, UInt16.ofNat (0xFFFFFFFF >>> 16), 1, 0, 0, 0, 0, 0] := by
  have hlen : (List.replicate n (0 : UInt16)).length = n := List.length_replicate
  have hfar : findChange (List.replicate n 0 ++ 0 :: (List.replicate k 0 ++ padding u))
      (List.replicate n 0 ++ 1 :: (List.replicate k 0 ++ padding v)) = some n := by
    rw [findChange_append _ (by decide) (by simp [padding]) (by simp [padding]), hlen]
  have hnear : findChange (0 :: (List.replicate k 0 ++ padding u))
      (1 :: (List.replicate k 0 ++ padding v)) = some 0 :=
    findChange_append [] (by decide) (by simp [padding]) (by simp [padding])
  have hsame : findSame (0 :: (List.replicate k 0 ++ padding u))
      (1 :: (List.replicate k 0 ++ padding v)) = some 1 := by
    have three : ∀ w, List.replicate k 0 ++ padding w =
        0 :: 0 :: 0 :: (List.replicate k 0 ++ w :: List.replicate 8 0) := by
      intro w
      show List.replicate k 0 ++ (List.replicate 3 0 ++ w :: List.replicate 8 0) = _
      rw [← List.append_assoc, ← List.replicate_add, Nat.add_comm, List.replicate_add]
      rfl
    rw [three, three, findSame, scanSame, if_neg (by decide), scanSame, if_pos (by decide)]
    rfl
  have hend : compressAt (n + k) (List.replicate k 0 ++ padding u)
      (List.replicate k 0 ++ padding v) k = some [0, 0, 0] := by
    obtain ⟨f, hf⟩ : ∃ f, n + k = f + 1 := ⟨n + k - 1, by omega⟩
    rw [hf, compressAt]
    split_ifs with hk
    · rfl
    · obtain ⟨-, hfind⟩ | ⟨p, x, y, so, sn, hxy, ho, hn, -⟩ :=
        findChange_cases huv (List.length_replicate (n := k) (a := (0 : UInt16)))
          (List.length_replicate (n := k) (a := (0 : UInt16)))
      · rw [hfind, Option.bind_some, if_pos (by omega)]
      · exact absurd (List.cons.inj (List.append_cancel_left (ho.symm.trans hn))).1 hxy
  rw [compressAt, if_neg (by omega), List.cons_append, List.cons_append, hfar,
    Option.bind_some, if_neg (by omega)]
  simp only []
  rw [if_pos (by omega), if_pos (by omega), List.drop_left' hlen, List.drop_left' hlen,
    show n + 1 + k = n + k + 1 by omega, compressAt, if_neg (by omega), hnear,
    Option.bind_some, if_neg (by omega)]
  simp only [List.drop_zero, Nat.sub_zero]
  rw [if_neg (by omega), hsame, Option.bind_some, if_neg (by omega),
    show n + k + 1 - n - 1 = k by omega]
  simp only [List.drop_succ_cons, List.drop_zero]
  rw [hend]
  rfl

/-- A savestate of zeros but for the first byte of word `n`. -/
private def far (n size : ℕ) : State :=
  List.replicate (n * 2) 0 ++ 1 :: List.replicate (size - n * 2 - 1) 0

private theorem length_far {n : ℕ} (hsize : n * 2 < size) : (far n size).length = size := by
  rw [far, List.length_append, List.length_cons, List.length_replicate, List.length_replicate]
  omega

private theorem words_far {n : ℕ} (hsize : n * 2 < size) :
    words (even (far n size)) = List.replicate n 0 ++
      1 :: List.replicate ((size + 1) / 2 - n - 1) 0 := by
  have htail : 1 :: List.replicate (size - n * 2 - 1) (0 : UInt8) ++
      List.replicate (size % 2) 0 =
        1 :: 0 :: (List.replicate (((size + 1) / 2 - n - 1) * 2) 0 ++ []) := by
    rw [List.cons_append, ← List.replicate_add, List.append_nil, ← List.replicate_succ]
    congr 2
    omega
  rw [even, length_far hsize, far, List.append_assoc, words_zeros, htail, words, words_zeros]
  simp [words]

private theorem words_zero_state (size : ℕ) :
    words (even (List.replicate size 0)) = List.replicate ((size + 1) / 2) 0 := by
  have heven : even (List.replicate size 0) =
      List.replicate ((size + 1) / 2 * 2) 0 ++ ([] : List UInt8) := by
    rw [even, List.length_replicate, ← List.replicate_add, List.append_nil]
    congr 1
    omega
  rw [heven, words_zeros]
  simp [words]

/-- The patch from the one with word 2^32 set to zeros changes nothing when it is applied. -/
private theorem far_undoes_nothing {n : ℕ} {u v : UInt16} {r : List UInt16} (huv : u ≠ v)
    (hn : n = 2 ^ 32) (hsize : n * 2 < size)
    (hr : stateManagerRawCompress (block (List.replicate size 0) u) (block (far n size) v)
      ((size + 1) / 2 * 2) = some r) : Undoes r (far n size) (far n size) := by
  obtain ⟨k, hk⟩ : ∃ k, (size + 1) / 2 = n + 1 + k :=
    ⟨(size + 1) / 2 - n - 1, by omega⟩
  have hwords := words_far hsize
  rw [show (size + 1) / 2 - n - 1 = k by omega] at hwords
  have hzeros : List.replicate (n + 1 + k) (0 : UInt16) =
      List.replicate n 0 ++ 0 :: List.replicate k 0 := by
    rw [Nat.add_assoc, List.replicate_add, Nat.add_comm 1 k, List.replicate_succ]
  rw [stateManagerRawCompress, block, block, words_zero_state, hk, hwords, hzeros,
    show ((n + 1 + k) * 2 + 1) / 2 = n + 1 + k by omega, List.append_assoc,
    List.append_assoc] at hr
  obtain rfl := Option.some.inj ((compress_far huv hn).symm.trans hr)
  intro w junk
  obtain ⟨c, hc, hnc⟩ : ∃ c, c = 0xFFFFFFFF ∧ n = c + 1 := ⟨0xFFFFFFFF, rfl, hn⟩
  have hblock : block (far n size) w =
      List.replicate c 0 ++ ([] ++ ([0] ++ (1 :: (List.replicate k 0 ++ padding w)))) := by
    rw [block, hwords, hnc, List.replicate_add, List.append_assoc, List.append_assoc]
    rfl
  rw [hblock, stateManagerRawDecompress, ← hc]
  -- the old word is written over a word that is the same in both blocks
  have hinner : ∀ f t, decompressAt (f + 2) (1 :: 0 :: ([0] ++ (0 :: 0 :: 0 :: junk)))
      ([] ++ ([0] ++ t)) = some (0 :: t) := by
    intro f t
    have hone := @decompressAt_block (f + 1) 0 1 [] [0] [0] t (0 :: 0 :: 0 :: junk) Nat.one_pos
      (by decide) (by decide) rfl rfl rfl
    rw [decompressAt_end] at hone
    exact hone
  show decompressAt (_ + 3) (0 :: UInt16.ofNat c :: UInt16.ofNat (c >>> 16) ::
    (1 :: 0 :: ([0] ++ (0 :: 0 :: 0 :: junk)))) _ = _
  rw [decompressAt_skip (by omega) (by omega) List.length_replicate, hinner]
  rfl

/-- Beyond 2^33 bytes the stack loses a state it still holds. -/
private theorem far_lost {n : ℕ} {fresh : List UInt8} (hn : n = 2 ^ 32) (hsize : n * 2 < size)
    (hroom : 2 * (stateManagerRawMaxsize size + 8 * 2) ≤ fresh.length)
    (hword : fresh.length < 2 ^ 64) : ¬ IsBoundedStack size fresh := by
  intro hstack
  have hzero : (List.replicate size (0 : UInt8)).length = size := List.length_replicate
  obtain ⟨state₁, hpush₁, h₁, hvalid₁⟩ := (holds_new hroom hword).push_empty rfl hzero
  obtain ⟨state₂, r, kept, u, v, hpush₂, h₂, hvalid₂, hkept, huv, hr, -⟩ :=
    h₁.pushDo_valid hvalid₁ (length_far hsize)
  obtain rfl := List.prefix_nil.mp hkept
  obtain ⟨state₃, hpop₃, h₃, hvalid₃⟩ := h₂.pop_valid hvalid₂
  obtain ⟨state₄, hpop₄, h₄, -⟩ :=
    h₃.pop_chain hvalid₃ (length_far hsize) (far_undoes_nothing huv hn hsize hr)
  rw [← push_valid hvalid₁] at hpush₂
  have hrun : performs size (stateManagerNew size fresh)
      [.push (List.replicate size 0), .push (far n size), .pop, .pop] =
        some ([.pushed, .pushed, .popped (far n size), .popped (far n size)], state₄) :=
    performs_cons (by rw [perform, hpush₁, Option.map_some])
      (performs_cons (by rw [perform, hpush₂, Option.map_some])
        (performs_cons (perform_popped hpop₃ h₃)
          (performs_cons (perform_popped hpop₄ h₄) rfl)))
  obtain ⟨answers, state, stack, hrun', hexplains, -⟩ := hstack
    [.push (List.replicate size 0), .push (far n size), .pop, .pop] (by
      intro s hs
      simp only [List.mem_cons, Op.push.injEq, reduceCtorEq, List.not_mem_nil, or_false] at hs
      rcases hs with rfl | rfl
      · exact hzero
      · exact length_far hsize)
  obtain ⟨rfl, rfl⟩ := Prod.mk.inj (Option.some.inj (hrun.symm.trans hrun'))
  have hbyte := congrArg (·[n * 2]?) hexplains.second_pop
  simp only [far] at hbyte
  rw [List.getElem?_append_right (by rw [List.length_replicate]), List.length_replicate,
    Nat.sub_self, List.getElem?_replicate, if_pos hsize] at hbyte
  simp at hbyte

end RetroArch.Rewind.Stack
