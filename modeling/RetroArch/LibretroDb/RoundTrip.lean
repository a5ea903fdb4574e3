/- Values written and read back: what comes back, and exactly when it is what went in. -/

import RetroArch.LibretroDb.Read

namespace RetroArch.LibretroDb

open Library.Bytes Streams

theorem arraySlots_succ (slot : Slot) (n : ℕ) :
    (arraySlots slot (n + 1)).reverse = (slot ++ [.item n]) :: (arraySlots slot n).reverse := by
  rw [arraySlots, List.range_succ, List.map_append, List.reverse_append]
  rfl

theorem mapSlots_succ (slot : Slot) (n : ℕ) :
    (mapSlots slot (n + 1)).reverse =
      (slot ++ [.key n]) :: (slot ++ [.value n]) :: (mapSlots slot n).reverse := by
  rw [mapSlots, List.range_succ, List.flatMap_append, List.reverse_append]
  rfl

theorem length_arraySlots (slot : Slot) (n : ℕ) : (arraySlots slot n).length = n := by
  rw [arraySlots, List.length_map, List.length_range]

theorem length_mapSlots (slot : Slot) (n : ℕ) : (mapSlots slot n).length = 2 * n := by
  induction n with
  | zero => rfl
  | succ n ih =>
    rw [← List.length_reverse, mapSlots_succ, List.length_cons, List.length_cons,
      List.length_reverse, ih]
    omega

theorem pushAll_fits (slots : List Slot) (s : DomReaderState)
    (h : s.stack.length + slots.length ≤ maxDepth) :
    pushAll slots s = (0, { s with stack := slots.reverse ++ s.stack }) := by
  induction slots generalizing s with
  | nil => rfl
  | cons slot slots ih =>
    rw [List.length_cons] at h
    have hroom : ¬ s.stack.length = maxDepth := by omega
    rw [pushAll, domReaderStatePush, if_neg hroom]
    simp only [Int.lt_irrefl, if_false]
    rw [ih _ (by rw [List.length_cons]; omega), List.reverse_cons, List.append_assoc]
    rfl

theorem pushAll_overflow (slots : List Slot) (s : DomReaderState)
    (hs : s.stack.length ≤ maxDepth) (h : maxDepth < s.stack.length + slots.length) :
    ∃ s', pushAll slots s = (-enomem, s') := by
  induction slots generalizing s with
  | nil =>
    rw [List.length_nil] at h
    omega
  | cons slot slots ih =>
    rw [List.length_cons] at h
    rw [pushAll, domReaderStatePush]
    split_ifs with hfull
    · exact ⟨_, rfl⟩
    · simp only [Int.lt_irrefl, if_false]
      exact ih _ (by rw [List.length_cons]; omega) (by rw [List.length_cons]; omega)

theorem modify_append {α : Type*} (front : List α) (x : α) (back : List α) (f : α → α) :
    (front ++ x :: back).modify front.length f = front ++ f x :: back := by
  induction front with
  | nil => rfl
  | cons y front ih => exact congrArg (List.cons y) ih

theorem store_item (w : Value) (slot : Slot) (n : ℕ) (done : List Value) (out : Value) :
    w.store (slot ++ [.item n])
        (Value.store (.array (List.replicate (n + 1) .null ++ done)) slot out) =
      Value.store (.array (List.replicate n .null ++ w :: done)) slot out := by
  have hmodify := modify_append (List.replicate n Value.null) .null done (w.store [])
  rw [List.length_replicate] at hmodify
  rw [Value.store_append, Value.store, List.replicate_succ', List.append_assoc,
    List.singleton_append, hmodify]
  rfl

theorem store_pair (key value : Value) (slot : Slot) (n : ℕ) (done : List (Value × Value))
    (out : Value) :
    value.store (slot ++ [.value n]) (key.store (slot ++ [.key n])
        (Value.store (.map (List.replicate (n + 1) (.null, .null) ++ done)) slot out)) =
      Value.store (.map (List.replicate n (.null, .null) ++ (key, value) :: done)) slot out := by
  have hkey := modify_append (List.replicate n (Value.null, Value.null)) (.null, .null) done
    fun p => (key.store [] p.1, p.2)
  have hvalue := modify_append (List.replicate n (Value.null, Value.null)) (key, .null) done
    fun p => (p.1, value.store [] p.2)
  rw [List.length_replicate] at hkey hvalue
  rw [Value.store_append, Value.store, List.replicate_succ', List.append_assoc,
    List.singleton_append, hkey, Value.store_append]
  exact congrArg (fun items => Value.store (.map items) slot out) hvalue

theorem read_scalar {bytes : List UInt8} {w : Value} (hscalar : ReadsAs domReaderCallbacks bytes
      (domReadScalar w)) {depth : ℕ} (hdepth : 0 < depth) {fd : RFile} {tail : List UInt8}
    (h : fd.rest = bytes ++ tail) (out : Value) (slot : Slot) (st : List Slot) :
    rmsgpackRead domReaderCallbacks depth fd ⟨out, slot :: st⟩ =
      some (0, fd.advance bytes.length, ⟨w.store slot out, st⟩) := by
  obtain ⟨depth, rfl⟩ := Nat.exists_eq_succ_of_ne_zero hdepth.ne'
  rw [rmsgpackRead, hscalar _ fd tail _ h]
  rfl

theorem readArray_fits (read : RFile → DomReaderState → ReadResult DomReaderState) (len : ℕ)
    (fd : RFile) (out : Value) (slot : Slot) (st : List Slot) (h : st.length + len ≤ maxDepth) :
    readArray domReaderCallbacks read len fd ⟨out, slot :: st⟩ =
      readMembers read len fd ⟨Value.store (.array (List.replicate len .null)) slot out,
        (arraySlots slot len).reverse ++ st⟩ := by
  have hpush := pushAll_fits (arraySlots slot len)
    ⟨Value.store (.array (List.replicate len .null)) slot out, st⟩
    (by rw [length_arraySlots]; exact h)
  have hstart : domReaderCallbacks.readArrayStart len ⟨out, slot :: st⟩ =
      some (0, ⟨Value.store (.array (List.replicate len .null)) slot out,
        (arraySlots slot len).reverse ++ st⟩) := congrArg some hpush
  rw [readArray, startMembers, hstart]
  rfl

theorem readMap_fits (read : RFile → DomReaderState → ReadResult DomReaderState) (len : ℕ)
    (fd : RFile) (out : Value) (slot : Slot) (st : List Slot)
    (h : st.length + 2 * len ≤ maxDepth) :
    readMap domReaderCallbacks read len fd ⟨out, slot :: st⟩ =
      readMembers read (2 * len) fd
        ⟨Value.store (.map (List.replicate len (.null, .null))) slot out,
          (mapSlots slot len).reverse ++ st⟩ := by
  have hpush := pushAll_fits (mapSlots slot len)
    ⟨Value.store (.map (List.replicate len (.null, .null))) slot out, st⟩
    (by rw [length_mapSlots]; exact h)
  have hstart : domReaderCallbacks.readMapStart len ⟨out, slot :: st⟩ =
      some (0, ⟨Value.store (.map (List.replicate len (.null, .null))) slot out,
        (mapSlots slot len).reverse ++ st⟩) := congrArg some hpush
  rw [readMap, startMembers, hstart]
  rfl

theorem readMembers_succ {σ : Type*} {read : RFile → σ → ReadResult σ} {len : ℕ}
    {fd fd' : RFile} {data data' : σ} (h : read fd data = some (0, fd', data')) :
    readMembers read (len + 1) fd data = readMembers read len fd' data' := by
  rw [readMembers, h]
  rfl

mutual

theorem rmsgpackRead_wire (u : Value) {depth : ℕ} (hdepth : nesting u < depth) {fd : RFile}
    {tail : List UInt8} (h : fd.rest = wire u ++ tail) (out : Value) (slot : Slot)
    {st : List Slot} (hold : holds st.length u = true) :
    rmsgpackRead domReaderCallbacks depth fd ⟨out, slot :: st⟩ =
      some (0, fd.advance (wire u).length, ⟨(mirror u).store slot out, st⟩) := by
  match u with
  | .null => exact read_scalar readsAs_nil hdepth h out slot st
  | .bool false => exact read_scalar readsAs_false hdepth h out slot st
  | .bool true => exact read_scalar readsAs_true hdepth h out slot st
  | .int i => exact read_scalar (readsAs_int i) hdepth h out slot st
  | .uint i => exact read_scalar (readsAs_uint i) hdepth h out slot st
  | .string s => exact read_scalar (readsAs_string s) hdepth h out slot st
  | .binary s => exact read_scalar (readsAs_bin s) hdepth h out slot st
  | .map items =>
    rw [holds, Bool.and_eq_true, decide_eq_true_eq] at hold
    rw [nesting] at hdepth
    obtain ⟨depth, rfl⟩ := Nat.exists_eq_succ_of_ne_zero (Nat.ne_zero_of_lt hdepth)
    rw [wire, List.append_assoc] at h
    have hsize : items.length < 2 ^ 32 := by
      have := hold.1
      rw [maxDepth] at this
      omega
    have hpairs := read_wirePairs items (Nat.lt_of_succ_lt_succ hdepth)
      (RFile.rest_advance_append h) out slot [] hold.2
    rw [List.append_nil] at hpairs
    rw [rmsgpackRead, readValue_mapHeader hsize h, readMap_fits _ _ _ _ _ _ hold.1, hpairs,
      RFile.advance_advance, wire, List.length_append, mirror, List.append_nil]
  | .array items =>
    rw [holds, Bool.and_eq_true, decide_eq_true_eq] at hold
    rw [nesting] at hdepth
    obtain ⟨depth, rfl⟩ := Nat.exists_eq_succ_of_ne_zero (Nat.ne_zero_of_lt hdepth)
    rw [wire, List.append_assoc] at h
    have hsize : items.length < 2 ^ 32 := by
      have := hold.1
      rw [maxDepth] at this
      omega
    have hitems := read_wireItems items (Nat.lt_of_succ_lt_succ hdepth)
      (RFile.rest_advance_append h) out slot [] hold.2
    rw [List.append_nil] at hitems
    rw [rmsgpackRead, readValue_arrayHeader hsize h, readArray_fits _ _ _ _ _ _ hold.1, hitems,
      RFile.advance_advance, wire, List.length_append, mirror, List.append_nil]

theorem read_wirePairs (items : List (Value × Value)) {depth : ℕ}
    (hdepth : nestingPairs items < depth) {fd : RFile} {tail : List UInt8}
    (h : fd.rest = wirePairs items ++ tail) (out : Value) (slot : Slot)
    (done : List (Value × Value)) {st : List Slot} (hold : holdsPairs st.length items = true) :
    readMembers (rmsgpackRead domReaderCallbacks depth) (2 * items.length) fd
        ⟨Value.store (.map (List.replicate items.length (.null, .null) ++ done)) slot out,
          (mapSlots slot items.length).reverse ++ st⟩ =
      some (0, fd.advance (wirePairs items).length,
        ⟨Value.store (.map ((mirrorPairs items).reverse ++ done)) slot out, st⟩) := by
  match items with
  | [] => rfl
  | (key, value) :: items =>
    rw [holdsPairs, Bool.and_eq_true, Bool.and_eq_true] at hold
    rw [nestingPairs] at hdepth
    rw [wirePairs, List.append_assoc, List.append_assoc] at h
    have hlen : ((mapSlots slot items.length).reverse ++ st).length =
        st.length + 2 * items.length := by
      rw [List.length_append, List.length_reverse, length_mapSlots, Nat.add_comm]
    have hrest := RFile.rest_advance_append h
    have hkey := rmsgpackRead_wire key (show nesting key < depth by omega) h
      (Value.store (.map (List.replicate (items.length + 1) (.null, .null) ++ done)) slot out)
      (slot ++ [.key items.length])
      (show holds ((slot ++ [.value items.length]) ::
        ((mapSlots slot items.length).reverse ++ st)).length key = true by
          rw [List.length_cons, hlen]; exact hold.1.1)
    have hvalue := rmsgpackRead_wire value (show nesting value < depth by omega) hrest
      ((mirror key).store (slot ++ [.key items.length])
        (Value.store (.map (List.replicate (items.length + 1) (.null, .null) ++ done)) slot out))
      (slot ++ [.value items.length])
      (by rw [hlen]; exact hold.1.2)
    have hmore := read_wirePairs items (show nestingPairs items < depth by omega)
      (RFile.rest_advance_append hrest) out slot ((mirror key, mirror value) :: done) hold.2
    rw [store_pair] at hvalue
    rw [List.length_cons, Nat.mul_succ, mapSlots_succ, List.cons_append, List.cons_append,
      readMembers_succ hkey, readMembers_succ hvalue, hmore]
    simp only [RFile.advance_advance, wirePairs, mirrorPairs, List.length_append,
      List.reverse_cons, List.append_assoc, List.singleton_append, Nat.add_assoc]

theorem read_wireItems (items : List Value) {depth : ℕ} (hdepth : nestingItems items < depth)
    {fd : RFile} {tail : List UInt8} (h : fd.rest = wireItems items ++ tail) (out : Value)
    (slot : Slot) (done : List Value) {st : List Slot}
    (hold : holdsItems st.length items = true) :
    readMembers (rmsgpackRead domReaderCallbacks depth) items.length fd
        ⟨Value.store (.array (List.replicate items.length .null ++ done)) slot out,
          (arraySlots slot items.length).reverse ++ st⟩ =
      some (0, fd.advance (wireItems items).length,
        ⟨Value.store (.array ((mirrorItems items).reverse ++ done)) slot out, st⟩) := by
  match items with
  | [] => rfl
  | item :: items =>
    rw [holdsItems, Bool.and_eq_true] at hold
    rw [nestingItems] at hdepth
    rw [wireItems, List.append_assoc] at h
    have hlen : ((arraySlots slot items.length).reverse ++ st).length =
        st.length + items.length := by
      rw [List.length_append, List.length_reverse, length_arraySlots, Nat.add_comm]
    have hitem := rmsgpackRead_wire item (show nesting item < depth by omega) h
      (Value.store (.array (List.replicate (items.length + 1) .null ++ done)) slot out)
      (slot ++ [.item items.length]) (by rw [hlen]; exact hold.1)
    have hmore := read_wireItems items (show nestingItems items < depth by omega)
      (RFile.rest_advance_append h) out slot (mirror item :: done) hold.2
    rw [store_item] at hitem
    rw [List.length_cons, arraySlots_succ, List.cons_append, readMembers_succ hitem, hmore]
    simp only [RFile.advance_advance, wireItems, mirrorItems, List.length_append,
      List.reverse_cons, List.append_assoc, List.singleton_append]

end

/-- A read that ends for want of a free slot. -/
def OutOfSlots (result : ReadResult DomReaderState) : Prop :=
  ∃ fd s, result = some (-enomem, fd, s)

theorem readMembers_fails {read : RFile → DomReaderState → ReadResult DomReaderState} {len : ℕ}
    {fd : RFile} {s : DomReaderState} (h : OutOfSlots (read fd s)) :
    OutOfSlots (readMembers read (len + 1) fd s) := by
  obtain ⟨fd', s', h⟩ := h
  exact ⟨fd', s', by rw [readMembers, h]; rfl⟩

theorem readArray_overflow (read : RFile → DomReaderState → ReadResult DomReaderState) (len : ℕ)
    (fd : RFile) (out : Value) (slot : Slot) (st : List Slot) (hst : st.length ≤ maxDepth)
    (h : maxDepth < st.length + len) :
    OutOfSlots (readArray domReaderCallbacks read len fd ⟨out, slot :: st⟩) := by
  obtain ⟨s', hpush⟩ := pushAll_overflow (arraySlots slot len)
    ⟨Value.store (.array (List.replicate len .null)) slot out, st⟩ hst
    (by rw [length_arraySlots]; exact h)
  have hstart : domReaderCallbacks.readArrayStart len ⟨out, slot :: st⟩ =
      some (pushAll (arraySlots slot len)
        ⟨Value.store (.array (List.replicate len .null)) slot out, st⟩) := rfl
  rw [readArray, startMembers, hstart, Option.bind_some, hpush]
  exact ⟨fd, s', if_pos (by decide)⟩

theorem readMap_overflow (read : RFile → DomReaderState → ReadResult DomReaderState) (len : ℕ)
    (fd : RFile) (out : Value) (slot : Slot) (st : List Slot) (hst : st.length ≤ maxDepth)
    (h : maxDepth < st.length + 2 * len) :
    OutOfSlots (readMap domReaderCallbacks read len fd ⟨out, slot :: st⟩) := by
  obtain ⟨s', hpush⟩ := pushAll_overflow (mapSlots slot len)
    ⟨Value.store (.map (List.replicate len (.null, .null))) slot out, st⟩ hst
    (by rw [length_mapSlots]; exact h)
  have hstart : domReaderCallbacks.readMapStart len ⟨out, slot :: st⟩ =
      some (pushAll (mapSlots slot len)
        ⟨Value.store (.map (List.replicate len (.null, .null))) slot out, st⟩) := rfl
  rw [readMap, startMembers, hstart, Option.bind_some, hpush]
  exact ⟨fd, s', if_pos (by decide)⟩

mutual

theorem rmsgpackRead_overflow (u : Value) (hsized : sized u = true) {depth : ℕ}
    (hdepth : nesting u < depth) {fd : RFile} {tail : List UInt8}
    (h : fd.rest = wire u ++ tail) (out : Value) (slot : Slot) {st : List Slot}
    (hst : st.length < maxDepth) (hold : holds st.length u = false) :
    OutOfSlots (rmsgpackRead domReaderCallbacks depth fd ⟨out, slot :: st⟩) := by
  match u with
  | .null | .bool _ | .int _ | .uint _ | .string _ | .binary _ => exact Bool.noConfusion (show true = false from hold)
  | .map items =>
    rw [sized, Bool.and_eq_true, decide_eq_true_eq] at hsized
    rw [nesting] at hdepth
    obtain ⟨depth, rfl⟩ := Nat.exists_eq_succ_of_ne_zero (Nat.ne_zero_of_lt hdepth)
    rw [wire, List.append_assoc] at h
    rw [rmsgpackRead, readValue_mapHeader hsized.1 h]
    by_cases hfits : st.length + 2 * items.length ≤ maxDepth
    · rw [holds, decide_eq_true hfits, Bool.true_and] at hold
      have hpairs := read_wirePairs_overflow items hsized.2 (Nat.lt_of_succ_lt_succ hdepth)
        (RFile.rest_advance_append h) out slot [] hfits hold
      rw [List.append_nil] at hpairs
      rw [readMap_fits _ _ _ _ _ _ hfits]
      exact hpairs
    · exact readMap_overflow _ _ _ _ _ _ (Nat.le_of_lt hst) (Nat.not_le.mp hfits)
  | .array items =>
    rw [sized, Bool.and_eq_true, decide_eq_true_eq] at hsized
    rw [nesting] at hdepth
    obtain ⟨depth, rfl⟩ := Nat.exists_eq_succ_of_ne_zero (Nat.ne_zero_of_lt hdepth)
    rw [wire, List.append_assoc] at h
    rw [rmsgpackRead, readValue_arrayHeader hsized.1 h]
    by_cases hfits : st.length + items.length ≤ maxDepth
    · rw [holds, decide_eq_true hfits, Bool.true_and] at hold
      have hitems := read_wireItems_overflow items hsized.2 (Nat.lt_of_succ_lt_succ hdepth)
        (RFile.rest_advance_append h) out slot [] hfits hold
      rw [List.append_nil] at hitems
      rw [readArray_fits _ _ _ _ _ _ hfits]
      exact hitems
    · exact readArray_overflow _ _ _ _ _ _ (Nat.le_of_lt hst) (Nat.not_le.mp hfits)

theorem read_wirePairs_overflow (items : List (Value × Value)) (hsized : sizedPairs items = true)
    {depth : ℕ} (hdepth : nestingPairs items < depth) {fd : RFile} {tail : List UInt8}
    (h : fd.rest = wirePairs items ++ tail) (out : Value) (slot : Slot)
    (done : List (Value × Value)) {st : List Slot} (hst : st.length + 2 * items.length ≤ maxDepth)
    (hold : holdsPairs st.length items = false) :
    OutOfSlots (readMembers (rmsgpackRead domReaderCallbacks depth) (2 * items.length) fd
      ⟨Value.store (.map (List.replicate items.length (.null, .null) ++ done)) slot out,
        (mapSlots slot items.length).reverse ++ st⟩) := by
  match items with
  | [] => exact Bool.noConfusion (show true = false from hold)
  | (key, value) :: items =>
    rw [sizedPairs, Bool.and_eq_true, Bool.and_eq_true] at hsized
    rw [nestingPairs] at hdepth
    rw [wirePairs, List.append_assoc, List.append_assoc] at h
    rw [List.length_cons] at hst
    have hlen : ((mapSlots slot items.length).reverse ++ st).length =
        st.length + 2 * items.length := by
      rw [List.length_append, List.length_reverse, length_mapSlots, Nat.add_comm]
    have hlen' : ((slot ++ [.value items.length]) ::
        ((mapSlots slot items.length).reverse ++ st)).length =
        st.length + 2 * items.length + 1 := by
      rw [List.length_cons, hlen]
    have hrest := RFile.rest_advance_append h
    rw [List.length_cons, Nat.mul_succ, mapSlots_succ, List.cons_append, List.cons_append]
    cases hkeep : holds (st.length + 2 * items.length + 1) key with
    | false =>
      apply readMembers_fails
      exact rmsgpackRead_overflow key hsized.1.1 (by omega) h _ _ (by rw [hlen']; omega)
        (by rw [hlen']; exact hkeep)
    | true =>
      have hkey := rmsgpackRead_wire key (show nesting key < depth by omega) h
        (Value.store (.map (List.replicate (items.length + 1) (.null, .null) ++ done)) slot out)
        (slot ++ [.key items.length]) (by rw [hlen']; exact hkeep)
      rw [readMembers_succ hkey]
      cases hkeep' : holds (st.length + 2 * items.length) value with
      | false =>
        apply readMembers_fails
        exact rmsgpackRead_overflow value hsized.1.2 (by omega) hrest _ _
          (by rw [hlen]; omega) (by rw [hlen]; exact hkeep')
      | true =>
        rw [holdsPairs, hkeep, hkeep', Bool.true_and, Bool.true_and] at hold
        have hvalue := rmsgpackRead_wire value (show nesting value < depth by omega) hrest
          ((mirror key).store (slot ++ [.key items.length]) (Value.store
            (.map (List.replicate (items.length + 1) (.null, .null) ++ done)) slot out))
          (slot ++ [.value items.length]) (by rw [hlen]; exact hkeep')
        rw [store_pair] at hvalue
        rw [readMembers_succ hvalue]
        exact read_wirePairs_overflow items hsized.2 (by omega)
          (RFile.rest_advance_append hrest) out slot _ (by omega) hold

theorem read_wireItems_overflow (items : List Value) (hsized : sizedItems items = true)
    {depth : ℕ} (hdepth : nestingItems items < depth) {fd : RFile} {tail : List UInt8}
    (h : fd.rest = wireItems items ++ tail) (out : Value) (slot : Slot) (done : List Value)
    {st : List Slot} (hst : st.length + items.length ≤ maxDepth)
    (hold : holdsItems st.length items = false) :
    OutOfSlots (readMembers (rmsgpackRead domReaderCallbacks depth) items.length fd
      ⟨Value.store (.array (List.replicate items.length .null ++ done)) slot out,
        (arraySlots slot items.length).reverse ++ st⟩) := by
  match items with
  | [] => exact Bool.noConfusion (show true = false from hold)
  | item :: items =>
    rw [sizedItems, Bool.and_eq_true] at hsized
    rw [nestingItems] at hdepth
    rw [wireItems, List.append_assoc] at h
    rw [List.length_cons] at hst
    have hlen : ((arraySlots slot items.length).reverse ++ st).length =
        st.length + items.length := by
      rw [List.length_append, List.length_reverse, length_arraySlots, Nat.add_comm]
    rw [List.length_cons, arraySlots_succ, List.cons_append]
    cases hkeep : holds (st.length + items.length) item with
    | false =>
      apply readMembers_fails
      exact rmsgpackRead_overflow item hsized.1 (by omega) h _ _ (by rw [hlen]; omega)
        (by rw [hlen]; exact hkeep)
    | true =>
      rw [holdsItems, hkeep, Bool.true_and] at hold
      have hitem := rmsgpackRead_wire item (show nesting item < depth by omega) h
        (Value.store (.array (List.replicate (items.length + 1) .null ++ done)) slot out)
        (slot ++ [.item items.length]) (by rw [hlen]; exact hkeep)
      rw [store_item] at hitem
      rw [readMembers_succ hitem]
      exact read_wireItems_overflow items hsized.2 (by omega)
        (RFile.rest_advance_append h) out slot _ (by omega) hold

end

theorem mapHeader_pos (size : ℕ) : 0 < (rmsgpackWriteMapHeader size).bytes.length := by
  unfold rmsgpackWriteMapHeader
  split_ifs <;> exact Nat.succ_pos _

theorem arrayHeader_pos (size : ℕ) : 0 < (rmsgpackWriteArrayHeader size).bytes.length := by
  unfold rmsgpackWriteArrayHeader
  split_ifs <;> exact Nat.succ_pos _

theorem writeInt_pos (value : Int64) : 0 < (rmsgpackWriteInt value).bytes.length := by
  unfold rmsgpackWriteInt
  simp only
  split_ifs <;> exact Nat.succ_pos _

theorem writeUint_pos (value : UInt64) : 0 < (rmsgpackWriteUint value).bytes.length := by
  unfold rmsgpackWriteUint
  simp only
  split_ifs <;> exact Nat.succ_pos _

theorem writeString_pos (s : Buffer) : 0 < (rmsgpackWriteString s).bytes.length := by
  unfold rmsgpackWriteString stringHeader
  simp only
  split_ifs <;> exact Nat.succ_pos _

theorem writeBin_pos (s : Buffer) : 0 < (rmsgpackWriteBin s).bytes.length := by
  unfold rmsgpackWriteBin binHeader
  simp only
  split_ifs <;> exact Nat.succ_pos _

theorem wire_pos (v : Value) : 0 < (wire v).length := by
  match v with
  | .null | .bool _ => exact Nat.one_pos
  | .int i => exact writeInt_pos i
  | .uint u => exact writeUint_pos u
  | .string s => exact writeString_pos s
  | .binary s => exact writeBin_pos s
  | .map items =>
    have hheader := mapHeader_pos items.length
    rw [wire, List.length_append]
    omega
  | .array items =>
    have hheader := arrayHeader_pos items.length
    rw [wire, List.length_append]
    omega

mutual

theorem nesting_le_wire (v : Value) : nesting v ≤ (wire v).length := by
  match v with
  | .null | .bool _ | .int _ | .uint _ | .string _ | .binary _ => exact Nat.zero_le _
  | .map items =>
    have hheader := mapHeader_pos items.length
    have hitems := nestingPairs_le_wire items
    rw [nesting, wire, List.length_append]
    omega
  | .array items =>
    have hheader := arrayHeader_pos items.length
    have hitems := nestingItems_le_wire items
    rw [nesting, wire, List.length_append]
    omega

theorem nestingPairs_le_wire (items : List (Value × Value)) :
    nestingPairs items ≤ (wirePairs items).length := by
  match items with
  | [] => exact Nat.le_refl 0
  | (key, value) :: items =>
    have hkey := nesting_le_wire key
    have hvalue := nesting_le_wire value
    have hitems := nestingPairs_le_wire items
    rw [nestingPairs, wirePairs, List.length_append, List.length_append]
    omega

theorem nestingItems_le_wire (items : List Value) :
    nestingItems items ≤ (wireItems items).length := by
  match items with
  | [] => exact Nat.le_refl 0
  | item :: items =>
    have hitem := nesting_le_wire item
    have hitems := nestingItems_le_wire items
    rw [nestingItems, wireItems, List.length_append]
    omega

end

theorem rmsgpackDomRead_wire {u : Value} {fd : RFile} {tail : List UInt8}
    (h : fd.rest = wire u ++ tail) (hold : holds 0 u = true) (out : Value := .null) :
    rmsgpackDomRead fd out = some (0, fd.advance (wire u).length, mirror u) := by
  have hdepth : nesting u < fd.rest.length + 1 := by
    have := nesting_le_wire u
    rw [h, List.length_append]
    omega
  have hread := rmsgpackRead_wire u hdepth h out []
    (show holds ([] : List Slot).length u = true from hold)
  rw [rmsgpackDomRead]
  simp only
  rw [hread]
  rfl

theorem rmsgpackDomRead_overflow {u : Value} (hsized : sized u = true) {fd : RFile}
    {tail : List UInt8} (h : fd.rest = wire u ++ tail) (hold : holds 0 u = false) :
    ∃ fd' v, rmsgpackDomRead fd = some (-enomem, fd', v) := by
  have hdepth : nesting u < fd.rest.length + 1 := by
    have := nesting_le_wire u
    rw [h, List.length_append]
    omega
  obtain ⟨fd', s, hread⟩ :=
    rmsgpackRead_overflow u hsized hdepth h .null []
      (show ([] : List Slot).length < maxDepth by decide) hold
  refine ⟨fd', .null, ?_⟩
  rw [rmsgpackDomRead]
  simp only
  rw [hread]
  rfl

/-- The write succeeds, and the read of the bytes written succeeds, consumes them all and gives
the value again. -/
def RoundTrips (v : Value) : Prop :=
  ∃ w, rmsgpackDomWrite v = some w ∧ 0 ≤ w.rv ∧
    ∃ rv, 0 ≤ rv ∧
      rmsgpackDomRead (filestreamOpen w.bytes) = some (rv, ⟨w.bytes, w.bytes.length⟩, v)

theorem not_roundTrips_of_trues {v : Value} (hv : sized v = true) (htrue : 0 < trues v) :
    ¬ RoundTrips v := by
  rintro ⟨w, hw, hrv, rv, hread, hback⟩
  have hcount := (rmsgpackDomWrite_succeeds_iff v).mp ⟨w, hw, hrv⟩
  have hbytes : w = ⟨wireItems (emitted v), counted v⟩ :=
    Option.some.inj (hw.symm.trans (rmsgpackDomWrite_counted v hcount))
  have hlen := length_emitted v
  obtain ⟨u, us, hemitted⟩ := List.exists_cons_of_length_pos (show 0 < (emitted v).length by omega)
  have hbytes' : w.bytes = wire u ++ wireItems us := by rw [hbytes, hemitted]; rfl
  have hrest : (filestreamOpen w.bytes).rest = wire u ++ wireItems us := hbytes'
  cases hfits : holds 0 u with
  | false =>
    have hsized := sizedItems_emitted v hv
    rw [hemitted, sizedItems, Bool.and_eq_true] at hsized
    obtain ⟨fd', x, hfail⟩ := rmsgpackDomRead_overflow hsized.1 hrest hfits
    rw [hfail] at hback
    have : rv = -enomem := (congrArg Prod.fst (Option.some.inj hback)).symm
    rw [this] at hread
    exact absurd hread (by decide)
  | true =>
    rw [rmsgpackDomRead_wire hrest hfits] at hback
    have hpos : (0 : ℕ) + (wire u).length = w.bytes.length :=
      congrArg (fun r => r.2.1.pos) (Option.some.inj hback)
    rw [hbytes', List.length_append] at hpos
    cases us with
    | nil =>
      rw [hemitted, List.length_singleton] at hlen
      omega
    | cons u' us =>
      have := wire_pos u'
      rw [wireItems, List.length_append] at hpos
      omega

theorem roundTrips_of_trueless {v : Value} (hold : holds 0 v = true) (htrue : trues v = 0)
    (hcount : counted v < 2 ^ 31) : RoundTrips v ↔ mirror v = v := by
  have hwrite : rmsgpackDomWrite v = some ⟨wire v, counted v⟩ := by
    rw [rmsgpackDomWrite_counted v hcount, emitted_of_trueless v htrue, wireItems, wireItems,
      List.append_nil]
  have hrest : (filestreamOpen (wire v)).rest = wire v ++ [] := (List.append_nil _).symm
  have hread : rmsgpackDomRead (filestreamOpen (wire v)) =
      some (0, ⟨wire v, (wire v).length⟩, mirror v) := by
    rw [rmsgpackDomRead_wire hrest hold, RFile.advance, filestreamOpen, Nat.zero_add]
  constructor
  · rintro ⟨w, hw, -, rv, -, hback⟩
    obtain rfl := Option.some.inj (hw.symm.trans hwrite)
    exact (congrArg (fun r => r.2.2) (Option.some.inj (hback.symm.trans hread))).symm
  · intro hmirror
    refine ⟨_, hwrite, Int.natCast_nonneg _, 0, Int.le_refl 0, ?_⟩
    rw [hread, hmirror]

theorem roundTrips_cond {v : Value} (hv : sized v = true) (hold : holds 0 v = true)
    (h : RoundTrips v) : trues v = 0 ∧ mirror v = v ∧ counted v < 2 ^ 31 := by
  have htrue : trues v = 0 := by
    by_contra hne
    exact not_roundTrips_of_trues hv (Nat.pos_of_ne_zero hne) h
  obtain ⟨w, hw, hrv, -⟩ := id h
  have hcount := (rmsgpackDomWrite_succeeds_iff v).mp ⟨w, hw, hrv⟩
  exact ⟨htrue, (roundTrips_of_trueless hold htrue hcount).mp h, hcount⟩

/-- A value whose encoding the stack can hold makes the round trip exactly when it holds no true,
reads the same from either end at every level, and its count fits an `int`. -/
theorem dom_round_trip_iff (v : Value) (hold : holds 0 v = true) :
    RoundTrips v ↔ trues v = 0 ∧ mirror v = v ∧ counted v < 2 ^ 31 := by
  constructor
  · exact roundTrips_cond (sized_of_holds v hold) hold
  · rintro ⟨htrue, hmirror, hcount⟩
    exact (roundTrips_of_trueless hold htrue hcount).mpr hmirror

theorem holds_of_roundTrips {v : Value} (hv : sized v = true) (h : RoundTrips v) :
    holds 0 v = true := by
  have htrue : trues v = 0 := by
    by_contra hne
    exact not_roundTrips_of_trues hv (Nat.pos_of_ne_zero hne) h
  obtain ⟨w, hw, hrv, rv, hread, hback⟩ := h
  have hcount := (rmsgpackDomWrite_succeeds_iff v).mp ⟨w, hw, hrv⟩
  obtain rfl := Option.some.inj (hw.symm.trans (rmsgpackDomWrite_counted v hcount))
  rw [emitted_of_trueless v htrue] at hback
  by_contra hover
  have hrest : (filestreamOpen (wireItems [v])).rest = wire v ++ [] := rfl
  obtain ⟨fd, x, hfail⟩ := rmsgpackDomRead_overflow hv hrest (Bool.not_eq_true _ ▸ hover)
  have hrv' : -enomem = rv := congrArg Prod.fst (Option.some.inj (hfail.symm.trans hback))
  rw [← hrv'] at hread
  exact absurd hread (by decide)

theorem RoundTrips.anywhere {v : Value} (hv : sized v = true) (h : RoundTrips v) :
    rmsgpackDomWrite v = some ⟨wire v, counted v⟩ ∧
      ∀ (fd : RFile) (tail : List UInt8) (out : Value), fd.rest = wire v ++ tail →
        rmsgpackDomRead fd out = some (0, fd.advance (wire v).length, v) := by
  have hold := holds_of_roundTrips hv h
  obtain ⟨htrue, hmirror, hcount⟩ := roundTrips_cond hv hold h
  constructor
  · rw [rmsgpackDomWrite_counted v hcount, emitted_of_trueless v htrue, wireItems, wireItems,
      List.append_nil]
  · intro fd tail out hrest
    rw [rmsgpackDomRead_wire hrest hold out, hmirror]

theorem one_byte : [(97 : UInt8)].length < 2 ^ 32 := by decide

theorem two_bytes : [(1 : UInt8), 2].length < 2 ^ 32 := by decide

/-- A map with a negative, a wide and a binary value in it, all of one entry. -/
def nestedPalindrome : Value :=
  .map [(.string ⟨[97], one_byte⟩, .array [.int (-32), .uint 300, .binary ⟨[1, 2], two_bytes⟩,
    .uint 300, .int (-32)])]

theorem dom_round_trip_nested : RoundTrips nestedPalindrome :=
  (dom_round_trip_iff nestedPalindrome (by decide)).mpr ⟨by decide, rfl, by decide⟩

/-- Two numbers in an array come back in the other order. -/
theorem array_comes_back_reversed :
    holds 0 (.array [.int 1, .int 2]) = true ∧ ¬ RoundTrips (.array [.int 1, .int 2]) := by
  refine ⟨by decide, ?_⟩
  intro h
  have hmirror : Value.array [.int 2, .int 1] = .array [.int 1, .int 2] :=
    (roundTrips_of_trueless (by decide) (by decide) (by decide)).mp h
  injection hmirror with hitems
  injection hitems with hfirst
  injection hfirst with hint
  exact absurd hint (by decide)

end RetroArch.LibretroDb
