/- What `rmsgpack_dom_write` appends to its file, and the values it reports as failed. -/

import RetroArch.LibretroDb.Encoding

namespace RetroArch.LibretroDb

open Library.Bytes Streams

@[simp] theorem tag_rv (v : ℕ) : (tag v).rv = (tag v).bytes.length := rfl

@[simp] theorem tagged_rv (t width v : ℕ) :
    (tagged t width v).rv = (tagged t width v).bytes.length := by
  rw [tagged, List.length_cons, length_toBE, Nat.cast_succ]
  exact Int.add_comm 1 width

theorem rmsgpackWriteArrayHeader_rv (size : ℕ) :
    (rmsgpackWriteArrayHeader size).rv = (rmsgpackWriteArrayHeader size).bytes.length := by
  unfold rmsgpackWriteArrayHeader
  split_ifs <;> simp only [tag_rv, tagged_rv]

theorem rmsgpackWriteMapHeader_rv (size : ℕ) :
    (rmsgpackWriteMapHeader size).rv = (rmsgpackWriteMapHeader size).bytes.length := by
  unfold rmsgpackWriteMapHeader
  split_ifs <;> simp only [tag_rv, tagged_rv]

theorem stringHeader_rv (len : ℕ) : (stringHeader len).rv = (stringHeader len).bytes.length := by
  unfold stringHeader
  split_ifs <;> simp only [tag_rv, tagged_rv]

theorem rmsgpackWriteInt_rv (value : Int64) :
    (rmsgpackWriteInt value).rv = (rmsgpackWriteInt value).bytes.length := by
  unfold rmsgpackWriteInt
  simp only
  split_ifs <;> simp only [tag_rv, tagged_rv]

theorem rmsgpackWriteUint_rv (value : UInt64) :
    (rmsgpackWriteUint value).rv = (rmsgpackWriteUint value).bytes.length := by
  unfold rmsgpackWriteUint
  simp only
  split_ifs <;> simp only [tagged_rv]

theorem rmsgpackWriteString_rv (s : Buffer) :
    (rmsgpackWriteString s).rv = ((rmsgpackWriteString s).bytes.length : Int).bmod (2 ^ 32) := by
  simp only [rmsgpackWriteString, stringHeader_rv, List.length_append, Nat.cast_add]

theorem length_tagged_le (t width v : ℕ) (h : width ≤ 8) : (tagged t width v).bytes.length < 10 := by
  rw [tagged, List.length_cons, length_toBE]
  omega

theorem rmsgpackWriteInt_short (value : Int64) :
    (rmsgpackWriteInt value).bytes.length < 10 := by
  unfold rmsgpackWriteInt
  simp only
  split_ifs
  · exact show 1 < 10 by decide
  · exact show 1 < 10 by decide
  all_goals exact length_tagged_le _ _ _ (by decide)

theorem rmsgpackWriteUint_short (value : UInt64) :
    (rmsgpackWriteUint value).bytes.length < 10 := by
  unfold rmsgpackWriteUint
  simp only
  split_ifs
  all_goals exact length_tagged_le _ _ _ (by decide)

theorem rmsgpackWriteMapHeader_short (size : ℕ) :
    (rmsgpackWriteMapHeader size).bytes.length < 10 := by
  unfold rmsgpackWriteMapHeader
  split_ifs
  · exact show 1 < 10 by decide
  all_goals exact length_tagged_le _ _ _ (by decide)

theorem rmsgpackWriteArrayHeader_short (size : ℕ) :
    (rmsgpackWriteArrayHeader size).bytes.length < 10 := by
  unfold rmsgpackWriteArrayHeader
  split_ifs
  · exact show 1 < 10 by decide
  all_goals exact length_tagged_le _ _ _ (by decide)

theorem wire_array_append {items : List Value} {n : ℕ} (h : n ≤ items.length) :
    wireItems (.array (items.take n) :: items.drop n) =
      (rmsgpackWriteArrayHeader n).bytes ++ wireItems items := by
  rw [wireItems, wire, List.length_take_of_le h, List.append_assoc, ← wireItems_append,
    List.take_append_drop]

theorem wire_map_append {values : List Value} {n : ℕ} (h : 2 * n ≤ values.length) :
    wireItems (.map (pairUp (values.take (2 * n))) :: values.drop (2 * n)) =
      (rmsgpackWriteMapHeader n).bytes ++ wireItems values := by
  have hlen : (values.take (2 * n)).length = 2 * n := List.length_take_of_le h
  have hpairs : (pairUp (values.take (2 * n))).length = n := by
    rw [length_pairUp, hlen]
    omega
  rw [wireItems, wire, hpairs, wirePairs_eq, unpair_pairUp ⟨n, hlen⟩,
    List.append_assoc, ← wireItems_append, List.take_append_drop]

theorem andThen_counted {done : Wrote} {bs : List UInt8} {n : ℕ} (more : Wrote → Option Wrote)
    (h : done.rv + n < 2 ^ 31) :
    andThen done ⟨bs, n⟩ more = more ⟨done.bytes ++ bs, done.rv + n⟩ := by
  have hneg : ¬ ((n : Int) < 0) := by omega
  have hmax : done.rv + n ≤ intMax := by
    rw [intMax]
    omega
  rw [andThen, if_neg hneg, addWritten, if_pos hmax]
  rfl

mutual

theorem rmsgpackDomWrite_counted (v : Value) (h : counted v < 2 ^ 31) :
    rmsgpackDomWrite v = some ⟨wireItems (emitted v), counted v⟩ := by
  match v with
  | .null | .bool true | .bool false => rfl
  | .int i =>
    have hwire : wireItems (emitted (.int i)) = (rmsgpackWriteInt i).bytes := List.append_nil _
    rw [rmsgpackDomWrite, counted, ← rmsgpackWriteInt_rv, hwire]
  | .uint u =>
    have hwire : wireItems (emitted (.uint u)) = (rmsgpackWriteUint u).bytes := List.append_nil _
    rw [rmsgpackDomWrite, counted, ← rmsgpackWriteUint_rv, hwire]
  | .string s =>
    have hwire : wireItems (emitted (.string s)) = (rmsgpackWriteString s).bytes :=
      List.append_nil _
    have hrv : (rmsgpackWriteString s).rv = counted (.string s) := by
      rw [rmsgpackWriteString_rv]
      rw [counted] at h ⊢
      rw [Int.bmod_def]
      omega
    rw [rmsgpackDomWrite, hwire, ← hrv]
  | .binary b =>
    have hwire : wireItems (emitted (.binary b)) = (rmsgpackWriteBin b).bytes :=
      List.append_nil _
    rw [rmsgpackDomWrite, hwire]
    rfl
  | .map items =>
    rw [counted] at h
    have hheader := rmsgpackWriteMapHeader_rv items.length
    rw [rmsgpackDomWrite, domWritePairs_counted items _ (by omega) (by omega), emitted, counted, hheader,
      wire_map_append (by rw [length_emittedPairs]; omega), Nat.cast_add]
  | .array items =>
    rw [counted] at h
    have hheader := rmsgpackWriteArrayHeader_rv items.length
    rw [rmsgpackDomWrite, domWriteItems_counted items _ (by omega) (by omega), emitted, counted, hheader,
      wire_array_append (by rw [length_emittedItems]; omega), Nat.cast_add]

theorem domWritePairs_counted (items : List (Value × Value)) (done : Wrote)
    (hdone : 0 ≤ done.rv) (h : done.rv + countedPairs items < 2 ^ 31) :
    domWritePairs items done =
      some ⟨done.bytes ++ wireItems (emittedPairs items), done.rv + countedPairs items⟩ := by
  match items with
  | [] =>
    rw [emittedPairs, wireItems, List.append_nil, countedPairs, Nat.cast_zero, Int.add_zero]
    rfl
  | (key, value) :: items =>
    rw [countedPairs, Nat.cast_add, Nat.cast_add] at h
    rw [domWritePairs, rmsgpackDomWrite_counted key (by omega), Option.bind_some,
      andThen_counted _ (by omega), rmsgpackDomWrite_counted value (by omega), Option.bind_some,
      andThen_counted _ (by simp only; omega),
      domWritePairs_counted items _ (by simp only; omega) (by simp only; omega)]
    simp only [emittedPairs, wireItems_append, countedPairs, Nat.cast_add, List.append_assoc,
      Int.add_assoc]

theorem domWriteItems_counted (items : List Value) (done : Wrote) (hdone : 0 ≤ done.rv)
    (h : done.rv + countedItems items < 2 ^ 31) :
    domWriteItems items done =
      some ⟨done.bytes ++ wireItems (emittedItems items), done.rv + countedItems items⟩ := by
  match items with
  | [] =>
    rw [emittedItems, wireItems, List.append_nil, countedItems, Nat.cast_zero, Int.add_zero]
    rfl
  | item :: items =>
    rw [countedItems, Nat.cast_add] at h
    rw [domWriteItems, rmsgpackDomWrite_counted item (by omega), Option.bind_some,
      andThen_counted _ (by omega),
      domWriteItems_counted items _ (by simp only; omega) (by simp only; omega)]
    simp only [emittedItems, wireItems_append, countedItems, Nat.cast_add, List.append_assoc,
      Int.add_assoc]

end

/-- A write that reports a failure, or whose counter has no defined value. -/
def Fails (result : Option Wrote) : Prop := ∀ w, result = some w → w.rv < 0

theorem fails_none : Fails none := by
  intro w h
  exact absurd h (Option.some_ne_none w).symm

theorem fails_of_member {done : Wrote} {member : Option Wrote} {more : Wrote → Option Wrote}
    (h : Fails member) : Fails (member.bind fun rv => andThen done rv more) := by
  cases member with
  | none => exact fails_none
  | some rv =>
    intro w hw
    have hneg := h rv rfl
    rw [Option.bind_some, andThen, if_pos hneg] at hw
    rw [← Option.some.inj hw]
    exact hneg

theorem fails_of_rest {done : Wrote} {bs : List UInt8} {n : ℕ} {more : Wrote → Option Wrote}
    (h : done.rv + n < 2 ^ 31 → Fails (more ⟨done.bytes ++ bs, done.rv + n⟩)) :
    Fails (andThen done ⟨bs, n⟩ more) := by
  by_cases hsum : done.rv + n < 2 ^ 31
  · rw [andThen_counted more hsum]
    exact h hsum
  · have hneg : ¬ ((n : Int) < 0) := by omega
    have hmax : ¬ done.rv + n ≤ intMax := by
      rw [intMax]
      omega
    rw [andThen, if_neg hneg, addWritten, if_neg hmax]
    exact fails_none

theorem fails_member {done : Wrote} {v : Value} {more : Wrote → Option Wrote}
    (hover : 2 ^ 31 ≤ counted v → Fails (rmsgpackDomWrite v))
    (hrest : ∀ bs, done.rv + counted v < 2 ^ 31 →
      Fails (more ⟨done.bytes ++ bs, done.rv + counted v⟩)) :
    Fails ((rmsgpackDomWrite v).bind fun rv => andThen done rv more) := by
  by_cases hv : counted v < 2 ^ 31
  · rw [rmsgpackDomWrite_counted v hv, Option.bind_some]
    exact fails_of_rest (hrest _)
  · exact fails_of_member (hover (Nat.not_lt.mp hv))

mutual

theorem rmsgpackDomWrite_overflow (v : Value) (h : 2 ^ 31 ≤ counted v) :
    Fails (rmsgpackDomWrite v) := by
  match v with
  | .null | .bool true | .bool false => exact absurd h (by decide)
  | .binary b => exact absurd h (show ¬ 2 ^ 31 ≤ 0 by decide)
  | .int i =>
    have hshort := rmsgpackWriteInt_short i
    rw [counted] at h
    omega
  | .uint u =>
    have hshort := rmsgpackWriteUint_short u
    rw [counted] at h
    omega
  | .string s =>
    intro w hw
    rw [← Option.some.inj hw, rmsgpackWriteString_rv]
    rw [counted] at h
    rw [Int.bmod_def]
    omega
  | .map items =>
    have hshort := rmsgpackWriteMapHeader_short items.length
    have hheader := rmsgpackWriteMapHeader_rv items.length
    rw [counted] at h
    exact domWritePairs_overflow items _ (by omega) (by omega) (by omega)
  | .array items =>
    have hshort := rmsgpackWriteArrayHeader_short items.length
    have hheader := rmsgpackWriteArrayHeader_rv items.length
    rw [counted] at h
    exact domWriteItems_overflow items _ (by omega) (by omega) (by omega)

theorem domWritePairs_overflow (items : List (Value × Value)) (done : Wrote)
    (hdone : 0 ≤ done.rv) (hlt : done.rv < 2 ^ 31) (h : 2 ^ 31 ≤ done.rv + countedPairs items) :
    Fails (domWritePairs items done) := by
  match items with
  | [] =>
    rw [countedPairs] at h
    omega
  | (key, value) :: items =>
    rw [countedPairs, Nat.cast_add, Nat.cast_add] at h
    apply fails_member (rmsgpackDomWrite_overflow key)
    intro bs hkey
    apply fails_member (rmsgpackDomWrite_overflow value)
    intro bs' hvalue
    exact domWritePairs_overflow items _ (by simp only; omega) hvalue (by simp only; omega)

theorem domWriteItems_overflow (items : List Value) (done : Wrote) (hdone : 0 ≤ done.rv)
    (hlt : done.rv < 2 ^ 31) (h : 2 ^ 31 ≤ done.rv + countedItems items) :
    Fails (domWriteItems items done) := by
  match items with
  | [] =>
    rw [countedItems] at h
    omega
  | item :: items =>
    rw [countedItems, Nat.cast_add] at h
    apply fails_member (rmsgpackDomWrite_overflow item)
    intro bs hitem
    exact domWriteItems_overflow items _ (by simp only; omega) hitem (by simp only; omega)

end

theorem rmsgpackDomWrite_succeeds_iff (v : Value) :
    (∃ w, rmsgpackDomWrite v = some w ∧ 0 ≤ w.rv) ↔ counted v < 2 ^ 31 := by
  constructor
  · rintro ⟨w, hw, hrv⟩
    by_contra hover
    have := rmsgpackDomWrite_overflow v (Nat.not_lt.mp hover) w hw
    omega
  · intro h
    exact ⟨_, rmsgpackDomWrite_counted v h, Int.natCast_nonneg _⟩

end RetroArch.LibretroDb
