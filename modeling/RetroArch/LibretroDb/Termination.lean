/- Which database files a cursor comes to the end of. -/

import RetroArch.LibretroDb.Database

namespace RetroArch.LibretroDb

open Streams

variable {σ : Type*} {callbacks : ReadCallbacks σ} {fd fd' : RFile} {data data' : σ} {rv : Int}

section Progress

/-- No more is left to read than before. -/
def Later (fd fd' : RFile) : Prop := fd'.rest.length ≤ fd.rest.length

theorem Later.trans {fd'' : RFile} (h : Later fd fd') (h' : Later fd' fd'') : Later fd fd'' :=
  Nat.le_trans h' h

theorem later_read (len : ℕ) (fd : RFile) : Later fd (filestreamRead len fd).2 := by
  unfold Later filestreamRead
  rw [RFile.rest_advance, List.length_drop]
  exact Nat.sub_le _ _

theorem later_readUint {size n : ℕ} (h : readUint size fd = some (n, fd')) : Later fd fd' := by
  unfold readUint at h
  dsimp only at h
  split_ifs at h
  obtain rfl := congrArg Prod.snd (Option.some.inj h)
  exact later_read size fd

theorem later_returned {result : Option (Int × σ)}
    (h : returned fd result = some (rv, fd', data')) : Later fd fd' := by
  obtain ⟨answer, -, heq⟩ := Option.map_eq_some_iff.mp h
  obtain rfl : fd = fd' := congrArg (fun x : Int × RFile × σ => x.2.1) heq
  exact le_refl _

theorem later_readBuff {size : ℕ} {buff : List UInt8} (h : readBuff size fd = some (buff, fd')) :
    Later fd fd' := by
  obtain ⟨⟨len, fd₁⟩, hlen, hread⟩ := Option.map_eq_some_iff.mp h
  have hlater := later_read len fd₁
  rw [show (filestreamRead len fd₁).2 = fd' from congrArg Prod.snd hread] at hlater
  exact (later_readUint hlen).trans hlater

/-- A read that never goes back. -/
def Forward (read : RFile → σ → ReadResult σ) : Prop :=
  ∀ {fd data rv fd' data'}, read fd data = some (rv, fd', data') → Later fd fd'

variable {read : RFile → σ → ReadResult σ}

theorem Forward.members (hread : Forward read) (len : ℕ) : Forward (readMembers read len) := by
  induction len with
  | zero =>
    intro fd data rv fd' data' h
    obtain rfl : fd = fd' := congrArg (fun x : Int × RFile × σ => x.2.1) (Option.some.inj h)
    exact le_refl _
  | succ len ih =>
    intro fd data rv fd' data' h
    obtain ⟨⟨rv₁, fd₁, data₁⟩, hfirst, hrest⟩ := Option.bind_eq_some_iff.mp h
    dsimp only at hrest
    split_ifs at hrest
    · obtain rfl : fd₁ = fd' :=
        congrArg (fun x : Int × RFile × σ => x.2.1) (Option.some.inj hrest)
      exact hread hfirst
    · exact (hread hfirst).trans (ih hrest)

theorem Forward.start (hread : Forward read) {start : Option (Int × σ)} {len : ℕ}
    (h : startMembers start read len fd = some (rv, fd', data')) : Later fd fd' := by
  obtain ⟨⟨rv₁, data₁⟩, -, hrest⟩ := Option.bind_eq_some_iff.mp h
  dsimp only at hrest
  split_ifs at hrest
  · obtain rfl : fd = fd' := congrArg (fun x : Int × RFile × σ => x.2.1) (Option.some.inj hrest)
    exact le_refl _
  · exact hread.members len hrest

theorem Forward.tagged (hread : Forward read) {type : ℕ}
    (h : readTagged callbacks read type fd data = some (rv, fd', data')) : Later fd fd' := by
  unfold readTagged at h
  split_ifs at h
  · exact later_returned h
  · exact later_returned h
  · exact later_returned h
  · obtain ⟨⟨buff, fd₁⟩, hbuff, hrest⟩ := Option.bind_eq_some_iff.mp h
    exact (later_readBuff hbuff).trans (later_returned hrest)
  · obtain ⟨⟨n, fd₁⟩, hn, hrest⟩ := Option.bind_eq_some_iff.mp h
    exact (later_readUint hn).trans (later_returned hrest)
  · obtain ⟨⟨n, fd₁⟩, hn, hrest⟩ := Option.bind_eq_some_iff.mp h
    obtain ⟨⟨m, fd₂⟩, hm, heq⟩ := Option.map_eq_some_iff.mp hn
    obtain rfl : fd₂ = fd₁ := congrArg Prod.snd heq
    exact (later_readUint hm).trans (later_returned hrest)
  · obtain ⟨⟨buff, fd₁⟩, hbuff, hrest⟩ := Option.bind_eq_some_iff.mp h
    exact (later_readBuff hbuff).trans (later_returned hrest)
  · obtain ⟨⟨n, fd₁⟩, hn, hrest⟩ := Option.bind_eq_some_iff.mp h
    exact (later_readUint hn).trans (hread.start hrest)
  · obtain ⟨⟨n, fd₁⟩, hn, hrest⟩ := Option.bind_eq_some_iff.mp h
    exact (later_readUint hn).trans (hread.start hrest)
  · obtain rfl : fd = fd' := congrArg (fun x : Int × RFile × σ => x.2.1) (Option.some.inj h)
    exact le_refl _

theorem Forward.value (hread : Forward read)
    (h : readValue callbacks read fd data = some (rv, fd', data')) :
    Later (filestreamRead 1 fd).2 fd' := by
  unfold readValue at h
  dsimp only at h
  split_ifs at h
  · exact later_returned h
  · exact hread.start h
  · exact hread.start h
  · exact (later_read _ _).trans (later_returned h)
  · exact later_returned h
  · exact hread.tagged h

theorem forward_rmsgpackRead (callbacks : ReadCallbacks σ) (depth : ℕ) :
    Forward (rmsgpackRead callbacks depth) := by
  induction depth with
  | zero =>
    intro fd data rv fd' data' h
    exact nomatch h
  | succ depth ih =>
    intro fd data rv fd' data' h
    exact (later_read 1 fd).trans (Forward.value ih h)

theorem rest_type (h : fd.rest ≠ []) :
    (filestreamRead 1 fd).2.rest.length + 1 = fd.rest.length := by
  unfold filestreamRead
  rw [RFile.rest_advance, List.length_drop, List.length_take]
  have hpos := List.length_pos_iff.mpr h
  omega

variable {out v : Value}

theorem domRead_progress (hmore : fd.rest ≠ [])
    (h : rmsgpackDomRead fd out = some (rv, fd', v)) : fd'.rest.length < fd.rest.length := by
  obtain ⟨⟨rv₁, fd₁, s⟩, hread, heq⟩ := Option.map_eq_some_iff.mp h
  obtain rfl : fd₁ = fd' := congrArg (fun x : Int × RFile × Value => x.2.1) heq
  have hlater : Later _ _ := Forward.value (forward_rmsgpackRead _ _) hread
  have htype := rest_type hmore
  unfold Later at hlater
  omega

theorem domRead_end (hend : fd.rest = []) (out : Value) :
    rmsgpackDomRead fd out = some (0, fd, .int 0) := by
  have hread : filestreamRead 1 fd = ([], fd) := by
    unfold filestreamRead
    rw [hend]
    rfl
  have hvalue : ∀ read, readValue domReaderCallbacks read fd ⟨out, [[]]⟩ =
      some (0, fd, ⟨.int 0, []⟩) := by
    intro read
    unfold readValue
    rw [hread]
    rfl
  unfold rmsgpackDomRead
  change Option.map _ (readValue domReaderCallbacks _ fd ⟨out, [[]]⟩) = _
  rw [hvalue]
  rfl

end Progress

section Untouched

variable {out v : Value}

/-- Either the first callback stores to `out`, whatever is there, or there is none. -/
def StoresFirst (result : Value → ReadResult DomReaderState) : Prop :=
  (∀ out, result out = result .null) ∨ ∃ fd', ∀ out, result out = some (0, fd', ⟨out, [[]]⟩)

theorem StoresFirst.skip {c : Prop} [Decidable c] {r r' : Value → ReadResult DomReaderState}
    (hr : ∀ out, r out = r .null) (h : StoresFirst r') :
    StoresFirst fun out => if c then r out else r' out := by
  by_cases hc : c
  · simp only [if_pos hc]
    exact Or.inl hr
  · simpa only [if_neg hc] using h

theorem readTagged_out (read : RFile → DomReaderState → ReadResult DomReaderState) (type : ℕ)
    (fd : RFile) :
    StoresFirst fun out => readTagged domReaderCallbacks read type fd ⟨out, [[]]⟩ := by
  unfold readTagged
  apply StoresFirst.skip fun _ => rfl
  apply StoresFirst.skip fun _ => rfl
  apply StoresFirst.skip fun _ => rfl
  apply StoresFirst.skip fun _ => rfl
  apply StoresFirst.skip fun _ => rfl
  apply StoresFirst.skip fun _ => rfl
  apply StoresFirst.skip fun _ => rfl
  apply StoresFirst.skip fun _ => rfl
  apply StoresFirst.skip fun _ => rfl
  exact Or.inr ⟨fd, fun _ => rfl⟩

theorem readValue_out (read : RFile → DomReaderState → ReadResult DomReaderState) (fd : RFile) :
    StoresFirst fun out => readValue domReaderCallbacks read fd ⟨out, [[]]⟩ := by
  unfold readValue
  apply StoresFirst.skip fun _ => rfl
  apply StoresFirst.skip fun _ => rfl
  apply StoresFirst.skip fun _ => rfl
  apply StoresFirst.skip fun _ => rfl
  apply StoresFirst.skip fun _ => rfl
  exact readTagged_out read _ _

theorem domRead_out (fd : RFile) :
    (∀ out, rmsgpackDomRead fd out = rmsgpackDomRead fd) ∨
      ∃ fd', ∀ out, rmsgpackDomRead fd out = some (0, fd', out) := by
  rcases readValue_out (rmsgpackRead domReaderCallbacks fd.rest.length) fd with h | ⟨fd', h⟩
  · left
    intro out
    unfold rmsgpackDomRead
    change Option.map _ (readValue domReaderCallbacks _ fd ⟨out, [[]]⟩) =
      Option.map _ (readValue domReaderCallbacks _ fd ⟨.null, [[]]⟩)
    exact congrArg (Option.map _) (h out)
  · right
    refine ⟨fd', ?_⟩
    intro out
    unfold rmsgpackDomRead
    change Option.map _ (readValue domReaderCallbacks _ fd ⟨out, [[]]⟩) = _
    have hout : readValue domReaderCallbacks (rmsgpackRead domReaderCallbacks fd.rest.length) fd
        ⟨out, [[]]⟩ = some (0, fd', ⟨out, [[]]⟩) := h out
    rw [hout]
    rfl

/-- What `out` holds before a read that stores nothing to it, when it is not a nil. -/
abbrev stale : Value := .int 0

theorem domRead_stale {fd' : RFile} {rv : Int} (h : rmsgpackDomRead fd stale = some (rv, fd', v)) :
    ∀ out, rmsgpackDomRead fd out = some (rv, fd', v) ∨
      (rmsgpackDomRead fd out = some (0, fd', out) ∧ rv = 0 ∧ v = stale) := by
  intro out
  rcases domRead_out fd with hsame | ⟨fd'', hleft⟩
  · left
    rw [hsame out, ← hsame stale, h]
  · right
    rw [hleft stale] at h
    obtain ⟨rfl, rfl, rfl⟩ : 0 = rv ∧ fd'' = fd' ∧ stale = v := by
      simpa using h
    exact ⟨hleft out, rfl, rfl⟩

end Untouched

section Stops

variable {q : Option (Value → Bool)} {cursor cursor' : LibretrodbCursor} {v : Value}

/-- Reading on from here comes to a nil, or to a value whose containers do not fit the stack, before
the end of the file. -/
inductive Stops : RFile → Prop
  | here {fd fd' : RFile} {rv : Int} {v : Value} (hmore : fd.rest ≠ [])
      (hread : rmsgpackDomRead fd stale = some (rv, fd', v)) (hstop : rv < 0 ∨ v.isNull = true) :
      Stops fd
  | later {fd fd' : RFile} {rv : Int} {v : Value}
      (hread : rmsgpackDomRead fd stale = some (rv, fd', v)) (hgo : ¬ rv < 0)
      (hvalue : v.isNull = false) (hrest : Stops fd') : Stops fd

theorem Stops.more {fd : RFile} (h : Stops fd) : fd.rest ≠ [] := by
  induction h with
  | here hmore _ _ => exact hmore
  | later hread _ _ _ ih =>
    intro hend
    rw [domRead_end hend] at hread
    obtain rfl := congrArg (fun x : Int × RFile × Value => x.2.1) (Option.some.inj hread)
    exact ih hend

/-- Calls in a row, each with its own contents of `out`, come to one that returns another value
than zero; all of them return. -/
inductive IterationEnds : (ℕ → Value) → LibretrodbCursor → Prop
  | stop {outs : ℕ → Value} {cursor cursor' : LibretrodbCursor} {rv : Int} {v : Value}
      (hcall : libretrodbCursorReadItem cursor (outs 0) = some (rv, cursor', v)) (hrv : rv ≠ 0) :
      IterationEnds outs cursor
  | next {outs : ℕ → Value} {cursor cursor' : LibretrodbCursor} {v : Value}
      (hcall : libretrodbCursorReadItem cursor (outs 0) = some (0, cursor', v))
      (hrest : IterationEnds (fun n => outs (n + 1)) cursor') : IterationEnds outs cursor

theorem readRetry_succ (tries : ℕ) (cursor : LibretrodbCursor) (out : Value) {rv : Int} {fd : RFile}
    (h : rmsgpackDomRead cursor.fd out = some (rv, fd, v)) :
    readRetry (tries + 1) cursor out =
      if rv < 0 then some (rv, { cursor with fd := fd }, v)
      else if v.isNull then some (eof, { cursor with fd := fd, eof := true }, v)
      else if cursor.query.all (· v) then some (0, { cursor with fd := fd }, v)
      else readRetry tries { cursor with fd := fd } v := by
  rw [readRetry, h, Option.bind_some]

/-- One call with something other than a nil in `out`: it comes to a stop, or leaves one ahead
where there was one ahead. -/
theorem stops_of_call {tries : ℕ} {out : Value} (hout : out.isNull = false)
    (hopen : cursor.eof = false) {rv : Int}
    (h : readRetry tries cursor out = some (rv, cursor', v)) :
    (rv ≠ 0 ∧ Stops cursor.fd) ∨
      (rv = 0 ∧ cursor'.eof = false ∧ (Stops cursor'.fd → Stops cursor.fd)) := by
  induction tries generalizing cursor out with
  | zero => exact nomatch h
  | succ tries ih =>
    cases hread : rmsgpackDomRead cursor.fd out with
    | none =>
      rw [readRetry, hread] at h
      exact nomatch h
    | some answer =>
      obtain ⟨rv₁, fd₁, v₁⟩ := answer
      rw [readRetry_succ tries cursor out hread] at h
      obtain ⟨rv₀, v₀, hstale, hsign, hnull⟩ : ∃ rv₀ v₀,
          rmsgpackDomRead cursor.fd stale = some (rv₀, fd₁, v₀) ∧
            (rv₀ < 0 ↔ rv₁ < 0) ∧ v₀.isNull = v₁.isNull := by
        rcases domRead_out cursor.fd with hsame | ⟨fd', hleft⟩
        · exact ⟨rv₁, v₁, by rw [hsame stale, ← hsame out, hread], Iff.rfl, rfl⟩
        · rw [hleft out] at hread
          obtain ⟨rfl, rfl, rfl⟩ : 0 = rv₁ ∧ fd' = fd₁ ∧ out = v₁ := by
            simpa using hread
          exact ⟨0, stale, hleft stale, Iff.rfl, hout.symm⟩
      have hmore : rv₁ < 0 ∨ v₁.isNull = true → cursor.fd.rest ≠ [] := by
        intro hstop hend
        rw [domRead_end hend] at hread
        obtain ⟨rfl, -, rfl⟩ : 0 = rv₁ ∧ cursor.fd = fd₁ ∧ Value.int 0 = v₁ := by
          simpa using hread
        exact hstop.elim (by decide) (by decide)
      split_ifs at h with hneg hnil hkeep
      · left
        obtain rfl : rv₁ = rv := congrArg Prod.fst (Option.some.inj h)
        exact ⟨by omega, Stops.here (hmore (Or.inl hneg)) hstale (Or.inl (hsign.mpr hneg))⟩
      · left
        obtain rfl : eof = rv := congrArg Prod.fst (Option.some.inj h)
        exact ⟨by decide, Stops.here (hmore (Or.inr hnil)) hstale (Or.inr (hnull.trans hnil))⟩
      · right
        obtain rfl : (0 : Int) = rv := congrArg Prod.fst (Option.some.inj h)
        obtain rfl : { cursor with fd := fd₁ } = cursor' :=
          congrArg (fun x : Int × LibretrodbCursor × Value => x.2.1) (Option.some.inj h)
        refine ⟨rfl, hopen, fun hrest => ?_⟩
        exact Stops.later hstale (mt hsign.mp hneg)
          (hnull.trans (Bool.not_eq_true _ ▸ hnil)) hrest
      · have hvalue : v₁.isNull = false := Bool.not_eq_true _ ▸ hnil
        have hlater : Stops fd₁ → Stops cursor.fd := fun hrest =>
          Stops.later hstale (mt hsign.mp hneg) (hnull.trans hvalue) hrest
        have hopen₁ : ({ cursor with fd := fd₁ } : LibretrodbCursor).eof = false := hopen
        rcases ih hvalue hopen₁ h with ⟨hrv, hstops⟩ | ⟨hrv, heof, hback⟩
        · exact Or.inl ⟨hrv, hlater hstops⟩
        · exact Or.inr ⟨hrv, heof, fun hrest => hlater (hback hrest)⟩

theorem readItem_eq (cursor : LibretrodbCursor) (hopen : cursor.eof = false) (out : Value) :
    libretrodbCursorReadItem cursor out = readRetry (cursor.fd.rest.length + 1) cursor out := by
  unfold libretrodbCursorReadItem
  rw [hopen]
  rfl

theorem stops_of_ends {outs : ℕ → Value} (h : IterationEnds outs cursor)
    (houts : ∀ n, (outs n).isNull = false) (hopen : cursor.eof = false) : Stops cursor.fd := by
  induction h with
  | stop hcall hrv =>
    rw [readItem_eq _ hopen] at hcall
    rcases stops_of_call (houts 0) hopen hcall with ⟨-, hstops⟩ | ⟨hzero, -, -⟩
    · exact hstops
    · exact absurd hzero hrv
  | next hcall hrest ih =>
    rw [readItem_eq _ hopen] at hcall
    rcases stops_of_call (houts 0) hopen hcall with ⟨hrv, -⟩ | ⟨-, hopen', hback⟩
    · exact absurd rfl hrv
    · exact hback (ih (fun n => houts (n + 1)) hopen')

/-- With a stop ahead and tries to spare a call returns, and what is left of the iteration ends. -/
theorem call_of_stops {fd : RFile} (h : Stops fd) {tries : ℕ} (htries : fd.rest.length < tries)
    (hfd : cursor.fd = fd) (hopen : cursor.eof = false) (out : Value) :
    ∃ rv cursor' v, readRetry tries cursor out = some (rv, cursor', v) ∧
      (rv ≠ 0 ∨ rv = 0 ∧ ∀ outs, IterationEnds outs cursor') := by
  induction h generalizing tries cursor out with
  | @here fd fd' rv v hmore hread hstop =>
    obtain ⟨tries, rfl⟩ := Nat.exists_eq_succ_of_ne_zero (Nat.ne_zero_of_lt htries)
    have hout : rmsgpackDomRead cursor.fd out = some (rv, fd', v) := by
      rw [hfd]
      rcases domRead_stale hread out with hsame | ⟨-, rfl, rfl⟩
      · exact hsame
      · exact absurd hstop (by decide)
    rw [readRetry_succ tries cursor out hout]
    by_cases hneg : rv < 0
    · rw [if_pos hneg]
      exact ⟨_, _, _, rfl, Or.inl (by omega)⟩
    · rw [if_neg hneg, if_pos (hstop.resolve_left hneg)]
      exact ⟨_, _, _, rfl, Or.inl (by decide)⟩
  | @later fd fd' rv v hread hgo hvalue hrest ih =>
    have hmore : fd.rest ≠ [] := (Stops.later hread hgo hvalue hrest).more
    have hless := domRead_progress hmore hread
    obtain ⟨tries, rfl⟩ := Nat.exists_eq_succ_of_ne_zero (Nat.ne_zero_of_lt htries)
    obtain ⟨rv', v', hout, hgo'⟩ : ∃ rv' v',
        rmsgpackDomRead cursor.fd out = some (rv', fd', v') ∧ ¬ rv' < 0 := by
      rw [hfd]
      rcases domRead_stale hread out with hsame | ⟨hleft, -, -⟩
      · exact ⟨rv, v, hsame, hgo⟩
      · exact ⟨0, out, hleft, Int.lt_irrefl 0⟩
    rw [readRetry_succ tries cursor out hout, if_neg hgo']
    have hfd' : ({ cursor with fd := fd' } : LibretrodbCursor).fd = fd' := rfl
    have hnext : ∀ outs, IterationEnds outs { cursor with fd := fd' } := by
      intro outs
      obtain ⟨rv'', cursor'', v'', hcall, hdone⟩ :=
        ih (Nat.lt_succ_self _) hfd' hopen (outs 0)
      rw [← readItem_eq { cursor with fd := fd' } hopen] at hcall
      rcases hdone with hrv | ⟨rfl, hends⟩
      · exact IterationEnds.stop hcall hrv
      · exact IterationEnds.next hcall (hends _)
    by_cases hnil : v'.isNull = true
    · rw [if_pos hnil]
      exact ⟨_, _, _, rfl, Or.inl (by decide)⟩
    · rw [if_neg hnil]
      by_cases hkeep : cursor.query.all (· v') = true
      · rw [if_pos hkeep]
        exact ⟨_, _, _, rfl, Or.inr ⟨rfl, hnext⟩⟩
      · rw [if_neg hkeep]
        exact ih (by omega) hfd' hopen v'

theorem ends_of_stops (h : Stops cursor.fd) (hopen : cursor.eof = false) (outs : ℕ → Value) :
    IterationEnds outs cursor := by
  obtain ⟨rv, cursor', v, hcall, hdone⟩ :=
    call_of_stops h (Nat.lt_succ_self _) rfl hopen (outs 0)
  rw [← readItem_eq cursor hopen] at hcall
  rcases hdone with hrv | ⟨rfl, hends⟩
  · exact IterationEnds.stop hcall hrv
  · exact IterationEnds.next hcall (hends _)

theorem seek_to (fd : RFile) (n : ℕ) :
    filestreamSeek (n : Int) .start fd = (0, { fd with pos := n }) := by
  unfold filestreamSeek
  have hpos : ¬ (n : Int) < 0 := by omega
  simp only [Int.zero_add, Int.toNat_natCast]
  exact if_neg hpos

/-- Whatever the query, and whatever is in `out` before each call, the iteration ends exactly when
the documents come to a stop before the file ends. -/
theorem iteration_ends_iff (db : Libretrodb) (q : Option (Value → Bool)) :
    (∀ outs, IterationEnds outs (libretrodbCursorOpen db q)) ↔
      Stops ⟨db.path, db.root + sizeofLibretrodbHeader⟩ := by
  have hfd : (libretrodbCursorOpen db q).fd = ⟨db.path, db.root + sizeofLibretrodbHeader⟩ := by
    unfold libretrodbCursorOpen libretrodbCursorReset
    dsimp only
    rw [seek_to]
    rfl
  have hopen : (libretrodbCursorOpen db q).eof = false := rfl
  rw [← hfd]
  constructor
  · intro h
    exact stops_of_ends (h fun _ => stale) (fun _ => rfl) hopen
  · intro h outs
    exact ends_of_stops h hopen outs

/-- A header with its metadata offset at the end of the file, and nothing behind it. -/
def headerOnly : List UInt8 := [82, 65, 82, 67, 72, 68, 66, 0, 0, 0, 0, 0, 0, 0, 0, 16]

/-- Behind the last byte every call delivers a zero. -/
theorem headerOnly_never_ends :
    ¬ ∀ (path : List UInt8) (db : Libretrodb) (q : Option (Value → Bool)),
      libretrodbOpen path = some (0, some db) →
        ∀ outs, IterationEnds outs (libretrodbCursorOpen db q) := by
  intro h
  have hopen : libretrodbOpen headerOnly = some (0, some ⟨headerOnly, 0, none, 16⟩) := rfl
  have hends := h headerOnly ⟨headerOnly, 0, none, 16⟩ none hopen fun _ => stale
  have hstops : Stops ⟨headerOnly, 16⟩ := stops_of_ends hends (fun _ => rfl) rfl
  exact hstops.more rfl

end Stops

end RetroArch.LibretroDb
