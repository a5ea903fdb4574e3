/- A cursor over a created database gives back the documents it was created from. -/

import RetroArch.LibretroDb.Database
import RetroArch.LibretroDb.RoundTrip

namespace RetroArch.LibretroDb

open Library.Bytes Streams

/-- A value whose lengths are those of `uint32_t` fields. -/
structure Document where
  value : Value
  lengths : sized value = true

/-- A document that `libretrodb_create` takes and that the reader gives back. -/
structure Storable (d : Document) : Prop where
  valid : 0 ≤ libretrodbValidateDocument d.value
  notNull : d.value ≠ .null
  roundTrips : RoundTrips d.value

def values (docs : List Document) : List Value := docs.map Document.value

theorem createLoop_storable {docs : List Document} (h : ∀ d ∈ docs, Storable d) (fd : RFile)
    (itemCount : ℕ) : ∃ fd', createLoop (values docs) fd itemCount =
        some ⟨1, fd', itemCount + docs.length⟩ ∧
      ∀ bs, filestreamWrite bs fd' = filestreamWrite (wireItems (values docs) ++ bs) fd := by
  induction docs generalizing fd itemCount with
  | nil => exact ⟨fd, rfl, fun bs => rfl⟩
  | cons d docs ih =>
    have hd := h d List.mem_cons_self
    obtain ⟨fd', hloop, hwrite⟩ := ih (fun d' hd' => h d' (List.mem_cons_of_mem d hd'))
      (filestreamWrite (wire d.value) fd) (itemCount + 1)
    have hvalid : ¬ libretrodbValidateDocument d.value < 0 := Int.not_lt.mpr hd.valid
    have hcount : ¬ ((counted d.value : Int) < 0) := Int.not_lt.mpr (Int.natCast_nonneg _)
    refine ⟨fd', ?_, fun bs => ?_⟩
    · show createLoop (d.value :: values docs) fd itemCount = _
      rw [createLoop]
      simp only
      rw [if_neg hvalid, (hd.roundTrips.anywhere d.lengths).1, Option.bind_some]
      simp only
      rw [if_neg hcount, hloop, List.length_cons, Nat.add_assoc, Nat.add_comm 1]
    · rw [hwrite, filestreamWrite_filestreamWrite]
      show _ = filestreamWrite (wire d.value ++ wireItems (values docs) ++ bs) fd
      rw [List.append_assoc]

/-- What stands after the sentinel. -/
def metadataBytes (count : ℕ) : List UInt8 :=
  (rmsgpackWriteMapHeader 1).bytes ++ (rmsgpackWriteString countKey).bytes ++
    (rmsgpackWriteUint (UInt64.ofNat count)).bytes

theorem libretrodbWriteMetadata_eq (count : ℕ) (fd : RFile) :
    libretrodbWriteMetadata count fd = filestreamWrite (metadataBytes count) fd := by
  rw [libretrodbWriteMetadata, filestreamWrite_filestreamWrite, filestreamWrite_filestreamWrite, metadataBytes,
    List.append_assoc]

/-- The header as it is written: the seek before it returns zero, and so does the offset in it. -/
def headerBytes : List UInt8 := magicNumber ++ List.replicate 9 0

/-- The file as it is left: header, documents, sentinel, metadata. -/
def created (docs : List Document) : List UInt8 :=
  headerBytes ++ (wireItems (values docs) ++
    (rmsgpackWriteNil.bytes ++ metadataBytes docs.length))

theorem length_headerBytes : headerBytes.length = sizeofLibretrodbHeader := by decide

theorem seek_here (fd : RFile) : filestreamSeek 0 .current fd = (0, fd) := by
  rw [filestreamSeek]
  simp only [Int.add_zero]
  rw [if_neg (Int.not_lt.mpr (Int.natCast_nonneg _)), Int.toNat_natCast]

theorem write_header_last (data : List UInt8) :
    (filestreamWrite headerBytes
      { filestreamWrite data ⟨[], sizeofLibretrodbHeader⟩ with pos := 0 }).content =
      headerBytes ++ data := by
  have hdata : (filestreamWrite data ⟨[], sizeofLibretrodbHeader⟩).content =
      List.replicate sizeofLibretrodbHeader 0 ++ data := by
    rw [filestreamWrite]
    simp only [List.drop_nil, List.append_nil]
    rfl
  rw [filestreamWrite, RFile.before]
  simp only [List.take_zero, List.nil_append, Nat.zero_add, hdata, length_headerBytes]
  rw [List.drop_left' (List.length_replicate)]

theorem libretrodbCreate_storable {docs : List Document} (h : ∀ d ∈ docs, Storable d) :
    ∃ fd, libretrodbCreate (filestreamOpen []) (values docs) = some (1, fd) ∧
      fd.content = created docs := by
  obtain ⟨fd, hloop, hwrite⟩ := createLoop_storable h ⟨[], sizeofLibretrodbHeader⟩ 0
  rw [Nat.zero_add] at hloop
  have hdata : filestreamWrite (metadataBytes docs.length)
      (filestreamWrite rmsgpackWriteNil.bytes fd) = filestreamWrite (wireItems (values docs) ++
        (rmsgpackWriteNil.bytes ++ metadataBytes docs.length)) ⟨[], sizeofLibretrodbHeader⟩ := by
    rw [filestreamWrite_filestreamWrite, hwrite]
  have hfinish : createFinish 0 ⟨1, fd, docs.length⟩ = (1, filestreamWrite headerBytes
      { filestreamWrite (wireItems (values docs) ++
        (rmsgpackWriteNil.bytes ++ metadataBytes docs.length)) ⟨[], sizeofLibretrodbHeader⟩ with
          pos := 0 }) := by
    rw [createFinish]
    simp only [seek_here, libretrodbWriteMetadata_eq, hdata]
    rfl
  have hcreate : libretrodbCreate (filestreamOpen []) (values docs) =
      (createLoop (values docs) ⟨[], sizeofLibretrodbHeader⟩ 0).map fun loop =>
        if loop.rv < 0 then (loop.rv, loop.fd) else createFinish 0 loop := rfl
  refine ⟨_, ?_, write_header_last _⟩
  rw [hcreate, hloop, Option.map_some]
  exact congrArg some hfinish

theorem readMetadata_created (docs : List Document) :
    libretrodbReadMetadata (filestreamOpen (created docs)) =
      some (0, ⟨created docs, 1⟩, none) := by
  have hrest : (filestreamOpen (created docs)).rest =
      wire (.int 0x52) ++ (created docs).drop 1 := rfl
  rw [libretrodbReadMetadata, rmsgpackDomRead_wire hrest rfl]
  rfl

theorem libretrodbOpen_created (docs : List Document) :
    libretrodbOpen (created docs) = some (0, some ⟨created docs, 0, none, 1⟩) := by
  have hrest : (filestreamOpen (created docs)).rest = headerBytes ++
      (wireItems (values docs) ++ (rmsgpackWriteNil.bytes ++ metadataBytes docs.length)) := rfl
  have hread : filestreamRead sizeofLibretrodbHeader (filestreamOpen (created docs)) =
      (headerBytes, ⟨created docs, sizeofLibretrodbHeader⟩) := filestreamRead_append hrest
  have hoffset : filestreamSeek ((ofBE (headerBytes.drop 8) : ℕ) : Int) .start
      ⟨created docs, sizeofLibretrodbHeader⟩ = (0, filestreamOpen (created docs)) := rfl
  rw [libretrodbOpen]
  simp only [hread, hoffset, readMetadata_created]
  rfl

theorem libretrodbCursorOpen_created (docs : List Document) (count : Option UInt64) (first : ℕ)
    (q : Option (Value → Bool)) :
    libretrodbCursorOpen ⟨created docs, 0, count, first⟩ q =
      ⟨⟨created docs, sizeofLibretrodbHeader⟩, false, q, 0⟩ := rfl

section Iterating

variable {q : Option (Value → Bool)} {tail : List UInt8}

/-- The documents a cursor gives out. -/
def selected (q : Option (Value → Bool)) (docs : List Document) : List Document :=
  docs.filter fun d => q.all (· d.value)

theorem selected_cons_pos {d : Document} {docs : List Document} (h : q.all (· d.value) = true) :
    selected q (d :: docs) = d :: selected q docs := List.filter_cons_of_pos h

theorem selected_cons_neg {d : Document} {docs : List Document} (h : ¬ q.all (· d.value) = true) :
    selected q (d :: docs) = selected q docs := List.filter_cons_of_neg h

/-- A cursor with these documents, the sentinel and the metadata before it. -/
structure Before (docs : List Document) (tail : List UInt8) (cursor : LibretrodbCursor) : Prop where
  rest : cursor.fd.rest = wireItems (values docs) ++ (rmsgpackWriteNil.bytes ++ tail)
  open_ : cursor.eof = false

theorem isNull_eq_false {v : Value} (h : v ≠ .null) : v.isNull = false := by
  cases v with
  | null => exact absurd rfl h
  | _ => rfl

theorem readRetry_sentinel {cursor : LibretrodbCursor} (h : Before [] tail cursor) (tries : ℕ)
    (out : Value) : readRetry (tries + 1) cursor out =
      some (eof, { cursor with fd := cursor.fd.advance 1, eof := true }, .null) := by
  have hrest : cursor.fd.rest = wire .null ++ tail := h.rest
  rw [readRetry, rmsgpackDomRead_wire hrest rfl out]
  rfl

theorem readRetry_document {d : Document} {docs : List Document} (hd : Storable d)
    {cursor : LibretrodbCursor} (h : Before (d :: docs) tail cursor) (tries : ℕ) (out : Value) :
    ∃ fd, Before docs tail { cursor with fd := fd } ∧
      readRetry (tries + 1) cursor out = if cursor.query.all (· d.value) then
        some (0, { cursor with fd := fd }, d.value)
      else
        readRetry tries { cursor with fd := fd } d.value := by
  have hrest : cursor.fd.rest = wire d.value ++
      (wireItems (values docs) ++ (rmsgpackWriteNil.bytes ++ tail)) := by
    rw [h.rest]
    exact List.append_assoc _ _ _
  refine ⟨_, ⟨RFile.rest_advance_append hrest, h.open_⟩, ?_⟩
  rw [readRetry, (hd.roundTrips.anywhere d.lengths).2 _ _ _ hrest, Option.bind_some]
  simp only [Int.lt_irrefl, if_false, isNull_eq_false hd.notNull, Bool.false_eq_true]
  rfl

theorem readRetry_spec {docs : List Document} (hdocs : ∀ d ∈ docs, Storable d) {tries : ℕ}
    (htries : docs.length < tries) {cursor : LibretrodbCursor} (h : Before docs tail cursor)
    (out : Value) : match selected cursor.query docs with
    | [] => ∃ fd, readRetry tries cursor out = some (eof, { cursor with fd := fd, eof := true }, .null)
    | d :: ds => ∃ fd rest, readRetry tries cursor out = some (0, { cursor with fd := fd }, d.value) ∧
        Before rest tail { cursor with fd := fd } ∧ selected cursor.query rest = ds ∧
        ∀ d' ∈ rest, Storable d' := by
  induction docs generalizing tries cursor out with
  | nil =>
    obtain ⟨tries, rfl⟩ := Nat.exists_eq_succ_of_ne_zero (Nat.ne_zero_of_lt htries)
    exact ⟨_, readRetry_sentinel h tries out⟩
  | cons d docs ih =>
    obtain ⟨tries, rfl⟩ := Nat.exists_eq_succ_of_ne_zero (Nat.ne_zero_of_lt htries)
    obtain ⟨fd, hbefore, hread⟩ := readRetry_document (hdocs d List.mem_cons_self) h tries out
    have hrest : ∀ d' ∈ docs, Storable d' := fun d' hd' => hdocs d' (List.mem_cons_of_mem d hd')
    by_cases hq : cursor.query.all (· d.value) = true
    · rw [selected_cons_pos hq]
      rw [if_pos hq] at hread
      exact ⟨fd, docs, hread, hbefore, rfl, hrest⟩
    · rw [selected_cons_neg hq]
      rw [if_neg hq] at hread
      rw [List.length_cons] at htries
      have hmore := ih hrest (Nat.lt_of_succ_lt_succ htries) hbefore d.value
      rw [hread]
      exact hmore

/-- The results of calls in a row: the items in order, and the end ever after. -/
def results (n : ℕ) (items : List Value) : List (Int × Value) :=
  (items.take n).map (fun item => (0, item)) ++ List.replicate (n - items.length) (eof, .null)

theorem results_zero (items : List Value) : results 0 items = [] := by
  rw [results, List.take_zero, Nat.zero_sub]
  rfl

theorem results_nil (n : ℕ) : results n [] = List.replicate n (eof, .null) := by
  rw [results, List.take_nil]
  rfl

theorem results_succ_nil (n : ℕ) : results (n + 1) [] = (eof, .null) :: results n [] := by
  rw [results_nil, results_nil, List.replicate_succ]

theorem results_cons (n : ℕ) (item : Value) (items : List Value) :
    results (n + 1) (item :: items) = (0, item) :: results n items := by
  rw [results, List.take_succ_cons, List.length_cons, Nat.add_sub_add_right]
  rfl

theorem readItems_ended (n : ℕ) {cursor : LibretrodbCursor} (h : cursor.eof = true) :
    readItems n cursor = some (results n []) := by
  induction n with
  | zero => rfl
  | succ n ih =>
    rw [readItems, libretrodbCursorReadItem, if_pos h, Option.bind_some]
    simp only
    rw [ih, results_succ_nil]
    rfl

theorem length_le_wireItems (items : List Value) : items.length ≤ (wireItems items).length := by
  induction items with
  | nil => exact Nat.le_refl 0
  | cons item items ih =>
    have hitem := wire_pos item
    rw [wireItems, List.length_append, List.length_cons]
    omega

theorem readItems_spec {docs : List Document} (hdocs : ∀ d ∈ docs, Storable d)
    {cursor : LibretrodbCursor} (h : Before docs tail cursor) (n : ℕ) :
    readItems n cursor = some (results n (values (selected cursor.query docs))) := by
  induction n generalizing docs cursor with
  | zero => rw [readItems, results_zero]
  | succ n ih =>
    have htries : docs.length < cursor.fd.rest.length + 1 := by
      have hle := length_le_wireItems (values docs)
      rw [values, List.length_map] at hle
      rw [h.rest, List.length_append, values]
      omega
    have hread := readRetry_spec hdocs htries h .null
    have hopen : ¬ cursor.eof = true := by rw [h.open_]; exact Bool.false_ne_true
    rw [readItems, libretrodbCursorReadItem, if_neg hopen]
    split at hread
    · rename_i hselected
      obtain ⟨fd, hread⟩ := hread
      rw [hread, Option.bind_some, hselected]
      simp only
      rw [readItems_ended n rfl, Option.map_some, ← results_succ_nil]
      rfl
    · rename_i d ds hselected
      obtain ⟨fd, rest, hread, hbefore, hrest, hstorable⟩ := hread
      have hmore := ih hstorable hbefore
      rw [hread, Option.bind_some, hselected]
      simp only
      rw [hmore, hrest, Option.map_some, ← results_cons]
      rfl

theorem selected_none (docs : List Document) : selected none docs = docs :=
  List.filter_eq_self.mpr fun _ _ => rfl

theorem values_selected (keep : Value → Bool) (docs : List Document) :
    values (selected (some keep) docs) = (values docs).filter keep := by
  rw [values, selected, values, List.filter_map]
  rfl

/-- A database created from documents that pass the check and come back from their encodings gives
them out in order to a cursor with no query, and those that pass the query to a cursor with one. -/
theorem database_iterates (docs : List Document)
    (hvalid : ∀ d ∈ docs, 0 ≤ libretrodbValidateDocument d.value)
    (hnull : ∀ d ∈ docs, d.value ≠ .null) (hback : ∀ d ∈ docs, RoundTrips d.value) :
    ∃ rv fd db, libretrodbCreate (filestreamOpen []) (values docs) = some (rv, fd) ∧ 0 ≤ rv ∧
      libretrodbOpen fd.content = some (0, some db) ∧
      (∀ n, readItems n (libretrodbCursorOpen db none) = some (results n (values docs))) ∧
      ∀ keep n, readItems n (libretrodbCursorOpen db (some keep)) =
        some (results n ((values docs).filter keep)) := by
  have hdocs : ∀ d ∈ docs, Storable d := fun d hd => ⟨hvalid d hd, hnull d hd, hback d hd⟩
  obtain ⟨fd, hcreate, hcontent⟩ := libretrodbCreate_storable hdocs
  have hopen : libretrodbOpen fd.content = some (0, some ⟨created docs, 0, none, 1⟩) := by
    rw [hcontent]
    exact libretrodbOpen_created docs
  have hcursor : ∀ q : Option (Value → Bool), Before docs (metadataBytes docs.length)
      (libretrodbCursorOpen ⟨created docs, 0, none, 1⟩ q) := by
    intro q
    refine ⟨?_, rfl⟩
    rw [libretrodbCursorOpen_created, RFile.rest, ← length_headerBytes]
    exact List.drop_left
  refine ⟨1, fd, _, hcreate, by decide, hopen, fun n => ?_, fun keep n => ?_⟩
  · rw [readItems_spec hdocs (hcursor none), libretrodbCursorOpen_created, selected_none]
  · rw [readItems_spec hdocs (hcursor (some keep)), libretrodbCursorOpen_created, values_selected]

/-- A document of one entry. -/
def entry (v : Int64) : Document := ⟨.map [(.string ⟨[0x61], one_byte⟩, .int v)], rfl⟩

theorem entry_roundTrips (v : Int64) : RoundTrips (entry v).value := by
  have hshort := rmsgpackWriteInt_short v
  have hcount : counted (entry v).value =
      (rmsgpackWriteMapHeader 1).bytes.length +
        ((rmsgpackWriteString ⟨[0x61], by decide⟩).bytes.length % 2 ^ 32 +
          (rmsgpackWriteInt v).bytes.length + 0) := rfl
  refine (roundTrips_of_trueless rfl rfl ?_).mpr rfl
  rw [hcount]
  have hkey : (rmsgpackWriteString ⟨[0x61], by decide⟩).bytes.length = 2 := rfl
  have hmap : (rmsgpackWriteMapHeader 1).bytes.length = 1 := rfl
  omega

theorem database_iterates_two :
    ∃ rv fd db, libretrodbCreate (filestreamOpen []) (values [entry 1, entry (-200)]) =
        some (rv, fd) ∧ 0 ≤ rv ∧ libretrodbOpen fd.content = some (0, some db) ∧
      (∀ n, readItems n (libretrodbCursorOpen db none) =
        some (results n (values [entry 1, entry (-200)]))) ∧
      ∀ keep n, readItems n (libretrodbCursorOpen db (some keep)) =
        some (results n ((values [entry 1, entry (-200)]).filter keep)) := by
  apply database_iterates
  · decide
  · intro d hd
    rcases List.mem_pair.mp hd with rfl | rfl <;> exact Value.noConfusion
  · intro d hd
    rcases List.mem_pair.mp hd with rfl | rfl
    · exact entry_roundTrips 1
    · exact entry_roundTrips (-200)

end Iterating

end RetroArch.LibretroDb
