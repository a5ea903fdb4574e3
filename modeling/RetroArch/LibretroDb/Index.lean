/- `libretrodb.c`, `bintree.c`: the index of a database, as it is made and searched. -/

import RetroArch.LibretroDb.Iteration

namespace RetroArch.LibretroDb

open Library.Bytes Streams

section Bintree

/-- A node that holds `NIL_NODE` is the nil tree. -/
inductive Bintree (α : Type*)
  | nil
  | node (value : α) (left right : Bintree α)

variable {α σ : Type*}

/-- There is no tree where the value is found, for which `-EINVAL` is returned. -/
def bintreeInsert (cmp : α → α → Int) (value : α) : Bintree α → Option (Bintree α)
  | .nil => some (.node value .nil .nil)
  | .node root left right =>
    if cmp root value > 0 then
      (bintreeInsert cmp value left).map fun left => .node root left right
    else if cmp root value < 0 then
      (bintreeInsert cmp value right).map fun right => .node root left right
    else
      none

/-- The first value other than zero that the callback returns ends it. -/
def bintreeIterate (cb : α → σ → Int × σ) : Bintree α → σ → Int × σ
  | .nil, ctx => (0, ctx)
  | .node value left right, ctx =>
    let (rv, ctx) := bintreeIterate cb left ctx
    if rv ≠ 0 then
      (rv, ctx)
    else
      let (rv, ctx) := cb value ctx
      if rv ≠ 0 then (rv, ctx) else bintreeIterate cb right ctx

theorem bintreeIterate_kept {cb : α → σ → Int × σ} (hcb : ∀ value ctx, (cb value ctx).2 = ctx)
    (t : Bintree α) (ctx : σ) : (bintreeIterate cb t ctx).2 = ctx := by
  induction t with
  | nil => rfl
  | node value left right ihleft ihright =>
    rw [bintreeIterate]
    dsimp only
    split_ifs
    · exact ihleft
    · rw [hcb, ihleft]
    · rw [hcb, ihleft]
      exact ihright

end Bintree

/-- `memcmp`: the difference of the first bytes that are not the same. -/
def memcmp : List UInt8 → List UInt8 → Int
  | a :: as, b :: bs => if a = b then memcmp as bs else (a.toNat : Int) - b.toNat
  | _, _ => 0

def sizeofOffset : ℕ := 8

/-- What stands in an index header on the stack. A part that nothing was stored to has no value. -/
structure LibretrodbIndex where
  name : Option (List UInt8)
  keySize : Option UInt64
  next : Option UInt64

/-- `"name"` -/
def nameKey : Buffer := ⟨[0x6e, 0x61, 0x6d, 0x65], by decide⟩

/-- `"key_size"` -/
def keySizeKey : Buffer := ⟨[0x6b, 0x65, 0x79, 0x5f, 0x73, 0x69, 0x7a, 0x65], by decide⟩

/-- `"next"` -/
def nextKey : Buffer := ⟨[0x6e, 0x65, 0x78, 0x74], by decide⟩

/-- The bytes of `idx->name`. -/
def nameLen : ℕ := 50

/-- The string `name` of `rmsgpack_dom_read_into` with its terminator, cut to the room there is. A
value of no type it has a case for leaves the list of keys, a number or no value at all makes it
use a pointer for what it is not. -/
def stringInto (items : List (Value × Value)) : Option (Option (List UInt8)) :=
  match mapValue nameKey items with
  | some (.string s) => some (some ((s.buff ++ [0]).take nameLen))
  | some .null | some (.map _) | some (.array _) => some none
  | _ => none

def uintInto (name : Buffer) (items : List (Value × Value)) : Option (Option UInt64) :=
  match mapValue name items with
  | some (.uint v) => some (some v)
  | some (.int v) => some (some v.toUInt64)
  | some .null | some (.map _) | some (.array _) => some none
  | _ => none

/-- The keys in turn, up to one whose value leaves the list. -/
def indexInto (items : List (Value × Value)) (idx : LibretrodbIndex) : Option LibretrodbIndex :=
  (stringInto items).bind fun
    | none => some idx
    | some name =>
      let idx := { idx with name := some name }
      (uintInto keySizeKey items).bind fun
        | none => some idx
        | some keySize =>
          let idx := { idx with keySize := some keySize }
          (uintInto nextKey items).map fun
            | none => idx
            | some next => { idx with next := some next }

/-- Its value is not looked at. -/
def libretrodbReadIndexHeader (fd : RFile) (idx : LibretrodbIndex) :
    Option (RFile × LibretrodbIndex) :=
  (rmsgpackDomRead fd).bind fun (rv, fd, map) =>
    if rv < 0 then
      some (fd, idx)
    else
      match map with
      | .map items => (indexInto items idx).map (fd, ·)
      | _ => some (fd, idx)

/-- The stream of a database is open for reading: `fwrite` stores nothing and returns zero. -/
def readOnlyWrite (_bs : List UInt8) (fd : RFile) : Int × RFile := (0, fd)

def libretrodbWriteIndexHeader (fd : RFile) (name : Buffer) (keySize next : UInt64) : RFile :=
  let (_, fd) := readOnlyWrite (rmsgpackWriteMapHeader 3).bytes fd
  let (_, fd) := readOnlyWrite (rmsgpackWriteString nameKey).bytes fd
  let (_, fd) := readOnlyWrite (rmsgpackWriteString name).bytes fd
  let (_, fd) := readOnlyWrite (rmsgpackWriteString keySizeKey).bytes fd
  let (_, fd) := readOnlyWrite (rmsgpackWriteUint keySize).bytes fd
  let (_, fd) := readOnlyWrite (rmsgpackWriteString nextKey).bytes fd
  (readOnlyWrite (rmsgpackWriteUint next).bytes fd).2

/-- What the loop over the documents has made: `field_size`, and the buffers in the tree. -/
structure IndexBuild where
  fieldSize : UInt8
  tree : Bintree (List UInt8)

/-- `node_compare` with the field size as it is at the time. -/
def nodeCompare (fieldSize : UInt8) (a b : List UInt8) : Int :=
  memcmp (a.take fieldSize.toNat) (b.take fieldSize.toNat)

def nodeIter (value : List UInt8) (fd : RFile) : Int × RFile :=
  let (wrote, fd) := readOnlyWrite value fd
  if wrote > 0 then (0, fd) else (-1, fd)

/-- The buffer for one document. The location goes to `(uint64_t *)buff + field_size`, and nothing is
defined where that is outside of the buffer. -/
def nodeBuffer (fieldSize : UInt8) (field : Buffer) (itemLoc : ℕ) : Option (List UInt8) :=
  let size := fieldSize.toNat + sizeofOffset
  let location := sizeofOffset * fieldSize.toNat
  if location + sizeofOffset ≤ size then
    some (field.buff.take fieldSize.toNat ++ toLE sizeofOffset itemLoc)
  else
    none

/-- The field of one document, with the size it is to have from here on. -/
def indexField (fieldName : Buffer) (fieldSize : UInt8) (item : Value) : Option (Buffer × UInt8) :=
  match item with
  | .map items =>
    match mapValue fieldName items with
    | some (.binary field) =>
      if field.buff.length = 0 then
        none
      else if fieldSize = 0 then
        some (field, UInt8.ofNat field.buff.length)
      else if field.buff.length ≠ fieldSize.toNat then
        none
      else
        some (field, fieldSize)
    | _ => none
  | _ => none

/-- The loop over the documents; `false` where it goes to `clean`. The location is the one of the
database's own stream, which the cursor does not move. Each document takes a byte at least. -/
def indexLoop (fieldName : Buffer) (itemLoc : ℕ) :
    ℕ → LibretrodbCursor → Value → IndexBuild → Option (Bool × IndexBuild)
  | 0, _, _, _ => none
  | tries + 1, cursor, item, build =>
    (libretrodbCursorReadItem cursor item).bind fun (rv, cursor, item) =>
      if rv ≠ 0 then
        some (true, build)
      else
        match indexField fieldName build.fieldSize item with
        | none => some (false, build)
        | some (field, fieldSize) =>
          (nodeBuffer fieldSize field itemLoc).bind fun buff =>
            match bintreeInsert (nodeCompare fieldSize) buff build.tree with
            | none => some (false, { build with fieldSize := fieldSize })
            | some tree => indexLoop fieldName itemLoc tries cursor item ⟨fieldSize, tree⟩

/-- `fd` is the stream of the database; a count that was never stored makes `next` indeterminate. -/
def libretrodbCreateIndex (db : Libretrodb) (fd : RFile) (name fieldName : Buffer) :
    Option (Int × RFile) :=
  let cursor := libretrodbCursorOpen db none
  (indexLoop fieldName (filestreamTell fd) (cursor.fd.rest.length + 1) cursor .null
      ⟨0, .nil⟩).bind fun (complete, build) =>
    if complete then
      let (_, fd) := filestreamSeek 0 .end fd
      db.count.map fun count =>
        let keySize := build.fieldSize.toNat
        let next := count * UInt64.ofNat (keySize + sizeofOffset)
        let stored := Buffer.ofBytes (name.buff.take (nameLen - 1))
        let fd := libretrodbWriteIndexHeader fd stored (UInt64.ofNat keySize) next
        (0, (bintreeIterate nodeIter build.tree fd).2)
    else
      some (0, fd)

/-- `strncmp(index_name, idx->name, strlen(idx->name)) == 0`, not defined where nothing was stored
or nothing ends the string. -/
def nameMatches (indexName : List UInt8) (idx : LibretrodbIndex) : Option Bool :=
  idx.name.bind fun name =>
    if 0 ∈ name then some ((name.takeWhile (· ≠ 0)).isPrefixOf indexName) else none

/-- The loop stops at the end of the file; `next` may lead back for ever. -/
def findIndexLoop (eof : ℕ) (indexName : List UInt8) :
    ℕ → Int → RFile → LibretrodbIndex → Option (Int × RFile × LibretrodbIndex)
  | 0, _, _, _ => none
  | tries + 1, offset, fd, idx =>
    if offset < eof then
      (libretrodbReadIndexHeader fd idx).bind fun (fd, idx) =>
        (nameMatches indexName idx).bind fun same =>
          if same then
            some (0, fd, idx)
          else
            idx.next.bind fun next =>
              let (_, fd) := filestreamSeek next.toInt64.toInt .current fd
              findIndexLoop eof indexName tries (filestreamTell fd) fd idx
    else
      some (-1, fd, idx)

/-- The offset starts as what the seek returns, which is no position. -/
def libretrodbFindIndex (tries : ℕ) (db : Libretrodb) (fd : RFile) (indexName : List UInt8)
    (idx : LibretrodbIndex) : Option (Int × RFile × LibretrodbIndex) :=
  let eof := fd.content.length
  let (offset, fd) := filestreamSeek (db.firstIndexOffset : Int) .start fd
  findIndexLoop eof indexName tries offset fd idx

/-- `current` counts in units of eight bytes. Nothing is defined where it leads outside of the
buffer, or where its step is no `int`; at the end of the buffer there is nothing to read. -/
def binsearch (buff item : List UInt8) (fieldSize : UInt8) (start count : ℕ) :
    Option (Int × UInt64) :=
  let mid := count / 2 % 2 ^ 32
  let itemSize := fieldSize.toNat + sizeofOffset
  let current := start + sizeofOffset * (mid * itemSize)
  if mid * itemSize < 2 ^ 31 ∧ current + fieldSize.toNat ≤ buff.length ∧ start < buff.length then
    let rv := memcmp ((buff.drop current).take fieldSize.toNat) (item.take fieldSize.toNat)
    if rv = 0 then
      let offset := current + sizeofOffset * fieldSize.toNat
      if offset + sizeofOffset ≤ buff.length then
        some (0, UInt64.ofNat (ofLE ((buff.drop offset).take sizeofOffset)))
      else
        none
    else if hcount : count = 0 then
      some (-1, 0)
    else if rv > 0 then
      binsearch buff item fieldSize start mid
    else
      binsearch buff item fieldSize (current + sizeofOffset * itemSize) (count - mid)
  else
    none
termination_by (buff.length - start, count)
decreasing_by
  · exact Prod.Lex.right _ (lt_of_le_of_lt (Nat.mod_le _ _)
      (Nat.div_lt_self (Nat.pos_of_ne_zero hcount) (by decide)))
  · apply Prod.Lex.left
    simp only [sizeofOffset] at *
    omega

/-- A read that comes short is at the end of the file, and the next one stores nothing. -/
def libretrodbFindEntry (tries : ℕ) (errno : Int) (db : Libretrodb) (fd : RFile)
    (indexName key : List UInt8) (out : Value) : Option (Int × RFile × Value) :=
  (libretrodbFindIndex tries db fd indexName ⟨none, none, none⟩).bind fun (rv, fd, idx) =>
    if rv < 0 then
      some (-1, fd, out)
    else
      idx.next.bind fun next =>
        let bufflen := next.toInt64.toInt
        if bufflen < 0 then
          some (-enomem, fd, out)
        else
          let (buff, fd) := filestreamRead bufflen.toNat fd
          if buff.length < bufflen.toNat ∨ 2 ^ 31 ≤ buff.length then
            some (-errno, fd, out)
          else
            db.count.bind fun count =>
              idx.keySize.bind fun keySize =>
                (binsearch buff key keySize.toUInt8 0 count.toNat).bind fun (rv, offset) =>
                  let fd := if rv = 0 then
                      (filestreamSeek offset.toInt64.toInt .start fd).2
                    else
                      fd
                  rmsgpackDomRead fd out

theorem createLoop_written (items : List Value) {fd : RFile} {itemCount : ℕ} {loop : CreateLoop}
    (h : createLoop items fd itemCount = some loop) :
    ∃ written, ∀ bs, filestreamWrite bs loop.fd = filestreamWrite (written ++ bs) fd := by
  induction items generalizing fd itemCount with
  | nil =>
    obtain rfl := Option.some.inj h
    exact ⟨[], fun _ => rfl⟩
  | cons item items ih =>
    rw [createLoop] at h
    dsimp only at h
    split_ifs at h
    · obtain rfl := Option.some.inj h
      exact ⟨[], fun _ => rfl⟩
    · obtain ⟨wrote, -, hrest⟩ := Option.bind_eq_some_iff.mp h
      split_ifs at hrest
      · obtain rfl := Option.some.inj hrest
        exact ⟨wrote.bytes, fun bs => filestreamWrite_filestreamWrite _ _ _⟩
      · obtain ⟨written, hwritten⟩ := ih hrest
        refine ⟨wrote.bytes ++ written, fun bs => ?_⟩
        rw [hwritten, filestreamWrite_filestreamWrite, List.append_assoc]

theorem libretrodbCreate_header {items : List Value} {rv : Int} {fd : RFile}
    (h : libretrodbCreate (filestreamOpen []) items = some (rv, fd)) (hrv : 0 ≤ rv) :
    ∃ tail, fd.content = headerBytes ++ tail := by
  obtain ⟨loop, hloop, hfinish⟩ := Option.map_eq_some_iff.mp h
  obtain ⟨written, hwritten⟩ := createLoop_written items hloop
  split_ifs at hfinish with hneg
  · obtain rfl : loop.rv = rv := congrArg Prod.fst hfinish
    exact absurd hneg (Int.not_lt.mpr hrv)
  · refine ⟨written ++ (rmsgpackWriteNil.bytes ++ metadataBytes loop.itemCount), ?_⟩
    obtain rfl : (createFinish 0 loop).2 = fd := congrArg Prod.snd hfinish
    rw [← write_header_last, createFinish]
    simp only [seek_here, libretrodbWriteMetadata_eq, filestreamWrite_filestreamWrite, hwritten,
      List.append_assoc]
    rfl

theorem libretrodbOpen_header (tail : List UInt8) :
    libretrodbOpen (headerBytes ++ tail) = some (0, some ⟨headerBytes ++ tail, 0, none, 1⟩) := by
  have hrest : (filestreamOpen (headerBytes ++ tail)).rest = headerBytes ++ tail := rfl
  have hread : filestreamRead sizeofLibretrodbHeader (filestreamOpen (headerBytes ++ tail)) =
      (headerBytes, ⟨headerBytes ++ tail, sizeofLibretrodbHeader⟩) := filestreamRead_append hrest
  have hoffset : filestreamSeek ((ofBE (headerBytes.drop 8) : ℕ) : Int) .start
      ⟨headerBytes ++ tail, sizeofLibretrodbHeader⟩ =
        (0, filestreamOpen (headerBytes ++ tail)) := rfl
  have hmetadata : libretrodbReadMetadata (filestreamOpen (headerBytes ++ tail)) =
      some (0, ⟨headerBytes ++ tail, 1⟩, none) := by
    have hfirst : (filestreamOpen (headerBytes ++ tail)).rest =
        wire (.int 0x52) ++ (headerBytes ++ tail).drop 1 := rfl
    rw [libretrodbReadMetadata, rmsgpackDomRead_wire hfirst rfl]
    rfl
  rw [libretrodbOpen]
  simp only [hread, hoffset, hmetadata]
  rfl

section Lookup

variable {tail : List UInt8}

/-- Where the first index is looked for there is a number, and nothing is stored in its header. -/
theorem libretrodbFindIndex_header (tries : ℕ) (count : Option UInt64) {fd : RFile}
    (hfd : fd.content = headerBytes ++ tail) (indexName : List UInt8) :
    libretrodbFindIndex tries ⟨headerBytes ++ tail, 0, count, 1⟩ fd indexName
      ⟨none, none, none⟩ = none := by
  have hseek : filestreamSeek ((1 : ℕ) : Int) .start fd = (0, ⟨headerBytes ++ tail, 1⟩) := by
    rw [← hfd]
    rfl
  have hsecond : (⟨headerBytes ++ tail, 1⟩ : RFile).rest =
      wire (.int 0x41) ++ (headerBytes ++ tail).drop 2 := rfl
  have hheader : libretrodbReadIndexHeader ⟨headerBytes ++ tail, 1⟩ ⟨none, none, none⟩ =
      some (⟨headerBytes ++ tail, 2⟩, ⟨none, none, none⟩) := by
    rw [libretrodbReadIndexHeader, rmsgpackDomRead_wire hsecond rfl]
    rfl
  rw [libretrodbFindIndex]
  simp only [hseek]
  cases tries with
  | zero => rfl
  | succ tries =>
    have hmore : (0 : Int) < fd.content.length := by
      rw [hfd, List.length_append, length_headerBytes]
      exact Int.natCast_pos.mpr (Nat.add_pos_left (by decide) _)
    rw [findIndexLoop, if_pos hmore, hheader]
    rfl

theorem seek_content (offset : Int) (whence : Whence) (fd : RFile) :
    (filestreamSeek offset whence fd).2.content = fd.content := by
  unfold filestreamSeek
  dsimp only
  split_ifs <;> rfl

theorem libretrodbCreateIndex_content {db : Libretrodb} {fd fd' : RFile} {name fieldName : Buffer}
    {rv : Int} (h : libretrodbCreateIndex db fd name fieldName = some (rv, fd')) :
    fd'.content = fd.content := by
  obtain ⟨⟨complete, build⟩, -, hrest⟩ := Option.bind_eq_some_iff.mp h
  dsimp only at hrest
  split_ifs at hrest
  · obtain ⟨count, -, heq⟩ := Option.map_eq_some_iff.mp hrest
    obtain rfl := congrArg Prod.snd heq
    have hkept : ∀ (value : List UInt8) (ctx : RFile), (nodeIter value ctx).2 = ctx := by
      intro value ctx
      rfl
    dsimp only
    rw [bintreeIterate_kept hkept]
    exact seek_content 0 .end fd
  · obtain rfl : fd = fd' := congrArg Prod.snd (Option.some.inj hrest)
    rfl

/-- The binary contents of a document's field. -/
def binaryField (fieldName : Buffer) : Value → Option Buffer
  | .map items =>
    match mapValue fieldName items with
    | some (.binary field) => some field
    | _ => none
  | _ => none

/-- The field is there in all of them, of one size and never the same twice. -/
structure Carries (fieldName : Buffer) (items : List Value) : Prop where
  common : ∃ size, ∀ item ∈ items, ∃ field,
    binaryField fieldName item = some field ∧ field.buff.length = size
  distinct : (items.map (binaryField fieldName)).Nodup

/-- A database that was created and opened. -/
structure Opened (items : List Value) (db : Libretrodb) : Prop where
  opened : ∃ rv fd, libretrodbCreate (filestreamOpen []) items = some (rv, fd) ∧ 0 ≤ rv ∧
    libretrodbOpen fd.content = some (0, some db)

/-- The number of documents is known after opening. -/
def CountsDocuments (items : List Value) : Prop :=
  ∃ db, Opened items db ∧ db.count = some (UInt64.ofNat items.length)

/-- The documents and no others are found by their fields. -/
structure Finds (fieldName : Buffer) (items : List Value)
    (find : List UInt8 → Option (Int × RFile × Value)) : Prop where
  stored : ∀ item ∈ items, ∀ field, binaryField fieldName item = some field →
    ∃ fd, find field.buff = some (0, fd, item)
  absent : ∀ key, (∀ item ∈ items, ∀ field, binaryField fieldName item = some field →
    field.buff ≠ key) → ∃ rv fd out, find key = some (rv, fd, out) ∧ rv < 0

/-- With this number for the count, the index that is made leads to the documents. -/
def FindsIndexed (items : List Value) (name fieldName : Buffer) (count : UInt64) (tries : ℕ)
    (errno : Int) : Prop :=
  ∃ db fd, Opened items db ∧
    libretrodbCreateIndex { db with count := some count } ⟨db.path, db.firstIndexOffset⟩ name
      fieldName = some (0, fd) ∧
    Finds fieldName items fun key =>
      libretrodbFindEntry tries errno { db with count := some count } fd name.buff key .null

theorem opened_header {items : List Value} {db : Libretrodb} (h : Opened items db) :
    ∃ tail, db = ⟨headerBytes ++ tail, 0, none, 1⟩ := by
  obtain ⟨rv, fd, hcreate, hrv, hopen⟩ := h.opened
  obtain ⟨tail, htail⟩ := libretrodbCreate_header hcreate hrv
  rw [htail, libretrodbOpen_header] at hopen
  obtain ⟨-, hdb⟩ := Prod.mk.inj (Option.some.inj hopen)
  exact ⟨tail, (Option.some.inj hdb).symm⟩

/-- No database is opened with its count, and whatever number stands there, no lookup in it comes to
a result. -/
theorem indexed_lookup_never (items : List Value) (name fieldName : Buffer) :
    ¬ CountsDocuments items ∧
      ∀ count tries errno, ¬ FindsIndexed items name fieldName count tries errno := by
  constructor
  · rintro ⟨db, hopened, hcount⟩
    obtain ⟨tail, rfl⟩ := opened_header hopened
    exact nomatch hcount
  · rintro count tries errno ⟨db, fd, hopened, hindex, hfinds⟩
    obtain ⟨tail, rfl⟩ := opened_header hopened
    have hcontent : fd.content = headerBytes ++ tail := libretrodbCreateIndex_content hindex
    have hnone : ∀ key, libretrodbFindEntry tries errno
        ⟨headerBytes ++ tail, 0, some count, 1⟩ fd name.buff key .null = none := by
      intro key
      rw [libretrodbFindEntry, libretrodbFindIndex_header tries (some count) hcontent]
      rfl
    by_cases hstored : ∃ item ∈ items, ∃ field, binaryField fieldName item = some field ∧
        field.buff = []
    · obtain ⟨item, hitem, field, hfield, -⟩ := hstored
      obtain ⟨_, hfound⟩ := hfinds.stored item hitem field hfield
      exact nomatch (hnone field.buff).symm.trans hfound
    · have habsent : ∀ item ∈ items, ∀ field, binaryField fieldName item = some field →
          field.buff ≠ [] := by
        intro item hitem field hfield hempty
        exact hstored ⟨item, hitem, field, hfield, hempty⟩
      obtain ⟨rv, fd', out, hfound, -⟩ := hfinds.absent [] habsent
      exact nomatch (hnone []).symm.trans hfound

/-- A document with one byte in its field. -/
def keyed (b : UInt8) : Value := .map [(.string ⟨[0x6b], by decide⟩, .binary (Buffer.ofBytes [b]))]

theorem keyed_not_looked_up :
    ¬ ∀ (items : List Value) (name fieldName : Buffer), Carries fieldName items →
      CountsDocuments items ∧ ∃ count tries errno,
        FindsIndexed items name fieldName count tries errno := by
  intro h
  have hcarries : Carries ⟨[0x6b], by decide⟩ [keyed 1, keyed 2] := by
    refine ⟨⟨1, ?_⟩, by decide⟩
    intro item hitem
    rcases List.mem_pair.mp hitem with rfl | rfl
    · exact ⟨⟨[1], by decide⟩, rfl, rfl⟩
    · exact ⟨⟨[2], by decide⟩, rfl, rfl⟩
  obtain ⟨⟨db, hopened, hcount⟩, -⟩ := h _ ⟨[0x69], by decide⟩ _ hcarries
  obtain ⟨tail, rfl⟩ := opened_header hopened
  exact nomatch hcount

end Lookup

end RetroArch.LibretroDb
