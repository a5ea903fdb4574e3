/- `libretrodb_query_filter`: what a query means for a value. -/

import RetroArch.LibretroDb.Comparison
import RetroArch.LibretroDb.Glob
import RetroArch.LibretroDb.Iteration
import RetroArch.LibretroDb.QueryGrammar
import RetroArch.LibretroDb.QueryRange

namespace RetroArch.LibretroDb.Query

open Comparison Streams

def queryFuncIsTrue (input : Value) (argv : List Argument) : Bool :=
  match argv, input with
  | [], .bool b => b
  | _, _ => false

/-- The value of a key, nil where it is missing. -/
def fieldOf (items : List (Value × Value)) (key : Value) : Value :=
  ((findKey (fun _ _ => false) key items).bind (items[·]?)).elim .null Prod.snd

mutual

/-- The test for a literal, or what a call gives; `none` where it may read an argument that was not
stored. -/
def testArgument (input : Value) : Argument → Option Bool
  | .value value => some (funcEquals input [.value value])
  | .uninitialized => none
  | .invocation .isTrue argv => some (queryFuncIsTrue input argv)
  | .invocation .operatorOr argv => queryFuncOperatorOr input argv
  | .invocation .operatorAnd argv => queryFuncOperatorAnd input false argv
  | .invocation .between argv =>
    if allInitialized argv then some (queryFuncBetween input argv) else none
  | .invocation .glob argv =>
    if allInitialized argv then some (queryFuncGlob input argv) else none
  | .invocation .allMap argv =>
    if argv.length % 2 ≠ 0 then some false
    else
      match input with
      | .map items => queryFuncAllMap items argv
      | _ => some true

def queryFuncOperatorOr (input : Value) : List Argument → Option Bool
  | [] => some false
  | arg :: argv =>
    (testArgument input arg).bind fun res =>
      if res then some res else queryFuncOperatorOr input argv

/-- `res` is what the argument before gave. -/
def queryFuncOperatorAnd (input : Value) (res : Bool) : List Argument → Option Bool
  | [] => some res
  | arg :: argv =>
    (testArgument input arg).bind fun res =>
      if res then queryFuncOperatorAnd input res argv else some res

/-- The loop over the pairs of a table. -/
def queryFuncAllMap (items : List (Value × Value)) : List Argument → Option Bool
  | .value key :: arg :: argv =>
    (testArgument (fieldOf items key) arg).bind fun res =>
      if res then queryFuncAllMap items argv else some res
  | .uninitialized :: _ => none
  | .invocation _ _ :: _ => some false
  | _ => some true

end

def libretrodbQueryFilter (q : Invocation) (v : Value) : Option Bool := testArgument v q.argument

/-- The arguments of a table. -/
def pairs (fields : List (Value × Argument)) : List Argument :=
  fields.flatMap fun f => [.value f.1, f.2]

/-- The values that an argument is met by. -/
inductive Meets : Value → Argument → Prop
  | equal {input value : Value} (hmap : ∀ items, input ≠ .map items)
      (harray : ∀ items, input ≠ .array items)
      (h : input = asInput input value ∨ DifferBehind input (asInput input value)) :
      Meets input (.value value)
  | isTrue : Meets (.bool true) (.invocation .isTrue [])
  | any {input : Value} {arg : Argument} {argv : List Argument} (harg : arg ∈ argv)
      (h : Meets input arg) : Meets input (.invocation .operatorOr argv)
  | all {input : Value} {argv : List Argument} (hne : argv ≠ [])
      (h : ∀ arg ∈ argv, Meets input arg) : Meets input (.invocation .operatorAnd argv)
  | between {input : Value} {argv : List Argument} (h : queryFuncBetween input argv = true) :
      Meets input (.invocation .between argv)
  | glob {pattern text : LibretroDb.Buffer}
      (h : Globs (pattern.buff.takeWhile (· ≠ 0)) (text.buff.takeWhile (· ≠ 0))) :
      Meets (.string text) (.invocation .glob [.value (.string pattern)])
  | table {items : List (Value × Value)} {argv : List Argument} (fields : List (Value × Argument))
      (hargv : argv = pairs fields) (h : ∀ f ∈ fields, Meets (fieldOf items f.1) f.2) :
      Meets (.map items) (.invocation .allMap argv)
  | noTable {input : Value} {argv : List Argument} (hinput : ∀ items, input ≠ .map items)
      (h : argv.length % 2 = 0) : Meets input (.invocation .allMap argv)

section Evaluation

open scoped Classical

variable {b : Bool} {p : Prop} {input value : Value} {argv : List Argument}
  {items : List (Value × Value)}

theorem some_eq_decide (h : b = true ↔ p) : some b = some (decide p) :=
  congrArg some (Bool.eq_iff_iff.mpr (h.trans decide_eq_true_iff.symm))

theorem meets_value : funcEquals input [.value value] = true ↔ Meets input (.value value) := by
  rw [funcEquals, beq_iff_eq, cmp_eq_zero]
  constructor
  · rintro ⟨-, hmap, harray, h⟩
    exact .equal hmap harray h
  · intro h
    cases h with
    | equal hmap harray h => exact ⟨rfl, hmap, harray, h⟩

theorem meets_isTrue :
    queryFuncIsTrue input argv = true ↔ Meets input (.invocation .isTrue argv) := by
  constructor
  · intro h
    unfold queryFuncIsTrue at h
    split at h
    · exact h ▸ .isTrue
    · exact absurd h Bool.false_ne_true
  · intro h
    cases h
    rfl

theorem meets_glob : queryFuncGlob input argv = true ↔ Meets input (.invocation .glob argv) := by
  constructor
  · intro h
    unfold queryFuncGlob at h
    split at h
    · exact .glob ((rlFnmatch_iff _ _).mp h)
    · exact absurd h Bool.false_ne_true
  · intro h
    cases h with
    | glob h => exact (rlFnmatch_iff _ _).mpr h

theorem meets_nil : Meets (.map items) (.invocation .allMap []) :=
  .table [] rfl fun _ hf => absurd hf List.not_mem_nil

theorem meets_cons {key arg : Argument} :
    Meets (.map items) (.invocation .allMap (key :: arg :: argv)) ↔
      ∃ value, key = .value value ∧ Meets (fieldOf items value) arg ∧
        Meets (.map items) (.invocation .allMap argv) := by
  constructor
  · intro h
    cases h with
    | noTable hinput h => exact absurd rfl (hinput items)
    | table fields hargv h =>
      cases fields with
      | nil => cases hargv
      | cons f fields =>
        cases hargv
        rw [List.forall_mem_cons] at h
        exact ⟨_, rfl, h.1, .table fields rfl h.2⟩
  · rintro ⟨value, rfl, harg, h⟩
    cases h with
    | noTable hinput h => exact absurd rfl (hinput items)
    | table fields hargv h =>
      exact .table ((value, arg) :: fields) (hargv ▸ rfl)
        (List.forall_mem_cons.mpr ⟨harg, h⟩)

theorem length_pairs (fields : List (Value × Argument)) : (pairs fields).length % 2 = 0 := by
  simp [pairs]

theorem meets_even (h : Meets input (.invocation .allMap argv)) : argv.length % 2 = 0 := by
  cases h with
  | noTable _ h => exact h
  | table fields hargv _ => rw [hargv, length_pairs]

mutual

theorem testArgument_eq (input : Value) (arg : Argument) (h : arg.initialized = true) :
    testArgument input arg = some (decide (Meets input arg)) := by
  cases arg with
  | value value => exact some_eq_decide meets_value
  | uninitialized => exact absurd h Bool.false_ne_true
  | invocation func argv =>
    have hargv : allInitialized argv = true := h
    cases func with
    | isTrue => exact some_eq_decide meets_isTrue
    | operatorOr =>
      rw [testArgument, operatorOr_eq input argv hargv]
      refine some_eq_decide ?_
      rw [decide_eq_true_iff]
      constructor
      · rintro ⟨arg, harg, h⟩
        exact .any harg h
      · intro h
        cases h with
        | any harg h => exact ⟨_, harg, h⟩
    | operatorAnd =>
      rw [testArgument, operatorAnd_eq input false argv hargv]
      refine some_eq_decide ?_
      rw [decide_eq_true_iff]
      constructor
      · rintro ⟨hne, h⟩
        exact .all (fun hnil => Bool.false_ne_true (hne hnil)) h
      · intro h
        cases h with
        | all hne h => exact ⟨fun hnil => absurd hnil hne, h⟩
    | between =>
      rw [testArgument, if_pos hargv]
      refine some_eq_decide ⟨.between, fun h => ?_⟩
      cases h with
      | between h => exact h
    | glob =>
      rw [testArgument, if_pos hargv]
      exact some_eq_decide meets_glob
    | allMap =>
      by_cases heven : argv.length % 2 = 0
      · cases input with
        | map items =>
          rw [testArgument, if_neg (not_not_intro heven), allMap_eq items argv hargv heven]
        | _ =>
          rw [testArgument, if_neg (not_not_intro heven)]
          · exact some_eq_decide (iff_of_true rfl (.noTable (by simp) heven))
          · simp
      · have hodd : testArgument input (.invocation .allMap argv) = some false := by
          cases input <;> simp [testArgument, heven]
        rw [hodd]
        exact some_eq_decide (iff_of_false Bool.false_ne_true fun h => heven (meets_even h))

theorem operatorOr_eq (input : Value) (argv : List Argument) (h : allInitialized argv = true) :
    queryFuncOperatorOr input argv = some (decide (∃ arg ∈ argv, Meets input arg)) := by
  cases argv with
  | nil => simp [queryFuncOperatorOr]
  | cons arg argv =>
    rw [allInitialized, Bool.and_eq_true] at h
    rw [queryFuncOperatorOr, testArgument_eq input arg h.1, Option.bind_some]
    by_cases hmeets : Meets input arg
    · simp [hmeets]
    · simp [hmeets, operatorOr_eq input argv h.2]

theorem operatorAnd_eq (input : Value) (res : Bool) (argv : List Argument)
    (h : allInitialized argv = true) : queryFuncOperatorAnd input res argv =
      some (decide ((argv = [] → res = true) ∧ ∀ arg ∈ argv, Meets input arg)) := by
  cases argv with
  | nil => simp [queryFuncOperatorAnd]
  | cons arg argv =>
    rw [allInitialized, Bool.and_eq_true] at h
    rw [queryFuncOperatorAnd, testArgument_eq input arg h.1, Option.bind_some]
    by_cases hmeets : Meets input arg
    · simp [hmeets, operatorAnd_eq input true argv h.2]
    · simp [hmeets]

theorem allMap_eq (items : List (Value × Value)) (argv : List Argument)
    (h : allInitialized argv = true) (heven : argv.length % 2 = 0) : queryFuncAllMap items argv =
      some (decide (Meets (.map items) (.invocation .allMap argv))) := by
  cases argv with
  | nil =>
    have hnil : queryFuncAllMap items [] = some true := by simp [queryFuncAllMap]
    rw [hnil]
    exact some_eq_decide (iff_of_true rfl meets_nil)
  | cons key argv =>
    cases argv with
    | nil => exact absurd heven (by simp)
    | cons arg argv =>
      rw [allInitialized, allInitialized, Bool.and_eq_true, Bool.and_eq_true] at h
      have heven' : argv.length % 2 = 0 := by
        rw [List.length_cons, List.length_cons] at heven
        omega
      have hrest := allMap_eq items argv h.2.2 heven'
      cases key with
      | value key =>
        rw [queryFuncAllMap, testArgument_eq _ arg h.2.1, Option.bind_some]
        by_cases hmeets : Meets (fieldOf items key) arg
        · simp [hmeets, hrest, meets_cons]
        · simp [hmeets, meets_cons]
      | uninitialized => exact absurd h.1 Bool.false_ne_true
      | invocation func args =>
        rw [queryFuncAllMap]
        simp [meets_cons]

end

/-- A query all of whose arguments were stored keeps the values that it means. -/
theorem query_filters (q : Invocation) (h : allInitialized q.argv = true) (v : Value) :
    ∃ res, libretrodbQueryFilter q v = some res ∧ (res = true ↔ Meets v q.argument) :=
  ⟨_, testArgument_eq v q.argument h, decide_eq_true_iff⟩

end Evaluation

section Calls

inductive Call
  | readItem
  | reset

/-- What the calls that read return and leave in `out`. -/
def runCalls : List Call → LibretrodbCursor → Option (List (Int × Value))
  | [], _ => some []
  | .readItem :: calls, cursor =>
    (libretrodbCursorReadItem cursor .null).bind fun (rv, cursor, out) =>
      (runCalls calls cursor).map ((rv, out) :: ·)
  | .reset :: calls, cursor => runCalls calls (libretrodbCursorReset cursor)

/-- The replies of a list, of which `left` was not given out yet. -/
def replies (items : List Value) : List Call → List Value → List (Int × Value)
  | [], _ => []
  | .readItem :: calls, [] => (eof, .null) :: replies items calls []
  | .readItem :: calls, item :: left => (0, item) :: replies items calls left
  | .reset :: calls, _ => replies items calls items

variable {docs rest : List Document} {q : Option (Value → Bool)} {left : List Value}
  {cursor : LibretrodbCursor} {tail : List UInt8}

/-- A cursor of a created database that has still to give out what is left. -/
structure Reading (docs : List Document) (q : Option (Value → Bool)) (left : List Value)
    (cursor : LibretrodbCursor) : Prop where
  content : cursor.fd.content = created docs
  root : cursor.root = 0
  query : cursor.query = q
  left : cursor.eof = true ∧ left = [] ∨ ∃ rest, Before rest (metadataBytes docs.length) cursor ∧
    (∀ d ∈ rest, Storable d) ∧ left = values (selected q rest)

theorem Reading.reset (hdocs : ∀ d ∈ docs, Storable d) (h : Reading docs q left cursor) :
    Reading docs q (values (selected q docs)) (libretrodbCursorReset cursor) := by
  obtain ⟨⟨content, pos⟩, ended, query, root⟩ := cursor
  obtain ⟨rfl, rfl, rfl, -⟩ := h
  have hrest : (created docs).drop headerBytes.length = _ := List.drop_left
  exact ⟨rfl, rfl, rfl, .inr ⟨docs, ⟨hrest, rfl⟩, hdocs, rfl⟩⟩

theorem readRetry_content (hdocs : ∀ d ∈ rest, Storable d) (h : Before rest tail cursor)
    {tries : ℕ} {out : Value} {r : Int × LibretrodbCursor × Value}
    (hread : readRetry tries cursor out = some r) :
    r.2.1.fd.content = cursor.fd.content := by
  induction rest generalizing tries cursor out with
  | nil =>
    cases tries with
    | zero => cases hread
    | succ tries =>
      rw [readRetry_sentinel h] at hread
      cases hread
      rfl
  | cons d rest ih =>
    cases tries with
    | zero => cases hread
    | succ tries =>
      have hd := hdocs d List.mem_cons_self
      have hrest : cursor.fd.rest = wire d.value ++
          (wireItems (values rest) ++ (rmsgpackWriteNil.bytes ++ tail)) :=
        h.rest.trans (List.append_assoc _ _ _)
      rw [readRetry, (hd.roundTrips.anywhere d.lengths).2 _ _ _ hrest, Option.bind_some] at hread
      simp only [Int.lt_irrefl, if_false, isNull_eq_false hd.notNull, Bool.false_eq_true] at hread
      split at hread
      · cases hread
        rfl
      · have hnext : Before rest tail
            { cursor with fd := cursor.fd.advance (wire d.value).length } :=
          ⟨RFile.rest_advance_append hrest, h.open_⟩
        have hmore := ih (fun d' hd' => hdocs d' (List.mem_cons_of_mem d hd')) hnext hread
        exact hmore

theorem Reading.read (h : Reading docs q left cursor) : ∃ cursor',
    Reading docs q left.tail cursor' ∧ libretrodbCursorReadItem cursor .null =
      some (if left = [] then eof else 0, cursor', left.headD .null) := by
  obtain ⟨hcontent, hroot, rfl, ⟨heof, rfl⟩ | ⟨rest, hbefore, hdocs, hleft⟩⟩ := h
  · exact ⟨cursor, ⟨hcontent, hroot, rfl, .inl ⟨heof, rfl⟩⟩, if_pos heof⟩
  have htries : rest.length < cursor.fd.rest.length + 1 := by
    have hle := length_le_wireItems (values rest)
    rw [values, List.length_map] at hle
    rw [hbefore.rest, List.length_append, values]
    omega
  have hread := readRetry_spec hdocs htries hbefore .null
  have hopen : ¬ cursor.eof = true := by rw [hbefore.open_]; exact Bool.false_ne_true
  rw [libretrodbCursorReadItem, if_neg hopen]
  split at hread
  · rename_i hselected
    obtain ⟨fd, hread⟩ := hread
    rw [hselected] at hleft
    subst hleft
    have hfd := readRetry_content hdocs hbefore hread
    exact ⟨_, ⟨hfd.trans hcontent, hroot, rfl, .inl ⟨rfl, rfl⟩⟩, hread⟩
  · rename_i d ds hselected
    obtain ⟨fd, rest', hread, hbefore', hrest, hstorable⟩ := hread
    rw [hselected] at hleft
    subst hleft
    have hfd := readRetry_content hdocs hbefore hread
    exact ⟨_, ⟨hfd.trans hcontent, hroot, rfl,
      .inr ⟨rest', hbefore', hstorable, hrest ▸ rfl⟩⟩, hread⟩

theorem Reading.run (hdocs : ∀ d ∈ docs, Storable d) (calls : List Call)
    (h : Reading docs q left cursor) :
    runCalls calls cursor = some (replies (values (selected q docs)) calls left) := by
  induction calls generalizing left cursor with
  | nil => rfl
  | cons call calls ih =>
    cases call with
    | reset => exact ih (h.reset hdocs)
    | readItem =>
      obtain ⟨cursor', h', hread⟩ := h.read
      rw [runCalls, hread, Option.bind_some]
      simp only [ih h']
      cases left <;> rfl

/-- The predicate a cursor is given with a query. -/
def Invocation.keeps (q : Invocation) (v : Value) : Bool := libretrodbQueryFilter q v == some true

/-- `{'a': 1}` -/
def tableQuery : Invocation :=
  ⟨.allMap, [.value (.string ⟨[0x61], one_byte⟩), .value (.int 1)]⟩

theorem query_filters_table : ∃ res, libretrodbQueryFilter tableQuery (entry 1).value = some res ∧
    (res = true ↔ Meets (entry 1).value tableQuery.argument) := query_filters tableQuery rfl _

end Calls

end RetroArch.LibretroDb.Query
