/- The lobby's list of rooms, filled from the events of a JSON text. -/

import RetroArch.Formats.JsonEvents
import RetroArch.Library.CString
import RetroArch.Library.Run

namespace RetroArch.Netplay.Rooms

open Formats.JsonEvents Library.CString Library.Run

/-- `enum parse_state` -/
inductive ParseState
  | start
  | arrayStart
  | objectStart
  | fieldsStart
  | fieldsObjectStart
  deriving DecidableEq

/-- The members of `struct netplay_room` that the parser fills. -/
inductive Member
  | nickname
  | address
  | mitmAddress
  | port
  | mitmPort
  | corename
  | frontend
  | coreversion
  | gamename
  | gamecrc
  | hostMethod
  | hasPassword
  | hasSpectatePassword
  | fixed
  | retroarchVersion
  | subsystemName
  | country
  deriving DecidableEq

/-- The C types of the members. -/
inductive CType
  | text
  | int
  | bool
  deriving DecidableEq

def CType.size : CType → ℕ
  | .text => 2048
  | .int => 4
  | .bool => 1

def Member.ctype : Member → CType
  | .port | .mitmPort | .gamecrc | .hostMethod => .int
  | .hasPassword | .hasSpectatePassword | .fixed => .bool
  | _ => .text

structure NetplayRoom where
  texts : Member → List UInt8
  ints : Member → ℤ
  bools : Member → Bool

/-- A room from `calloc`. -/
def NetplayRoom.zero : NetplayRoom := ⟨fun _ => [], fun _ => 0, fun _ => false⟩

/-- The names that `ObjectMemberHandler` compares with, in its order. -/
def names : List (List UInt8 × Member) :=
  [(ascii "username", .nickname), (ascii "game_name", .gamename), (ascii "core_name", .corename),
    (ascii "ip", .address), (ascii "port", .port), (ascii "game_crc", .gamecrc),
    (ascii "core_version", .coreversion), (ascii "has_password", .hasPassword),
    (ascii "has_spectate_password", .hasSpectatePassword), (ascii "fixed", .fixed),
    (ascii "mitm_ip", .mitmAddress), (ascii "mitm_port", .mitmPort),
    (ascii "host_method", .hostMethod), (ascii "retroarch_version", .retroarchVersion),
    (ascii "country", .country), (ascii "frontend", .frontend),
    (ascii "subsystem_name", .subsystemName)]

def memberOf (name : List UInt8) : Option Member := names.lookup name

/-- `Context` and the list of rooms. `cur` is the last room of the list; a pointer into a room
is the room's place and the member. -/
structure Context where
  state : ParseState
  curField : Option (List UInt8)
  curMember : Option (ℕ × Member)
  rooms : List NetplayRoom

def Context.init : Context := ⟨.start, none, none, []⟩

/-- A store through `cur_member`: as what it is made, and how many bytes it takes. -/
structure Write where
  room : ℕ
  member : Member
  type : CType
  bytes : ℕ
  deriving DecidableEq

inductive Fault
  | nullRoom
  | unsetMember
  deriving DecidableEq

/-- A store through `cur_member`. One that is not made as what the member is, or does not fit
it, hits what the model does not hold. -/
def Context.store (ctx : Context) (type : CType) (bytes : ℕ)
    (set : Member → NetplayRoom → NetplayRoom) : Except Fault (Context × List Write) :=
  match ctx.curMember with
  | none => .error .unsetMember
  | some (room, member) =>
    .ok ({ ctx with rooms := ctx.rooms.modify room (set member) }, [⟨room, member, type, bytes⟩])

def setText (value : List UInt8) (member : Member) (room : NetplayRoom) : NetplayRoom :=
  { room with texts := Function.update room.texts member value }

def setInt (value : ℤ) (member : Member) (room : NetplayRoom) : NetplayRoom :=
  { room with ints := Function.update room.ints member value }

def setBool (value : Bool) (member : Member) (room : NetplayRoom) : NetplayRoom :=
  { room with bools := Function.update room.bools member value }

/-- The cast of an `unsigned long` or a `long` to an `int`. -/
def toInt (n : ℤ) : ℤ := (n + 2 ^ 31) % 2 ^ 32 - 2 ^ 31

/-- `BooleanHandler` -/
def booleanHandler (ctx : Context) (value : Bool) : Except Fault (Context × List Write) :=
  if ctx.state = .fieldsObjectStart ∧ ctx.curField.isSome then
    ctx.store .bool 1 (setBool value)
  else .ok (ctx, [])

/-- `StringHandler`; `strlcpy` takes `PATH_MAX_LENGTH`, whatever the size of the member. -/
def stringHandler (ctx : Context) (value : List UInt8) : Except Fault (Context × List Write) :=
  if ctx.state = .fieldsObjectStart ∧ value ≠ [] then
    match ctx.curField with
    | none => .ok (ctx, [])
    | some field =>
      if field = ascii "game_crc" then
        ctx.store .int 4 (setInt (toInt ((strtoul 16 (value ++ [0])).getD 0)))
      else
        ctx.store .text (min (cstr value).length 4095 + 1) (setText ((cstr value).take 4095))
  else .ok (ctx, [])

/-- `NumberHandler` -/
def numberHandler (ctx : Context) (value : List UInt8) : Except Fault (Context × List Write) :=
  if ctx.state = .fieldsObjectStart ∧ value ≠ [] ∧ ctx.curField.isSome then
    ctx.store .int 4 (setInt (toInt ((strtol 10 (value ++ [0])).getD 0)))
  else .ok (ctx, [])

/-- `StartObjectHandler` -/
def startObjectHandler (ctx : Context) : Context :=
  if ctx.state = .fieldsStart then
    { ctx with state := .fieldsObjectStart, rooms := ctx.rooms ++ [.zero] }
  else if ctx.state = .arrayStart then { ctx with state := .objectStart }
  else ctx

/-- `EndObjectHandler` -/
def endObjectHandler (ctx : Context) : Context :=
  if ctx.state = .fieldsObjectStart then { ctx with state := .arrayStart } else ctx

/-- `ObjectMemberHandler` -/
def objectMemberHandler (ctx : Context) (value : List UInt8) :
    Except Fault (Context × List Write) :=
  if value = [] then .ok (ctx, [])
  else
    let ctx :=
      if ctx.state = .objectStart ∧ cstr value = ascii "fields" then
        { ctx with state := .fieldsStart }
      else ctx
    if ctx.state = .fieldsObjectStart then
      match memberOf (cstr value) with
      | none => .ok ({ ctx with curField := none }, [])
      | some member =>
        if ctx.rooms = [] then .error .nullRoom
        else
          .ok ({ ctx with
            curField := some (cstr value)
            curMember := some (ctx.rooms.length - 1, member) }, [])
    else .ok (ctx, [])

/-- `StartArrayHandler` -/
def startArrayHandler (ctx : Context) : Context :=
  if ctx.state = .start then { ctx with state := .arrayStart } else ctx

/-- The handlers of `netplay_rooms_parse`. -/
def handle (ctx : Context) : Event → Except Fault (Context × List Write)
  | .startObject => .ok (startObjectHandler ctx, [])
  | .endObject => .ok (endObjectHandler ctx, [])
  | .startArray => .ok (startArrayHandler ctx, [])
  | .endArray => .ok (ctx, [])
  | .member name => objectMemberHandler ctx name
  | .string value => stringHandler ctx value
  | .number value => numberHandler ctx value
  | .boolean value => booleanHandler ctx value
  | .null => .ok (ctx, [])
  | .specialNumber => .ok (ctx, [])

/-- An object beginning here is the value of `fields` in an item of the array. -/
def isFieldsObject : List Frame → Bool
  | [.object name true, .array] => cstr name = ascii "fields"
  | _ => false

/-- The parser, the handlers' context, and beside them: how many `fields` objects of the array
have begun, what the last member name selects in the room of the last of them, and every store
with what was selected when it was made. -/
structure World where
  nesting : Nesting
  ctx : Context
  objects : ℕ
  selected : Option (ℕ × Member)
  writes : List (Write × Option (ℕ × Member))

def World.start : World := ⟨.start, .init, 0, none, []⟩

def selects (objects : ℕ) (name : List UInt8) : Option (ℕ × Member) :=
  if objects = 0 then none else (memberOf (cstr name)).map fun member => (objects - 1, member)

def World.selecting (w : World) : Event → Option (ℕ × Member)
  | .member name => selects w.objects name
  | _ => w.selected

def World.counting (w : World) : Event → ℕ
  | .startObject => if isFieldsObject w.nesting.frames then w.objects + 1 else w.objects
  | _ => w.objects

/-- One event the parser can deliver. -/
def World.step (w : World) (event : Event) : Option World :=
  match w.nesting.next event, handle w.ctx event with
  | some nesting, .ok (ctx, writes) =>
    some {
      nesting := nesting
      ctx := ctx
      objects := w.counting event
      selected := w.selecting event
      writes := w.writes ++ writes.map fun write => (write, w.selected) }
  | _, _ => none

/-- A value of the type of the member, and no longer than it. -/
def Member.Takes (member : Member) : Event → Prop
  | .string value =>
    value = [] ∨ member = .gamecrc ∨ (member.ctype = .text ∧ (cstr value).length < 2048)
  | .number _ => member.ctype = .int
  | .boolean _ => member.ctype = .bool
  | _ => True

instance (member : Member) : (event : Event) → Decidable (member.Takes event)
  | .string _ => inferInstanceAs (Decidable (_ ∨ _ ∨ (_ ∧ _)))
  | .number _ | .boolean _ => inferInstanceAs (Decidable (_ = _))
  | .startObject | .endObject | .startArray | .endArray | .member _ | .null | .specialNumber =>
    .isTrue trivial

def isWritten : Event → Bool
  | .string _ | .number _ | .boolean _ => true
  | _ => false

/-- Objects are taken for rooms where they are, and the members of a room have values of their
types; a value under an empty name comes only while no member is selected. -/
def Meets (w : World) (event : Event) : Prop :=
  (event = .startObject → (w.ctx.state = .fieldsStart ↔ isFieldsObject w.nesting.frames = true)) ∧
  (isWritten event = true → w.ctx.state = .fieldsObjectStart →
    (w.selected = none → w.ctx.curField = none) ∧
    ∀ place ∈ w.selected, place.2.Takes event)

instance (w : World) (event : Event) : Decidable (Meets w event) :=
  inferInstanceAs (Decidable (_ ∧ _))

/-- Every store is in the member last selected, as its type and no longer than it; there is a
room for each `fields` object; and the next event finds every pointer set. -/
structure Inside (w : World) : Prop where
  places : ∀ store ∈ w.writes, store.2 = some (store.1.room, store.1.member)
  rooms : ∀ store ∈ w.writes, store.1.room < w.ctx.rooms.length
  types : ∀ store ∈ w.writes, store.1.type = store.1.member.ctype
  sizes : ∀ store ∈ w.writes, store.1.bytes ≤ store.1.member.ctype.size
  count : w.ctx.rooms.length = w.objects
  safe : ∀ event, (w.nesting.next event).isSome → ∃ result, handle w.ctx event = .ok result

theorem memberOf_fields : memberOf (ascii "fields") = none := by
  decide

theorem memberOf_gamecrc {field : List UInt8} :
    memberOf field = some .gamecrc ↔ field = ascii "game_crc" := by
  constructor
  · intro h
    have hnames : names.all (fun entry => entry.2 ≠ .gamecrc ∨ entry.1 = ascii "game_crc") := by
      decide
    have hmem : (field, Member.gamecrc) ∈ names := by
      obtain ⟨before, after, hsplit, -⟩ := List.lookup_eq_some_iff.mp h
      simp [hsplit]
    simpa using List.all_eq_true.mp hnames _ hmem
  · rintro rfl
    decide

/-- What the handlers keep about their context. -/
structure Settled (ctx : Context) : Prop where
  room : ctx.state = .fieldsObjectStart → ctx.rooms ≠ []
  field : ∀ field, ctx.curField = some field →
    ∃ room member, ctx.curMember = some (room, member) ∧ memberOf field = some member ∧
      room < ctx.rooms.length

theorem settled_init : Settled .init where
  room h := nomatch h
  field _ h := nomatch h

theorem objectMember_room {ctx : Context} {name : List UInt8} (hname : name ≠ [])
    (hstate : ctx.state = .fieldsObjectStart) :
    objectMemberHandler ctx name =
      match memberOf (cstr name) with
      | none => .ok ({ ctx with curField := none }, [])
      | some member =>
        if ctx.rooms = [] then .error .nullRoom
        else
          .ok ({ ctx with
            curField := some (cstr name)
            curMember := some (ctx.rooms.length - 1, member) }, []) := by
  have hobject : ¬ (ctx.state = .objectStart ∧ cstr name = ascii "fields") := by
    rw [hstate]
    simp
  simp only [objectMemberHandler, if_neg hname, if_neg hobject, if_pos hstate]

theorem objectMember_elsewhere {ctx : Context} (name : List UInt8)
    (hstate : ctx.state ≠ .fieldsObjectStart) :
    ∃ state, state ≠ .fieldsObjectStart ∧
      objectMemberHandler ctx name = .ok ({ ctx with state := state }, []) := by
  by_cases hname : name = []
  · exact ⟨ctx.state, hstate, by simp [objectMemberHandler, hname]⟩
  by_cases hobject : ctx.state = .objectStart ∧ cstr name = ascii "fields"
  · refine ⟨.fieldsStart, by simp, ?_⟩
    simp only [objectMemberHandler, if_neg hname, if_pos hobject]
    rfl
  · refine ⟨ctx.state, hstate, ?_⟩
    simp only [objectMemberHandler, if_neg hname, if_neg hobject, if_neg hstate]

theorem Settled.handles {ctx : Context} (h : Settled ctx) (event : Event) :
    ∃ result, handle ctx event = .ok result := by
  have hstore : ∀ field type bytes set, ctx.curField = some field →
      ∃ result, ctx.store type bytes set = .ok result := by
    intro field type bytes set hfield
    obtain ⟨room, member, hmember, -, -⟩ := h.field field hfield
    exact ⟨_, by simp only [Context.store, hmember]; rfl⟩
  cases event with
  | member name =>
    by_cases hname : name = []
    · exact ⟨_, by simp only [handle, objectMemberHandler, if_pos hname]; rfl⟩
    by_cases hstate : ctx.state = .fieldsObjectStart
    · rw [handle, objectMember_room hname hstate]
      cases memberOf (cstr name) with
      | none => exact ⟨_, rfl⟩
      | some member => exact ⟨_, if_neg (h.room hstate)⟩
    · obtain ⟨state, -, hstep⟩ := objectMember_elsewhere name hstate
      exact ⟨_, hstep⟩
  | string value =>
    simp only [handle, stringHandler]
    split_ifs
    · cases hfield : ctx.curField with
      | none => exact ⟨_, rfl⟩
      | some field =>
        simp only
        split_ifs
        · exact hstore field _ _ _ hfield
        · exact hstore field _ _ _ hfield
    · exact ⟨_, rfl⟩
  | number value =>
    simp only [handle, numberHandler]
    split_ifs with hwrite
    · obtain ⟨field, hfield⟩ := Option.isSome_iff_exists.mp hwrite.2.2
      exact hstore field _ _ _ hfield
    · exact ⟨_, rfl⟩
  | boolean value =>
    simp only [handle, booleanHandler]
    split_ifs with hwrite
    · obtain ⟨field, hfield⟩ := Option.isSome_iff_exists.mp hwrite.2
      exact hstore field _ _ _ hfield
    · exact ⟨_, rfl⟩
  | _ => exact ⟨_, rfl⟩

theorem store_ok {ctx ctx' : Context} {type : CType} {bytes : ℕ}
    {set : Member → NetplayRoom → NetplayRoom} {writes : List Write}
    (h : ctx.store type bytes set = .ok (ctx', writes)) :
    ∃ room member, ctx.curMember = some (room, member) ∧
      ctx' = { ctx with rooms := ctx.rooms.modify room (set member) } ∧
      writes = [⟨room, member, type, bytes⟩] := by
  unfold Context.store at h
  cases hmember : ctx.curMember with
  | none => rw [hmember] at h; cases h
  | some place =>
    rw [hmember] at h
    cases h
    exact ⟨place.1, place.2, rfl, rfl, rfl⟩

/-- A value leaves everything alone, or it is stored in the member that `cur_member` names; a
value that this member takes is stored as its type. -/
theorem value_cases {ctx ctx' : Context} {event : Event} {writes : List Write}
    (hevent : isWritten event = true) (h : handle ctx event = .ok (ctx', writes)) :
    (ctx' = ctx ∧ writes = []) ∨
    ∃ field room member type bytes set, ctx.state = .fieldsObjectStart ∧
      ctx.curField = some field ∧ ctx.curMember = some (room, member) ∧
      ctx' = { ctx with rooms := ctx.rooms.modify room set } ∧
      writes = [⟨room, member, type, bytes⟩] ∧
      (memberOf field = some member → member.Takes event →
        type = member.ctype ∧ bytes ≤ member.ctype.size) := by
  cases event with
  | string value =>
    simp only [handle, stringHandler] at h
    split_ifs at h with hwrite
    swap
    · cases h
      exact .inl ⟨rfl, rfl⟩
    rcases Option.eq_none_or_eq_some ctx.curField with hfield | ⟨field, hfield⟩
    · rw [hfield] at h
      cases h
      exact .inl ⟨rfl, rfl⟩
    · rw [hfield] at h
      simp only at h
      split_ifs at h with hcrc
      · obtain ⟨room, member, hmember, hctx, hwrites⟩ := store_ok h
        refine .inr ⟨field, room, member, _, _, _, hwrite.1, hfield, hmember, hctx, hwrites, ?_⟩
        intro hof _
        have hsame : member = .gamecrc := by
          have hname := memberOf_gamecrc.mpr hcrc
          rw [hof] at hname
          exact Option.some.inj hname
        subst hsame
        exact ⟨rfl, le_refl _⟩
      · obtain ⟨room, member, hmember, hctx, hwrites⟩ := store_ok h
        refine .inr ⟨field, room, member, _, _, _, hwrite.1, hfield, hmember, hctx, hwrites, ?_⟩
        rintro hof (hvalue | rfl | ⟨htext, hlength⟩)
        · exact absurd hvalue hwrite.2
        · exact absurd (memberOf_gamecrc.mp hof) hcrc
        · refine ⟨htext.symm, ?_⟩
          simp only [htext, CType.size]
          omega
  | number value =>
    simp only [handle, numberHandler] at h
    split_ifs at h with hwrite
    · obtain ⟨field, hfield⟩ := Option.isSome_iff_exists.mp hwrite.2.2
      obtain ⟨room, member, hmember, hctx, hwrites⟩ := store_ok h
      refine .inr ⟨field, room, member, _, _, _, hwrite.1, hfield, hmember, hctx, hwrites, ?_⟩
      intro _ htakes
      have hint : member.ctype = .int := htakes
      simp [hint, CType.size]
    · cases h
      exact .inl ⟨rfl, rfl⟩
  | boolean value =>
    simp only [handle, booleanHandler] at h
    split_ifs at h with hwrite
    · obtain ⟨field, hfield⟩ := Option.isSome_iff_exists.mp hwrite.2
      obtain ⟨room, member, hmember, hctx, hwrites⟩ := store_ok h
      refine .inr ⟨field, room, member, _, _, _, hwrite.1, hfield, hmember, hctx, hwrites, ?_⟩
      intro _ htakes
      have hbool : member.ctype = .bool := htakes
      simp [hbool, CType.size]
    · cases h
      exact .inl ⟨rfl, rfl⟩
  | _ => cases hevent

/-- A member name selects a member of the last room, clears the selection, or comes where no
room is being filled. -/
theorem member_cases {ctx ctx' : Context} {name : List UInt8} {writes : List Write}
    (h : handle ctx (.member name) = .ok (ctx', writes)) :
    writes = [] ∧ ctx'.rooms = ctx.rooms ∧
    ((ctx'.curField = ctx.curField ∧ ctx'.curMember = ctx.curMember ∧
        (ctx' = ctx ∨ ctx'.state ≠ .fieldsObjectStart) ∧
        (ctx.state = .fieldsObjectStart → name = [])) ∨
      (ctx.state = .fieldsObjectStart ∧ ctx'.state = .fieldsObjectStart ∧
        ((memberOf (cstr name) = none ∧ ctx'.curField = none ∧ ctx'.curMember = ctx.curMember) ∨
          ∃ member, memberOf (cstr name) = some member ∧ ctx'.curField = some (cstr name) ∧
            ctx'.curMember = some (ctx.rooms.length - 1, member)))) := by
  by_cases hname : name = []
  · simp only [handle, objectMemberHandler, if_pos hname] at h
    cases h
    exact ⟨rfl, rfl, .inl ⟨rfl, rfl, .inl rfl, fun _ => hname⟩⟩
  by_cases hstate : ctx.state = .fieldsObjectStart
  · rw [handle, objectMember_room hname hstate] at h
    cases hmember : memberOf (cstr name) with
    | none =>
      rw [hmember] at h
      cases h
      exact ⟨rfl, rfl, .inr ⟨hstate, hstate, .inl ⟨rfl, rfl, rfl⟩⟩⟩
    | some member =>
      rw [hmember] at h
      simp only at h
      split_ifs at h
      cases h
      exact ⟨rfl, rfl, .inr ⟨hstate, hstate, .inr ⟨member, rfl, rfl, rfl⟩⟩⟩
  · obtain ⟨state, hother, hstep⟩ := objectMember_elsewhere name hstate
    rw [handle, hstep] at h
    cases h
    exact ⟨rfl, rfl, .inl ⟨rfl, rfl, .inr hother, fun hfields => absurd hfields hstate⟩⟩

/-- A store as it should be. -/
structure Placed (rooms : ℕ) (store : Write × Option (ℕ × Member)) : Prop where
  place : store.2 = some (store.1.room, store.1.member)
  room : store.1.room < rooms
  type : store.1.type = store.1.member.ctype
  size : store.1.bytes ≤ store.1.member.ctype.size

theorem Placed.mono {rooms rooms' : ℕ} {store : Write × Option (ℕ × Member)}
    (h : Placed rooms store) (hle : rooms ≤ rooms') : Placed rooms' store :=
  ⟨h.place, h.room.trans_le hle, h.type, h.size⟩

structure Sound (w : World) : Prop where
  steady : w.nesting.Steady
  settled : Settled w.ctx
  named : ∀ name frames, w.nesting.frames = .object name true :: frames →
    w.selected = selects w.objects name
  current : w.ctx.state = .fieldsObjectStart → ∀ place ∈ w.selected, w.ctx.curMember = some place
  placed : ∀ store ∈ w.writes, Placed w.ctx.rooms.length store
  count : w.ctx.rooms.length = w.objects

theorem sound_start : Sound .start where
  steady := Nesting.steady_start
  settled := settled_init
  named _ _ h := nomatch h
  current h := nomatch h
  placed _ h := nomatch h
  count := rfl

theorem Sound.inside {w : World} (h : Sound w) : Inside w where
  places store hstore := (h.placed store hstore).place
  rooms store hstore := (h.placed store hstore).room
  types store hstore := (h.placed store hstore).type
  sizes store hstore := (h.placed store hstore).size
  count := h.count
  safe event _ := h.settled.handles event

theorem step_some {w w' : World} {event : Event} (h : w.step event = some w') :
    ∃ nesting ctx writes, w.nesting.next event = some nesting ∧
      handle w.ctx event = .ok (ctx, writes) ∧
      w' = {
        nesting := nesting
        ctx := ctx
        objects := w.counting event
        selected := w.selecting event
        writes := w.writes ++ writes.map fun write => (write, w.selected) } := by
  unfold World.step at h
  split at h
  · rename_i nesting ctx writes hnext hhandle
    exact ⟨nesting, ctx, writes, hnext, hhandle, (Option.some.inj h).symm⟩
  · cases h

theorem Sound.named_next {w : World} {event : Event} {nesting : Nesting} (h : Sound w)
    (hnext : w.nesting.next event = some nesting) (name : List UInt8) (frames : List Frame)
    (hframes : nesting.frames = .object name true :: frames) :
    w.selecting event = selects (w.counting event) name := by
  have hevent : event = .member name := Nesting.next_pending h.steady hnext hframes
  subst hevent
  rfl

theorem Sound.moves {w w' : World} {event : Event} (h : Sound w) (state : ParseState)
    (hhandle : handle w.ctx event = .ok ({ w.ctx with state := state }, []))
    (hstate : state = w.ctx.state ∨ state ≠ .fieldsObjectStart)
    (hselecting : w.selecting event = w.selected) (hcounting : w.counting event = w.objects)
    (hstep : w.step event = some w') : Sound w' := by
  obtain ⟨nesting, ctx, writes, hnext, hhandle', rfl⟩ := step_some hstep
  rw [hhandle] at hhandle'
  cases hhandle'
  have hback : state = .fieldsObjectStart → w.ctx.state = .fieldsObjectStart := by
    intro hfields
    rcases hstate with hsame | hother
    · exact hsame ▸ hfields
    · exact absurd hfields hother
  refine ⟨Nesting.next_steady h.steady hnext, ⟨?_, ?_⟩, h.named_next hnext, ?_, ?_, ?_⟩
  · exact fun hfields => h.settled.room (hback hfields)
  · exact h.settled.field
  · intro hfields place hplace
    exact h.current (hback hfields) place (hselecting ▸ hplace)
  · simpa using h.placed
  · simpa [hcounting] using h.count

theorem Sound.value {w w' : World} {event : Event} (h : Sound w) (hok : Meets w event)
    (hevent : isWritten event = true) (hstep : w.step event = some w') : Sound w' := by
  obtain ⟨nesting, ctx, writes, hnext, hhandle, rfl⟩ := step_some hstep
  have hselecting : w.selecting event = w.selected := by
    cases event <;> first | rfl | cases hevent
  have hcounting : w.counting event = w.objects := by
    cases event <;> first | rfl | cases hevent
  obtain ⟨rfl, rfl⟩ | ⟨field, room, member, type, bytes, set, hstate, hfield, hmember, rfl, rfl,
    hfits⟩ := value_cases hevent hhandle
  · refine ⟨Nesting.next_steady h.steady hnext, h.settled, h.named_next hnext, ?_, ?_, ?_⟩
    · simpa [hselecting] using h.current
    · simpa using h.placed
    · simpa [hcounting] using h.count
  · obtain ⟨room', member', hmember', hof, hroom⟩ := h.settled.field field hfield
    have hsame : (room, member) = (room', member') := Option.some.inj (hmember.symm.trans hmember')
    obtain ⟨rfl, rfl⟩ := Prod.mk.injEq _ _ _ _ ▸ hsame
    have hselected : w.selected = some (room, member) := by
      cases hsel : w.selected with
      | none =>
        have hnone := (hok.2 hevent hstate).1 hsel
        rw [hfield] at hnone
        cases hnone
      | some place =>
        have hcurrent := h.current hstate place hsel
        rw [hmember] at hcurrent
        exact hcurrent.symm
    have htakes : member.Takes event := (hok.2 hevent hstate).2 _ hselected
    obtain ⟨htype, hbytes⟩ := hfits hof htakes
    refine ⟨Nesting.next_steady h.steady hnext, ⟨?_, ?_⟩, h.named_next hnext, ?_, ?_, ?_⟩
    · intro hfields hnil
      exact h.settled.room hfields (by simpa [List.modify_eq_nil_iff] using hnil)
    · simpa using h.settled.field
    · simpa [hselecting] using h.current
    · intro store hstore
      simp only [List.length_modify]
      rcases List.mem_append.mp hstore with hold | hnew
      · exact h.placed store hold
      · simp only [List.map_cons, List.map_nil, List.mem_singleton] at hnew
        subst hnew
        exact ⟨hselected, hroom, htype, hbytes⟩
    · simpa [hcounting] using h.count

theorem Sound.member {w w' : World} {name : List UInt8} (h : Sound w)
    (hstep : w.step (.member name) = some w') : Sound w' := by
  obtain ⟨nesting, ctx, writes, hnext, hhandle, rfl⟩ := step_some hstep
  obtain ⟨rfl, hrooms, hcases⟩ := member_cases hhandle
  refine ⟨Nesting.next_steady h.steady hnext, ?_, h.named_next hnext, ?_, ?_, ?_⟩
  · obtain ⟨hfield, hmember, hsame | hother, -⟩ | ⟨hstate, hstate', hnone | hsome⟩ := hcases
    · exact hsame ▸ h.settled
    · refine ⟨fun hfields => absurd hfields hother, ?_⟩
      simpa only [hfield, hmember, hrooms] using h.settled.field
    · obtain ⟨-, hfield, -⟩ := hnone
      refine ⟨fun _ => hrooms ▸ h.settled.room hstate, ?_⟩
      simp [hfield]
    · obtain ⟨member, hof, hfield, hmember⟩ := hsome
      have hlast : ctx.rooms.length - 1 < ctx.rooms.length := by
        have hpos := List.length_pos_of_ne_nil (h.settled.room hstate)
        rw [hrooms]
        omega
      refine ⟨fun _ => hrooms ▸ h.settled.room hstate, ?_⟩
      intro field hcur
      rw [hfield] at hcur
      cases hcur
      exact ⟨_, member, hmember, hof, hrooms ▸ hlast⟩
  · intro hfields place hplace
    simp only [World.selecting, selects] at hplace
    split_ifs at hplace with hobjects
    · cases hplace
    obtain ⟨member, hof, rfl⟩ := Option.map_eq_some_iff.mp hplace
    obtain ⟨-, -, hsame | hother, hempty⟩ | ⟨hstate, -, hnone | hsome⟩ := hcases
    · rw [hempty (hsame ▸ hfields)] at hof
      cases hof
    · exact absurd hfields hother
    · rw [hnone.1] at hof
      cases hof
    · obtain ⟨member', hof', -, hmember⟩ := hsome
      rw [hof] at hof'
      cases hof'
      rw [hmember, h.count]
  · simpa [hrooms] using h.placed
  · simpa [hrooms, World.counting] using h.count

theorem Sound.startObject {w w' : World} (h : Sound w) (hok : Meets w .startObject)
    (hstep : w.step .startObject = some w') : Sound w' := by
  have hstate := hok.1 rfl
  by_cases hfields : w.ctx.state = .fieldsStart
  · obtain ⟨nesting, ctx, writes, hnext, hhandle, rfl⟩ := step_some hstep
    cases hhandle
    have hobject := hstate.mp hfields
    have hselected : w.selected = none := by
      unfold isFieldsObject at hobject
      split at hobject
      · rename_i name hframes
        rw [h.named name _ hframes, selects, of_decide_eq_true hobject, memberOf_fields]
        simp
      · cases hobject
    refine ⟨Nesting.next_steady h.steady hnext, ⟨?_, ?_⟩, h.named_next hnext, ?_, ?_, ?_⟩
    · simp [startObjectHandler, hfields]
    · intro field hcur
      obtain ⟨room, member, hmember, hof, hroom⟩ :=
        h.settled.field field (by simpa [startObjectHandler, hfields] using hcur)
      refine ⟨room, member, by simpa [startObjectHandler, hfields] using hmember, hof, ?_⟩
      simp only [startObjectHandler, if_pos hfields, List.length_append]
      omega
    · intro _ place hplace
      simp [World.selecting, hselected] at hplace
    · intro store hstore
      refine (h.placed store (by simpa using hstore)).mono ?_
      simp [startObjectHandler, hfields]
    · simp [startObjectHandler, hfields, World.counting, hobject, h.count]
  · have hobject : isFieldsObject w.nesting.frames = false := by
      simpa using fun hobject => hfields (hstate.mpr hobject)
    have hcount : w.counting .startObject = w.objects := by simp [World.counting, hobject]
    by_cases hitem : w.ctx.state = .arrayStart
    · refine h.moves .objectStart ?_ (.inr (by simp)) rfl hcount hstep
      simp [handle, startObjectHandler, hitem]
    · refine h.moves w.ctx.state ?_ (.inl rfl) rfl hcount hstep
      simp [handle, startObjectHandler, hfields, hitem]

theorem Sound.step {w w' : World} {event : Event} (h : Sound w) (hok : Meets w event)
    (hstep : w.step event = some w') : Sound w' := by
  cases event with
  | string | number | boolean => exact h.value hok rfl hstep
  | member name => exact h.member hstep
  | startObject => exact h.startObject hok hstep
  | endObject =>
    by_cases hstate : w.ctx.state = .fieldsObjectStart
    · refine h.moves .arrayStart ?_ (.inr (by simp)) rfl rfl hstep
      simp [handle, endObjectHandler, hstate]
    · refine h.moves w.ctx.state ?_ (.inl rfl) rfl rfl hstep
      simp [handle, endObjectHandler, hstate]
  | startArray =>
    by_cases hstate : w.ctx.state = .start
    · refine h.moves .arrayStart ?_ (.inr (by simp)) rfl rfl hstep
      simp [handle, startArrayHandler, hstate]
    · refine h.moves w.ctx.state ?_ (.inl rfl) rfl rfl hstep
      simp [handle, startArrayHandler, hstate]
  | endArray | null | specialNumber => exact h.moves w.ctx.state rfl (.inl rfl) rfl rfl hstep

/-- Over every sequence of events in which rooms and their values come where they belong, the
stores stay inside the members selected and the rooms are the `fields` objects. -/
theorem rooms_parse_inside {events : List Event} {w : World}
    (h : RunsWithin World.step Meets .start events w) : Inside w := by
  have hsound : Sound w :=
    h.invariant (fun _ _ _ hs hok hstep => hs.step hok hstep) sound_start
  exact hsound.inside

theorem rooms_parse_inside_small :
    ∃ w, RunsWithin World.step Meets .start
      [.startArray, .startObject, .member (ascii "id"), .number (ascii "7"),
        .member (ascii "fields"), .startObject, .member (ascii "username"),
        .string (ascii "ann"), .member (ascii "port"), .number (ascii "55435"), .endObject,
        .endObject, .endArray] w ∧ w.writes.length = 2 ∧ Inside w := by
  obtain ⟨w, hw⟩ : ∃ w, runChecked World.step Meets .start
      [.startArray, .startObject, .member (ascii "id"), .number (ascii "7"),
        .member (ascii "fields"), .startObject, .member (ascii "username"),
        .string (ascii "ann"), .member (ascii "port"), .number (ascii "55435"), .endObject,
        .endObject, .endArray] = some w ∧ w.writes.length = 2 :=
    ⟨_, rfl, rfl⟩
  exact ⟨w, runsWithin_of_checked hw.1, hw.2, rooms_parse_inside (runsWithin_of_checked hw.1)⟩

/-- A string under `port` is copied over the number and what follows it. -/
theorem text_over_number :
    ∃ w, run World.step .start
      [.startArray, .startObject, .member (ascii "fields"), .startObject,
        .member (ascii "port"), .string (ascii "55435")] = some w ∧ ¬ Inside w := by
  refine ⟨_, rfl, ?_⟩
  intro h
  have htype := h.types (⟨0, .port, .text, 6⟩, some (0, .port)) (by decide)
  cases htype

end RetroArch.Netplay.Rooms
