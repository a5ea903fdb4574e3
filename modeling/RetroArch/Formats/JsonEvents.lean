/- The events of the full JSON parser, and in which order it can deliver them. -/

import Mathlib.Data.List.Basic

namespace RetroArch.Formats.JsonEvents

/-- The bytes of a string literal of the source. -/
def ascii (s : String) : List UInt8 := s.toList.map fun c => UInt8.ofNat c.toNat

/-- What a C function sees of a string that may hold NUL bytes. -/
def cstr (value : List UInt8) : List UInt8 := value.takeWhile (· ≠ 0)

inductive Event
  | startObject
  | endObject
  | startArray
  | endArray
  | member (name : List UInt8)
  | string (value : List UInt8)
  | number (value : List UInt8)
  | boolean (value : Bool)
  | null
  | specialNumber
  deriving DecidableEq

/-- An open array, or an open object with its last member name, whose value may still be to
come. -/
inductive Frame
  | array
  | object (name : List UInt8) (pending : Bool)
  deriving DecidableEq

/-- The open arrays and objects, innermost first, and whether the document has begun. -/
structure Nesting where
  frames : List Frame
  begun : Bool
  deriving DecidableEq

def Nesting.start : Nesting := ⟨[], false⟩

/-- A value comes where one is due. -/
def Nesting.value (n : Nesting) : Option Nesting :=
  match n.frames with
  | [] => if n.begun then none else some ⟨[], true⟩
  | .array :: _ => some n
  | .object name true :: frames => some { n with frames := .object name false :: frames }
  | .object _ false :: _ => none

def Nesting.opened (n : Nesting) (frame : Frame) : Nesting :=
  { n with frames := frame :: n.frames }

/-- The parser after an event; without a result where the event cannot come. -/
def Nesting.next (n : Nesting) : Event → Option Nesting
  | .startObject => n.value.map (·.opened (.object [] false))
  | .startArray => n.value.map (·.opened .array)
  | .endObject =>
    match n.frames with
    | .object _ false :: frames => some { n with frames := frames }
    | _ => none
  | .endArray =>
    match n.frames with
    | .array :: frames => some { n with frames := frames }
    | _ => none
  | .member name =>
    match n.frames with
    | .object _ false :: frames => some { n with frames := .object name true :: frames }
    | _ => none
  | _ => n.value

/-- Only the innermost object waits for the value of a member. -/
def Nesting.Steady (n : Nesting) : Prop := ∀ name, Frame.object name true ∉ n.frames.tail

theorem Nesting.steady_start : Nesting.start.Steady := by
  simp [Nesting.Steady, Nesting.start]

theorem Nesting.value_spec {n m : Nesting} (hn : n.Steady) (h : n.value = some m) (name) :
    Frame.object name true ∉ m.frames := by
  unfold Nesting.Steady at hn
  unfold Nesting.value at h
  split at h
  case h_1 =>
      split_ifs at h
      cases h
      simp
  case h_2 hframes =>
      cases h
      simpa [hframes] using hn name
  case h_3 hframes =>
      cases h
      simpa [hframes] using hn name
  case h_4 => cases h

theorem Nesting.next_steady {n m : Nesting} {event : Event} (hn : n.Steady)
    (h : n.next event = some m) : m.Steady := by
  intro name
  have htail : Frame.object name true ∉ n.frames.tail := hn name
  cases event with
  | startObject | startArray =>
    obtain ⟨v, hv, rfl⟩ := Option.map_eq_some_iff.mp h
    exact Nesting.value_spec hn hv name
  | endObject | endArray | member =>
    simp only [Nesting.next] at h
    split at h
    · rename_i hframes
      cases h
      intro hmem
      simp [hframes] at htail
      first
        | exact htail (List.mem_of_mem_tail hmem)
        | exact htail hmem
    · cases h
  | string | number | boolean | null | specialNumber =>
    intro hmem
    exact Nesting.value_spec hn h name (List.mem_of_mem_tail hmem)

theorem Nesting.next_pending {n m : Nesting} {event : Event} {name : List UInt8}
    {frames : List Frame} (hn : n.Steady) (h : n.next event = some m)
    (hm : m.frames = .object name true :: frames) : event = .member name := by
  have hmem : Frame.object name true ∈ m.frames := by simp [hm]
  cases event with
  | startObject | startArray =>
    obtain ⟨v, -, rfl⟩ := Option.map_eq_some_iff.mp h
    simp [Nesting.opened] at hm
  | endObject | endArray =>
    simp only [Nesting.next] at h
    split at h
    · rename_i hframes
      cases h
      have htail := hn name
      simp only [hframes, List.tail_cons] at htail
      exact absurd hmem htail
    · cases h
  | member =>
    simp only [Nesting.next] at h
    split at h
    · cases h
      simp_all
    · cases h
  | string | number | boolean | null | specialNumber =>
    exact absurd hmem (Nesting.value_spec hn h name)

end RetroArch.Formats.JsonEvents
