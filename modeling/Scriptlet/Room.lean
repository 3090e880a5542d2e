/-
This file holds the room that is left for calls. The program runs on a stack that its
surroundings limit, and a call for which there is no room fails. An endless stack is the
ideal in which no call fails.

Only the functions that call each other are counted. What each of them calls besides
takes a fixed number of frames, and whoever hands out room holds these back.

Main statements: `Room.holds_add` says when calls inside other calls fit, and
`Room.holds_max` when calls one after the other do.
-/

namespace Scriptlet

/-- The room that is left on a stack. -/
inductive Room where
  | endless
  | frames (left : Nat)
  deriving DecidableEq

namespace Room

/-- So many calls inside each other fit. -/
def Holds : Room → Nat → Prop
  | endless, _ => True
  | frames left, calls => calls ≤ left

instance : (room : Room) → (calls : Nat) → Decidable (room.Holds calls)
  | endless, _ => isTrue trivial
  | frames left, calls => inferInstanceAs (Decidable (calls ≤ left))

/-- The room that is left inside so many calls. -/
def inside : Room → Nat → Room
  | endless, _ => endless
  | frames left, calls => frames (left - calls)

theorem holds_zero (room : Room) : room.Holds 0 := by
  cases room with
  | endless => trivial
  | frames left => exact Nat.zero_le left

theorem holds_add (room : Room) (outer inner : Nat) :
    room.Holds (outer + inner) ↔ room.Holds outer ∧ (room.inside outer).Holds inner := by
  cases room with
  | endless => simp [Holds, inside]
  | frames left =>
    simp only [Holds, inside]
    omega

theorem holds_max (room : Room) (first second : Nat) :
    room.Holds (max first second) ↔ room.Holds first ∧ room.Holds second := by
  cases room with
  | endless => simp [Holds]
  | frames left => exact Nat.max_le

end Room

end Scriptlet
