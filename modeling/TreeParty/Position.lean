/-!
# Positions counted from either end

A position in a list of known length may be given from the front (`0, 1, …`) or, negative, from the
back (`-1` is the last item). A cut that reaches outside the list is shortened to what is there.
-/

namespace TreeParty
namespace Position

/-- The cut that a bound asks for in a list of the given length, shortened to the list. -/
def cut (length : Nat) (bound : Int) : Nat :=
  if bound < 0 then (bound + length).toNat else min bound.toNat length

/-- The items from one bound up to another; nothing if the bounds cross. -/
def slice {α : Type _} (start stop : Int) (items : List α) : List α :=
  let first := cut items.length start
  (items.drop first).take (cut items.length stop - first)

def index? (length : Nat) (position : Int) : Option Nat :=
  let place := if position < 0 then position + length else position
  if 0 ≤ place ∧ place < length then some place.toNat else none

def get? {α : Type _} (items : List α) (position : Int) : Option α :=
  (index? items.length position).bind (items[·]?)

theorem cut_le (length : Nat) (bound : Int) : cut length bound ≤ length := by
  unfold cut
  split <;> omega

theorem cut_natCast (length bound : Nat) : cut length (bound : Int) = min bound length := by
  unfold cut
  split <;> omega

theorem slice_zero {α : Type _} (stop : Int) (items : List α) :
    slice 0 stop items = items.take (cut items.length stop) := by
  simp [slice, cut]

theorem slice_natCast {α : Type _} (start stop : Nat) (items : List α)
    (hstop : stop ≤ items.length) :
    slice (start : Int) (stop : Int) items = (items.drop start).take (stop - start) := by
  simp only [slice, cut_natCast]
  by_cases h : start ≤ items.length
  · rw [Nat.min_eq_left h, Nat.min_eq_left hstop]
  · have hdrop : items.drop start = [] := List.drop_eq_nil_of_le (by omega)
    have hdrop' : items.drop (min start items.length) = [] :=
      List.drop_eq_nil_of_le (by omega)
    simp [hdrop, hdrop']

theorem get?_natCast {α : Type _} (items : List α) (place : Nat) :
    get? items (place : Int) = items[place]? := by
  have hfront : ¬ (place : Int) < 0 := by omega
  unfold get? index?
  simp only [if_neg hfront]
  by_cases hplace : place < items.length
  · rw [if_pos ⟨by omega, by omega⟩]
    rfl
  · rw [if_neg (by omega), List.getElem?_eq_none (Nat.le_of_not_lt hplace)]
    rfl

end Position
end TreeParty
