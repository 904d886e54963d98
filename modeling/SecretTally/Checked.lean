/-! Differences and slices that are tested. One that does not exist leaves no result at all. -/

namespace SecretTally.Checked

def difference? (a b : Nat) : Option Nat := if b ≤ a then some (a - b) else none

def slice? {α : Type} (start stop : Nat) (entries : List α) : Option (List α) :=
  if start ≤ stop ∧ stop ≤ entries.length then some ((entries.take stop).drop start) else none

def from? {α : Type} (start : Nat) (entries : List α) : Option (List α) :=
  slice? start entries.length entries

theorem difference?_eq {a b : Nat} (h : b ≤ a) : difference? a b = some (a - b) := if_pos h

theorem slice?_eq {α : Type} {start stop : Nat} {entries : List α} (h : start ≤ stop)
    (hstop : stop ≤ entries.length) :
    slice? start stop entries = some ((entries.take stop).drop start) := if_pos ⟨h, hstop⟩

theorem from?_eq {α : Type} {start : Nat} {entries : List α} (h : start ≤ entries.length) :
    from? start entries = some (entries.drop start) := by
  rw [from?, slice?_eq h (Nat.le_refl _), List.take_length]

end SecretTally.Checked
