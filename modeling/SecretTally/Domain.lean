import SecretTally.Number.Decimal
import SecretTally.Refusal

/-! Domains: the plaintexts a proof ranges over, in strictly increasing order. Position `i` of a
domain is position `i` of every list of a proof over it. -/

namespace SecretTally

structure Domain where
  values : List Nat
  nonempty : values ≠ []
  increasing : values.Pairwise (· < ·)
deriving DecidableEq

namespace Domain

def isIncreasing : List Nat → Bool
  | a :: b :: rest => a < b && isIncreasing (b :: rest)
  | _ => true

theorem isIncreasing_iff {values : List Nat} :
    isIncreasing values = true ↔ values.Pairwise (· < ·) := by
  induction values with
  | nil => simp [isIncreasing]
  | cons a rest ih =>
    cases rest with
    | nil => simp [isIncreasing]
    | cons b rest =>
      simp only [isIncreasing, Bool.and_eq_true, decide_eq_true_eq, ih]
      constructor
      · rintro ⟨hab, hrest⟩
        refine List.pairwise_cons.mpr ⟨?_, hrest⟩
        intro x hx
        rcases List.mem_cons.mp hx with rfl | hx
        · exact hab
        · exact Nat.lt_trans hab (List.rel_of_pairwise_cons hrest hx)
      · intro h
        exact ⟨List.rel_of_pairwise_cons h List.mem_cons_self, h.of_cons⟩

def ofList (values : List Nat) : Except DomainFault Domain :=
  if hne : values = [] then .error .empty
  else if hinc : isIncreasing values = true then .ok ⟨values, hne, isIncreasing_iff.mp hinc⟩
  else .error .notIncreasing

/-- Each value costs a branch in a proof, so a range may span only so many. -/
def maxWidth : Nat := 1 <<< 16

def range (least greatest : Nat) : Except DomainFault Domain :=
  if greatest < least then .error .reversedRange
  else if maxWidth ≤ greatest - least then .error .wideRange
  else .ok ⟨List.range' least (greatest - least + 1), by simp, List.pairwise_lt_range'⟩

def min (d : Domain) : Nat := d.values.head d.nonempty

def max (d : Domain) : Nat := d.values.getLast d.nonempty

def size (d : Domain) : Nat := d.values.length

def sum (a b : Domain) : Except DomainFault Domain :=
  if a.min + b.min < Decimal.wordLimit ∧ a.max + b.max < Decimal.wordLimit then
    range (a.min + b.min) (a.max + b.max)
  else .error .overflow

def position? (d : Domain) (value : Nat) : Option Nat := d.values.idxOf? value

def contains (d : Domain) (value : Nat) : Bool := (d.position? value).isSome

end Domain
end SecretTally
