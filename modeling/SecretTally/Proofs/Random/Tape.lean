import Mathlib
import SecretTally.Proofs.Random.Outcome

/-! What a computation takes off a tape. Where the integers in front of the tape are known, so is the
value that it returns, and the rest of the tape is left; the integers of two steps are joined in the
order of the steps. -/

namespace SecretTally.Randomized
variable {ε α β : Type}

/-- The computation takes exactly `drawn` and returns `a`, whatever follows on the tape. -/
def Takes (x : Randomized Tape ε α) (drawn : List ℕ) (a : α) : Prop :=
  ∀ rest, x ⟨drawn ++ rest⟩ = (.ok a, ⟨rest⟩)

theorem takes_pure (a : α) : Takes (pure a : Randomized Tape ε α) [] a := fun _ => rfl

theorem Takes.bind {x : Randomized Tape ε α} {f : α → Randomized Tape ε β} {first second : List ℕ}
    {a : α} {b : β} (hx : Takes x first a) (hf : Takes (f a) second b) :
    Takes (x >>= f) (first ++ second) b := by
  intro rest
  rw [bind_apply, List.append_assoc, hx]
  exact hf rest

theorem Takes.bind_pure {x : Randomized Tape ε α} {drawn : List ℕ} {a : α} (hx : Takes x drawn a)
    (g : α → β) : Takes (x >>= fun a => pure (g a)) drawn (g a) := by
  rw [← List.append_nil drawn]
  exact hx.bind (takes_pure (g a))

theorem takes_random {q : Modulus} {e : Exponent} (he : e.modulus = q) :
    Takes (Exponent.random q : Randomized Tape ε Exponent) [e.value] e := by
  subst he
  intro rest
  change (Except.ok (Exponent.ofNat e.value e.modulus), Tape.mk rest) = _
  rw [e.ofNat_value]

theorem takes_mapM {f : α → Randomized Tape ε β} {drawn : α → β → List ℕ} {items : List α}
    {bs : List β} (h : List.Forall₂ (fun a b => Takes (f a) (drawn a b) b) items bs) :
    Takes (items.mapM f) (List.zipWith drawn items bs).flatten bs := by
  induction h with
  | nil => exact takes_pure []
  | @cons a b items bs hab _ ih =>
    rw [List.mapM_cons, List.zipWith_cons_cons, List.flatten_cons]
    exact hab.bind (ih.bind_pure (List.cons b))

end SecretTally.Randomized
