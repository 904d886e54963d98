import Mathlib
import SecretTally.Proofs.Random.Outcome

/-! What is drawn from a source, of whatever kind it is. Draws take the source from state to state,
and a computation that leaves the state after `n` draws has made exactly these, be its outcome a value
or a failure. A metered source tells the number. -/

namespace SecretTally

namespace Source
variable {σ : Type} [Source σ] {q : Modulus}

def after (q : Modulus) : ℕ → σ → σ
  | 0, s => s
  | n + 1, s => after q n (draw q s).2

def exponent (q : Modulus) (s : σ) : Exponent := ⟨q, (draw q s).1, (draw q s).1.isLt⟩

theorem after_add (m n : ℕ) (s : σ) : after q (m + n) s = after q n (after q m s) := by
  induction m generalizing s with
  | zero => rw [Nat.zero_add, after]
  | succ m ih =>
    rw [Nat.succ_add, after, after]
    exact ih _

end Source

/-- A source, and how often it was drawn from. -/
structure Metered (σ : Type) where
  source : σ
  count : ℕ

instance {σ : Type} [Source σ] : Source (Metered σ) where
  draw q s := ((Source.draw q s.source).1, ⟨(Source.draw q s.source).2, s.count + 1⟩)

theorem Metered.after_eq {σ : Type} [Source σ] (q : Modulus) (n : ℕ) (s : Metered σ) :
    Source.after q n s = ⟨Source.after q n s.source, s.count + n⟩ := by
  induction n generalizing s with
  | zero => rfl
  | succ n ih =>
    rw [Source.after, ih]
    change Metered.mk _ (s.count + 1 + n) = ⟨_, _⟩
    rw [Nat.add_assoc, Nat.add_comm 1]
    rfl

theorem Exponent.random_eq {σ ε : Type} [Source σ] (q : Modulus) (s : σ) :
    (random q : Randomized σ ε Exponent) s = (.ok (Source.exponent q s), Source.after q 1 s) := rfl

end SecretTally
