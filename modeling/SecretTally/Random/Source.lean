import SecretTally.Residue.Exponent

/-! Where randomness comes from: a state that yields integers below a modulus. A tape yields
prescribed integers, so that a statement over all tapes is one over all outcomes of the draws. -/

namespace SecretTally

class Source (σ : Type) where
  draw (m : Modulus) (s : σ) : Fin m.value × σ

/-- A computation that draws from a source and may fail. What it drew stays drawn if it fails. -/
abbrev Randomized (σ ε α : Type) := ExceptT ε (StateM σ) α

def Exponent.random {σ ε : Type} [Source σ] (q : Modulus) : Randomized σ ε Exponent := fun s =>
  let (v, s) := Source.draw q s
  (.ok ⟨q, v.val, v.isLt⟩, s)

structure Tape where
  pending : List Nat
deriving DecidableEq

instance : Source Tape where
  draw m tape :=
    match tape.pending with
    | [] => (⟨0, m.pos⟩, tape)
    | v :: rest => (⟨v % m.value, Nat.mod_lt _ m.pos⟩, ⟨rest⟩)

end SecretTally
