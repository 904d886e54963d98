import Mathlib
import SecretTally.Ciphertext
import SecretTally.Proofs.Proof.Sum

/-! Homomorphic tallies. A ciphertext that encryption and addition lead to, in whatever tree of
additions, encrypts the sum of its votes under the randomness returned with it, and its proof is
accepted over its domain. As long as domains span less than the order, addition does not fail. -/

noncomputable section
namespace SecretTally
open Randomized

variable {σ : Type} [Source σ] {key : PublicKey} {ct a b : Ciphertext} {r r₁ r₂ : Exponent}
  {m m₁ m₂ : ℕ} {domain domain₁ domain₂ : Domain}

/-- What every ciphertext of a tally keeps: it encrypts a member of its domain, once, with a proof.
-/
structure Ciphertext.Tallies (key : PublicKey) (ct : Ciphertext) (r : Exponent) (m : ℕ)
    (domain : Domain) : Prop where
  pair_eq : ct.pair = Pair.encrypt key m r
  modulus_eq : r.modulus = key.q
  mem : m ∈ domain.values
  size_eq : ct.size = 1
  proof_size : ct.proof.size = domain.size
  accepted : ct.check key domain = .ok true

inductive Tallied (key : PublicKey) : Ciphertext → Exponent → ℕ → Domain → Prop
  | encrypted {σ : Type} [Source σ] {s : σ} {value : ℕ} {domain : Domain} {ct : Ciphertext}
      {r : Exponent} (h : (Ciphertext.encrypt key value domain s).1 = .ok (ct, r)) :
      Tallied key ct r value domain
  | combined {σ : Type} [Source σ] {s : σ} {a b ct : Ciphertext} {r₁ r₂ r : Exponent} {m₁ m₂ : ℕ}
      {domain₁ domain₂ domain : Domain} (left : Tallied key a r₁ m₁ domain₁)
      (right : Tallied key b r₂ m₂ domain₂) (hsum : domain₁.sum domain₂ = .ok domain)
      (hwidth : domain.max - domain.min < key.q.value)
      (h : (Ciphertext.combine key a r₁ domain₁ b r₂ domain₂ domain s).1 = .ok (ct, r)) :
      Tallied key ct r (m₁ + m₂) domain

namespace Ciphertext

theorem returns_encrypt (hm : m ∈ domain.values) :
    Returns (encrypt key m domain : Randomized σ Refusal (Ciphertext × Exponent))
      fun out => out.1.Tallies key out.2 m domain := by
  refine (returns_random key.q).bind fun r hr => ?_
  refine (returns_prove standardDigest hm).bind fun proof hproof => ?_
  obtain ⟨t, answers, hlength, hring, rfl⟩ := hproof
  refine returns_pure ⟨rfl, hr, hm, rfl, ?_, ?_⟩
  · rw [size_closeProof, length_freshBranches _ hlength]
  · exact check_freshProof standardDigest hm hlength hring List.prefix_rfl

theorem mem_of_encrypt {s : σ} (h : (encrypt key m domain s).1 = .ok (ct, r)) :
    m ∈ domain.values := by
  by_contra hm
  have hfail : Fails (encrypt key m domain : Randomized σ Refusal (Ciphertext × Exponent))
      (.absentValue m) := by
    refine (returns_random key.q).bind_ends fun r _ => ?_
    simp only [prove_of_notMem standardDigest hm]
    exact fun _ => rfl
  exact absurd (h.symm.trans (hfail s)) (by simp)

theorem Tallies.encrypts (h : ct.Tallies key r m domain) :
    (ct.summand r domain).Encrypts key m := by
  obtain ⟨hmatch, _, hholds⟩ := MembershipProof.check_eq_ok_true_iff.mp h.accepted
  exact ⟨h.pair_eq, h.modulus_eq, hmatch, hholds.shape.length_s.trans h.proof_size, h.proof_size⟩

theorem returns_combine (hq : key.q.value.Prime) (ha : a.Tallies key r₁ m₁ domain₁)
    (hb : b.Tallies key r₂ m₂ domain₂) (hsum : domain₁.sum domain₂ = .ok domain)
    (hwidth : domain.max - domain.min < key.q.value) :
    Returns (combine key a r₁ domain₁ b r₂ domain₂ domain :
      Randomized σ SumFailure (Ciphertext × Exponent))
        fun out => out.1.Tallies key out.2 (m₁ + m₂) domain := by
  have hmem : m₁ + m₂ ∈ domain.values := Domain.add_mem_sum hsum ha.mem hb.mem
  have hone := Domain.countP_modEq_eq_one hwidth hmem
  have hpos := Nat.lt_of_lt_of_eq Nat.one_pos hone.symm
  have hsize : ¬ a.size ≠ b.size := not_not.mpr (ha.size_eq.trans hb.size_eq.symm)
  rw [combine, if_neg hsize]
  refine (returns_sumProof standardDigest hq ha.encrypts hb.encrypts hpos).bind fun out hout => ?_
  obtain ⟨draws, rfl⟩ := hout
  refine returns_pure ⟨pair_mul_eq ha.encrypts hb.encrypts, ha.modulus_eq, hmem, ha.size_eq, ?_, ?_⟩
  · exact (size_closeProof _).trans draws.length_branches
  · refine (draws.check_proof hq ha.encrypts hb.encrypts standardDigest hpos).trans ?_
    rw [hone, Nat.sub_self, zero_mul, decide_eq_true Nat.ModEq.rfl]

end Ciphertext

theorem Tallied.tallies (hq : key.q.value.Prime) (h : Tallied key ct r m domain) :
    ct.Tallies key r m domain := by
  induction h with
  | @encrypted σ _ s value domain ct r h =>
    obtain ⟨out, hout, htallies⟩ := Ciphertext.returns_encrypt (Ciphertext.mem_of_encrypt h) s
    cases h.symm.trans hout
    exact htallies
  | @combined σ _ s a b ct r₁ r₂ r m₁ m₂ domain₁ domain₂ domain _ _ hsum hwidth h iha ihb =>
    obtain ⟨out, hout, htallies⟩ := Ciphertext.returns_combine hq iha ihb hsum hwidth s
    cases h.symm.trans hout
    exact htallies

/-- What encryption and addition lead to encrypts a member of its domain with an accepted proof, and
nothing fails as long as a domain spans less than the order. -/
theorem tallied_combine_ok (hq : key.q.value.Prime) :
    (∀ {ct r m domain}, Tallied key ct r m domain → ct.Tallies key r m domain) ∧
    (∀ {m domain}, m ∈ domain.values → ∀ {σ : Type} [Source σ] (s : σ),
      ∃ ct r, (Ciphertext.encrypt key m domain s).1 = .ok (ct, r)) ∧
    ∀ {a r₁ m₁ domain₁ b r₂ m₂ domain₂ domain}, Tallied key a r₁ m₁ domain₁ →
      Tallied key b r₂ m₂ domain₂ → domain₁.sum domain₂ = .ok domain →
      domain.max - domain.min < key.q.value → ∀ {σ : Type} [Source σ] (s : σ),
        ∃ ct r, (Ciphertext.combine key a r₁ domain₁ b r₂ domain₂ domain s).1 = .ok (ct, r) := by
  refine ⟨fun h => h.tallies hq, fun {m domain} hm {σ} _ s => ?_, ?_⟩
  · obtain ⟨⟨ct, r⟩, hout, _⟩ := @Ciphertext.returns_encrypt _ _ key _ _ hm s
    exact ⟨ct, r, hout⟩
  · intro a r₁ m₁ domain₁ b r₂ m₂ domain₂ domain ha hb hsum hwidth σ _ s
    obtain ⟨⟨ct, r⟩, hout, _⟩ :=
      Ciphertext.returns_combine hq (ha.tallies hq) (hb.tallies hq) hsum hwidth s
    exact ⟨ct, r, hout⟩

theorem tallied_combine_ok_three :
    let ballot : Domain := ⟨[0, 1], by decide, by decide⟩
    let wide : Domain := ⟨[1, 4, 5], by decide, by decide⟩
    let pairs : Domain := ⟨[0, 1, 2], by decide, by decide⟩
    let all : Domain := ⟨[1, 2, 3, 4, 5, 6, 7], by decide, by decide⟩
    PublicKey.small.q.value.Prime ∧ ballot.sum ballot = .ok pairs ∧ pairs.sum wide = .ok all ∧
      all.max - all.min < PublicKey.small.q.value ∧
      ∃ (two three : Ciphertext) (r₂ r₃ : Exponent), Tallied .small two r₂ (1 + 1) pairs ∧
        Tallied .small three r₃ (1 + 1 + 1) all ∧
        three.pair = Pair.encrypt .small (1 + 1 + 1) r₃ ∧ three.check .small all = .ok true := by
  intro ballot wide pairs all
  have hq : PublicKey.small.q.value.Prime := by decide
  have hpairs : ballot.sum ballot = .ok pairs := by decide
  have hall : pairs.sum wide = .ok all := by decide
  have hnarrow : pairs.max - pairs.min < PublicKey.small.q.value := by decide
  have hwidth : all.max - all.min < PublicKey.small.q.value := by decide
  obtain ⟨hinvariant, hencrypt, hcombine⟩ := tallied_combine_ok hq
  have hone : 1 ∈ ballot.values := by decide
  have hone' : 1 ∈ wide.values := by decide
  obtain ⟨one, r₁, hrun₁⟩ := hencrypt hone (Tape.mk [3, 1, 4, 1, 5, 9])
  obtain ⟨other, r, hrun⟩ := hencrypt hone' (Tape.mk [2, 6, 5, 3, 5, 8, 9, 7])
  have hleft := Tallied.encrypted hrun₁
  obtain ⟨two, r₂, hrun₂⟩ := hcombine hleft hleft hpairs hnarrow (Tape.mk [9, 3, 2, 3, 8, 4])
  have htwo := Tallied.combined hleft hleft hpairs hnarrow hrun₂
  obtain ⟨three, r₃, hrun₃⟩ :=
    hcombine htwo (Tallied.encrypted hrun) hall hwidth (Tape.mk [6, 2, 6, 4])
  have hthree := Tallied.combined htwo (Tallied.encrypted hrun) hall hwidth hrun₃
  have htallies := hinvariant hthree
  exact ⟨hq, hpairs, hall, hwidth, two, three, r₂, r₃, htwo, hthree, htallies.pair_eq,
    htallies.accepted⟩

end SecretTally

end
