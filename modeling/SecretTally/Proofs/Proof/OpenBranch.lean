import Mathlib
import SecretTally.Proofs.Proof.Sum
import SecretTally.Proofs.Refusal

/-! Which branches a prover leaves open. A fresh prover compares integers and leaves one branch open,
always. A sum is known by its pair only, so all values congruent to it stay open; there is one of them
exactly if the merged domain tells plaintexts apart, and the shares add up only then, save by chance. -/

noncomputable section
namespace SecretTally
open Randomized

/-- What a prover hands over to be closed. -/
structure Closing where
  pair : Pair
  t : Exponent
  randomness : Exponent
  branches : List Branch

namespace Closing

def proof (closing : Closing) (digest : Digest) (key : PublicKey) : MembershipProof :=
  closeProof digest key closing.pair closing.t closing.randomness closing.branches

def challenge (closing : Closing) (digest : Digest) (key : PublicKey) : Exponent :=
  key.challenge digest closing.pair (closing.branches.map Branch.commitment)

def share (closing : Closing) (digest : Digest) (key : PublicKey) : Exponent :=
  closingShare digest key closing.pair closing.branches

def openCount (closing : Closing) : ℕ := closing.branches.countP Branch.isOpen

def OpenWhere (closing : Closing) (domain : Domain) (P : ℕ → Prop) : Prop :=
  List.Forall₂ (fun d b => b.isOpen = true ↔ P d) domain.values closing.branches

end Closing

variable {σ : Type} [Source σ] {key : PublicKey} {lhs rhs summand : Summand} {merged : Domain}
  {m₁ m₂ : ℕ}

def freshClosing (key : PublicKey) (pair : Pair) (r : Exponent) (value : ℕ) (domain : Domain) :
    Randomized σ Refusal Closing :=
  if !key.ownsPair pair then throw .foreignGroup
  else if !domain.contains value then throw (.absentValue value)
  else do
    let t ← Exponent.random key.q
    let answers ← Answer.randomList key.q domain.size
    return ⟨pair, t, r, freshBranches key pair value domain t answers⟩

def sumClosing (key : PublicKey) (lhs rhs : Summand) (merged : Domain) :
    Randomized σ SumFailure Closing :=
  if !(lhs.inGroup key && rhs.inGroup key) then throw (.refused .foreignGroup)
  else do
    let left ← lhs.stretch key merged
    let right ← rhs.stretch key merged
    let t ← Exponent.random key.q
    let branches := sumBranches key lhs rhs merged t left right
    if branches.any Branch.isOpen then
      return ⟨lhs.pair * rhs.pair, t, lhs.randomness + rhs.randomness, branches⟩
    else throw (.refused (.badSum .plaintextOutside))

theorem prove_eq_closing (digest : Digest) (pair : Pair) (r : Exponent) (value : ℕ)
    (domain : Domain) :
    (prove digest key pair r value domain : Randomized σ Refusal MembershipProof) =
      (·.proof digest key) <$> freshClosing key pair r value domain := by
  unfold prove freshClosing
  split
  · rfl
  · split
    · rfl
    · simp only [map_bind, map_pure]
      rfl

theorem sumProof_eq_closing (digest : Digest) (lhs rhs : Summand) (merged : Domain) :
    (sumProof digest key lhs rhs merged : Randomized σ SumFailure (Pair × MembershipProof)) =
      (fun closing => (closing.pair, closing.proof digest key)) <$>
        sumClosing key lhs rhs merged := by
  unfold sumProof sumClosing
  split
  · rfl
  · simp only [map_bind, apply_ite, map_pure]
    rfl

structure Summand.Opens (key : PublicKey) (summand : Summand) (m : ℕ) : Prop where
  pair_eq : summand.pair = Pair.encrypt key m summand.randomness
  modulus_eq : summand.randomness.modulus = key.q

theorem yields_freshClosing (pair : Pair) (r : Exponent) (value : ℕ) (domain : Domain) :
    Yields (freshClosing key pair r value domain : Randomized σ Refusal Closing) fun closing =>
      closing.OpenWhere domain (· = value) ∧ closing.openCount = 1 ∧
        ∀ b ∈ closing.branches, b.InGroup key := by
  unfold freshClosing
  split
  · exact yields_throw _
  · split
    · exact yields_throw _
    · next hvalue =>
      have hmem : value ∈ domain.values := by
        rwa [Bool.not_eq_true', Bool.not_eq_false, Domain.contains_iff] at hvalue
      refine (returns_random key.q).yields.bind fun t _ => ?_
      refine (returns_answers key.q domain.size).yields.bind fun answers hanswers => ?_
      refine yields_pure ⟨forall₂_zipWith hanswers.1 fun d a _ => ?_,
        countP_freshBranches pair hmem hanswers.1,
        forall_mem_zipWith fun d a ha => inGroup_freshBranch (hanswers.2 a ha)⟩
      rw [freshBranch_isOpen, beq_iff_eq]

theorem yields_sumClosing (hq : key.q.value.Prime) (hl : lhs.Opens key m₁) (hr : rhs.Opens key m₂)
    (merged : Domain) :
    Yields (sumClosing key lhs rhs merged : Randomized σ SumFailure Closing) fun closing =>
      closing.OpenWhere merged (· ≡ m₁ + m₂ [MOD key.q.value]) ∧
        closing.openCount = merged.values.countP (fun d => d ≡ m₁ + m₂ [MOD key.q.value]) ∧
        0 < closing.openCount ∧ ∀ b ∈ closing.branches, b.InGroup key := by
  have hpair : lhs.pair * rhs.pair =
      Pair.encrypt key (m₁ + m₂) (lhs.randomness + rhs.randomness) := by
    rw [hl.pair_eq, hr.pair_eq, Pair.encrypt_mul _ _ hl.modulus_eq]
  have hopen (t : Exponent) := sumBranch_isOpen_of_pair (t := t) hq hpair
  unfold sumClosing
  split
  · exact yields_throw _
  · refine (lhs.yields_stretch merged).bind fun left hleft => ?_
    refine (rhs.yields_stretch merged).bind fun right hright => ?_
    refine (returns_random key.q).yields.bind fun t _ => ?_
    change Yields (if (sumBranches key lhs rhs merged t left right).any Branch.isOpen then _ else _) _
    split
    · next hany =>
      have hlength : (left.zip right).length = merged.values.length := by
        rw [List.length_zip, hleft.1, hright.1, Nat.min_self, Domain.size]
      refine yields_pure ⟨forall₂_zipWith hlength fun d answers _ => ?_,
        countP_zipWith hlength (hopen t), List.countP_pos_iff.mpr (List.any_eq_true.mp hany),
        forall_mem_zipWith fun d answers h => inGroup_sumBranch (hleft.2 _ (List.of_mem_zip h).1)⟩
      rw [hopen, decide_eq_true_eq]
    · exact yields_throw _

/-- Fresh proofs have one open branch, at the true value. Those of sums have one at each value that is
congruent to the sum of the plaintexts. The shares add up to the challenge if there is one of them. -/
theorem openBranches_of_closings (digest : Digest) (hq : key.q.value.Prime) :
    (∀ (pair : Pair) (r : Exponent) (value : ℕ) (domain : Domain),
      (prove digest key pair r value domain : Randomized σ Refusal MembershipProof) =
        (·.proof digest key) <$> freshClosing key pair r value domain ∧
      Yields (freshClosing key pair r value domain : Randomized σ Refusal Closing) fun closing =>
        closing.OpenWhere domain (· = value) ∧ closing.openCount = 1 ∧
        (closing.proof digest key).totalShare key = closing.challenge digest key) ∧
    ∀ (lhs rhs : Summand) (m₁ m₂ : ℕ) (merged : Domain), lhs.Opens key m₁ → rhs.Opens key m₂ →
      (sumProof digest key lhs rhs merged : Randomized σ SumFailure (Pair × MembershipProof)) =
        (fun closing => (closing.pair, closing.proof digest key)) <$>
          sumClosing key lhs rhs merged ∧
      Yields (sumClosing key lhs rhs merged : Randomized σ SumFailure Closing) fun closing =>
        closing.OpenWhere merged (· ≡ m₁ + m₂ [MOD key.q.value]) ∧ 0 < closing.openCount ∧
        (closing.openCount = 1 ↔ ∃! d, d ∈ merged.values ∧ d ≡ m₁ + m₂ [MOD key.q.value]) ∧
        (merged.max - merged.min < key.q.value → closing.openCount = 1) ∧
        ((closing.proof digest key).totalShare key = closing.challenge digest key ↔
          (closing.openCount - 1) * (closing.share digest key).value ≡ 0 [MOD key.q.value]) := by
  refine ⟨fun pair r value domain => ⟨prove_eq_closing digest pair r value domain, ?_⟩,
    fun lhs rhs m₁ m₂ merged hl hr => ⟨sumProof_eq_closing digest lhs rhs merged, ?_⟩⟩
  · refine (yields_freshClosing pair r value domain).imp fun closing h => ?_
    obtain ⟨hopen, hone, hgroup⟩ := h
    have hpos : 0 < closing.openCount := hone ▸ Nat.one_pos
    refine ⟨hopen, hone, (closeProof_totalShare_eq_iff hgroup closing.pair hpos).mpr ?_⟩
    change (closing.openCount - 1) * _ ≡ 0 [MOD _]
    rw [hone, Nat.sub_self, zero_mul]
  · refine (yields_sumClosing hq hl hr merged).imp fun closing h => ?_
    obtain ⟨hopen, hcount, hpos, hgroup⟩ := h
    have hunique : closing.openCount = 1 ↔
        ∃! d, d ∈ merged.values ∧ d ≡ m₁ + m₂ [MOD key.q.value] := by
      rw [hcount, Domain.countP_eq_one_iff]
    refine ⟨hopen, hpos, hunique, fun hwidth => hunique.mpr ?_,
      closeProof_totalShare_eq_iff hgroup closing.pair hpos⟩
    rw [hcount, List.countP_pos_iff] at hpos
    obtain ⟨d, hd, hmod⟩ := hpos
    rw [decide_eq_true_eq] at hmod
    exact ⟨d, ⟨hd, hmod⟩, fun e he => Domain.eq_of_modEq hwidth he.1 hd (he.2.trans hmod.symm)⟩

theorem openBranches_of_closings_eight :
    let q := PublicKey.small.q
    let lhs : Summand := ⟨Pair.encrypt .small 3 (.ofNat 2 q), ⟨23, 11, [], [9], [15, 40], [7, 30]⟩,
      .ofNat 2 q, ⟨[3, 8], by decide, by decide⟩⟩
    let rhs : Summand := ⟨Pair.encrypt .small 16 (.ofNat 5 q), ⟨23, 11, [], [], [2], [100]⟩,
      .ofNat 5 q, ⟨[1], by decide, by decide⟩⟩
    let narrow : Domain := ⟨[8, 12, 18], by decide, by decide⟩
    let wide : Domain := ⟨[8, 12, 19], by decide, by decide⟩
    q.value.Prime ∧ lhs.Opens .small 3 ∧ rhs.Opens .small 16 ∧
      narrow.max - narrow.min < q.value ∧
      (∃ closing, (sumClosing .small lhs rhs narrow (Tape.mk [3, 1, 4, 1, 5])).1 = .ok closing ∧
        closing.openCount = 1) ∧
      ∃ closing, (sumClosing .small lhs rhs wide (Tape.mk [3, 1, 4, 1, 5])).1 = .ok closing ∧
        closing.openCount ≠ 1 := by
  intro q lhs rhs narrow wide
  have hq : q.value.Prime := by decide
  have hl : lhs.Opens .small 3 := ⟨rfl, rfl⟩
  have hr : rhs.Opens .small 16 := ⟨rfl, rfl⟩
  have hwidth : narrow.max - narrow.min < q.value := by decide
  obtain ⟨-, hsums⟩ := openBranches_of_closings (σ := Tape) standardDigest hq
  refine ⟨hq, hl, hr, hwidth, ?_, ?_⟩
  · have hok : (sumClosing .small lhs rhs narrow (Tape.mk [3, 1, 4, 1, 5])).1.isOk = true := by
      decide +kernel
    obtain ⟨closing, hrun⟩ := exists_eq_ok hok
    obtain ⟨-, -, -, hone, -⟩ := (hsums lhs rhs 3 16 narrow hl hr).2 _ _ hrun
    exact ⟨closing, hrun, hone hwidth⟩
  · have hok : (sumClosing .small lhs rhs wide (Tape.mk [3, 1, 4, 1, 5])).1.isOk = true := by
      decide +kernel
    obtain ⟨closing, hrun⟩ := exists_eq_ok hok
    obtain ⟨-, -, hunique, -⟩ := (hsums lhs rhs 3 16 wide hl hr).2 _ _ hrun
    refine ⟨closing, hrun, fun hone => ?_⟩
    obtain ⟨d, -, hd⟩ := hunique.mp hone
    have height := hd 8 ⟨by decide, by decide⟩
    have hnineteen := hd 19 ⟨by decide, by decide⟩
    omega

/-- Two votes for zero over domains whose sum goes as far as the order: zero and three stay open. -/
theorem sumClosing_two_open :
    let key : PublicKey :=
      { p := ⟨7, rfl, by decide⟩
        q := ⟨3, rfl, by decide⟩
        g := ⟨⟨7, rfl, by decide⟩, 2, by decide⟩
        h := ⟨⟨7, rfl, by decide⟩, 4, by decide⟩
        f := ⟨⟨7, rfl, by decide⟩, 2, by decide⟩
        safe := by decide
        half := rfl
        isGenerator_g := ⟨rfl, by decide, by decide⟩
        isGenerator_h := ⟨rfl, by decide, by decide⟩
        isGenerator_f := ⟨rfl, by decide, by decide⟩ }
    let r := Exponent.ofNat 2 key.q
    let pair := Pair.encrypt key 0 r
    let lhs : Summand := ⟨pair, ⟨7, 3, [2, 2], [4, 1], [0, 0], [1, 1]⟩, r,
      ⟨[0, 1], by decide, by decide⟩⟩
    let rhs : Summand := ⟨pair, ⟨7, 3, [4, 1], [2, 4], [1, 2], [1, 1]⟩, r,
      ⟨[0, 2], by decide, by decide⟩⟩
    let merged : Domain := ⟨[0, 1, 2, 3], by decide, by decide⟩
    let tape := Tape.mk [2, 1, 2, 1, 0, 2, 2, 1, 1]
    let proof : MembershipProof := ⟨7, 3, [2, 1, 4, 2], [4, 1, 4, 4], [2, 0, 1, 2], [1, 0, 2, 1]⟩
    key.p.value.Prime ∧ key.q.value.Prime ∧ lhs.Opens key 0 ∧ rhs.Opens key 0 ∧
      lhs.domain.sum rhs.domain = .ok merged ∧
      lhs.proof.check standardDigest key lhs.pair lhs.domain = .ok true ∧
      rhs.proof.check standardDigest key rhs.pair rhs.domain = .ok true ∧
      (sumClosing key lhs rhs merged tape).1.map (·.branches.map Branch.isOpen) =
        .ok [true, false, false, true] ∧
      (sumProof standardDigest key lhs rhs merged tape).1 = .ok (pair * pair, proof) ∧
      proof.check standardDigest key (pair * pair) merged = .ok false := by
  intro key r pair lhs rhs merged tape proof
  exact ⟨by decide, by decide, ⟨rfl, rfl⟩, ⟨rfl, rfl⟩, by decide, by decide +kernel,
    by decide +kernel, by decide +kernel, by decide +kernel, by decide +kernel⟩

end SecretTally

end
