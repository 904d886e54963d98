import Mathlib
import SecretTally.Ciphertext
import SecretTally.Proofs.Proof.Stretch
import SecretTally.Proofs.Random.Draws

/-! How much randomness the provers draw. What a run ends in is written out as a function of the
draws, with the state that is left: a fresh proof draws for every position, the true one too, and a
sum for every value that a summand's domain lacks. Nothing secret decides on the number. -/

noncomputable section
namespace SecretTally

variable {σ ε : Type} [Source σ] {key : PublicKey} {lhs rhs summand : Summand} {merged : Domain}

namespace Source

def answer (q : Modulus) (s : σ) : Answer := ⟨exponent q s, exponent q (after q 1 s)⟩

def answers (q : Modulus) : ℕ → σ → List Answer
  | 0, _ => []
  | n + 1, s => answer q s :: answers q n (after q 2 s)

theorem length_answers (q : Modulus) (n : ℕ) (s : σ) : (answers q n s).length = n := by
  induction n generalizing s with
  | zero => rfl
  | succ n ih => exact congrArg Nat.succ (ih _)

theorem getElem?_answers {n k : ℕ} (hk : k < n) (s : σ) : (answers q n s)[k]? =
    some ⟨exponent q (after q (2 * k) s), exponent q (after q (2 * k + 1) s)⟩ := by
  induction n generalizing k s with
  | zero => exact absurd hk (Nat.not_lt_zero k)
  | succ n ih =>
    cases k with
    | zero => rfl
    | succ k =>
      have hnext : 2 * (k + 1) = 2 + 2 * k := by omega
      rw [answers, List.getElem?_cons_succ, ih (Nat.lt_of_succ_lt_succ hk), ← after_add,
        ← after_add, hnext, Nat.add_assoc]

end Source

open Source

theorem Answer.random_eq (q : Modulus) (s : σ) :
    (random q : Randomized σ ε Answer) s = (.ok (answer q s), after q 2 s) := rfl

theorem Answer.randomList_eq (q : Modulus) (n : ℕ) (s : σ) :
    (randomList q n : Randomized σ ε (List Answer)) s = (.ok (answers q n s), after q (2 * n) s) := by
  induction n generalizing s with
  | zero => rfl
  | succ n ih =>
    rw [randomList, Randomized.bind_of_ok (random_eq q s), Randomized.bind_of_ok (ih _), answers,
      Nat.mul_succ, Nat.add_comm, after_add]
    rfl

theorem prove_eq_of_valid (digest : Digest) {pair : Pair} {value : ℕ} {domain : Domain}
    (hpair : key.ownsPair pair = true) (hvalue : value ∈ domain.values) (r : Exponent) (s : σ) :
    prove digest key pair r value domain s =
      (.ok (closeProof digest key pair (exponent key.q s) r (freshBranches key pair value domain
        (exponent key.q s) (answers key.q domain.size (after key.q 1 s)))),
        after key.q (1 + 2 * domain.size) s) := by
  rw [prove, hpair, Domain.contains_iff.mpr hvalue, after_add]
  change (Exponent.random key.q >>= _ : Randomized σ Refusal MembershipProof) s = _
  rw [Randomized.bind_of_ok (Exponent.random_eq key.q s),
    Randomized.bind_of_ok (Answer.randomList_eq key.q domain.size _)]
  rfl

namespace Summand

def filled (key : PublicKey) (summand : Summand) : List ℕ → List Answer → List Answer
  | [], _ => []
  | d :: ds, drawn =>
    match summand.answer? key d, drawn with
    | some own, drawn => own :: filled key summand ds drawn
    | none, a :: drawn => a :: filled key summand ds drawn
    | none, [] => []

section Filled
variable {d : ℕ} {ds : List ℕ} {a own : Answer} {drawn : List Answer}

theorem filled_of_some (h : summand.answer? key d = some own) :
    summand.filled key (d :: ds) drawn = own :: summand.filled key ds drawn := by
  simp only [filled, h]

theorem filled_of_none (h : summand.answer? key d = none) :
    summand.filled key (d :: ds) (a :: drawn) = a :: summand.filled key ds drawn := by
  simp only [filled, h]

end Filled

section Lockstep
variable (hs : summand.proof.s.length = summand.domain.size)
  (hc : summand.proof.c.length = summand.domain.size)
include hs hc

theorem mapM_answerAt_eq (ds : List ℕ) (s : σ) :
    (ds.mapM (summand.answerAt key) : Randomized σ SumFailure (List Answer)) s =
      (.ok (summand.filled key ds
        (answers key.q (ds.countP fun d => d ∉ summand.domain.values) s)),
        after key.q (2 * ds.countP fun d => d ∉ summand.domain.values) s) := by
  induction ds generalizing s with
  | nil => rfl
  | cons d ds ih =>
    have hcovered : (∃ a, summand.answer? key d = some a) ↔ d ∈ summand.domain.values :=
      exists_answer?_iff hs hc
    have hrun : (summand.answerAt key d : Randomized σ SumFailure Answer) = _ :=
      answerAt_eq_answer? hs hc d
    cases hd : summand.answer? key d with
    | some own =>
      have hmem : d ∈ summand.domain.values := hcovered.mp ⟨own, hd⟩
      have hhead : summand.answerAt key d s = (.ok own, s) := by rw [hrun, hd]; rfl
      rw [List.mapM_cons, List.countP_cons_of_neg (by simpa using hmem),
        Randomized.bind_of_ok hhead, Randomized.bind_of_ok (ih s), filled_of_some hd]
      rfl
    | none =>
      have hmem : d ∉ summand.domain.values := fun hmem => by
        obtain ⟨a, ha⟩ := hcovered.mpr hmem
        exact absurd (hd.symm.trans ha) (by simp)
      have hhead : summand.answerAt key d s = (.ok (answer key.q s), after key.q 2 s) := by
        rw [hrun, hd]
        rfl
      rw [List.mapM_cons, List.countP_cons_of_pos (by simpa using hmem),
        Randomized.bind_of_ok hhead, Randomized.bind_of_ok (ih _), answers, filled_of_none hd,
        Nat.mul_succ, Nat.add_comm, after_add]
      rfl

theorem stretch_eq (merged : Domain) (s : σ) : summand.stretch key merged s =
    (.ok (summand.filled key merged.values
      (answers key.q (merged.uncovered summand.domain) s)),
      after key.q (2 * merged.uncovered summand.domain) s) := by
  have hsize : summand.proof.size = summand.domain.size := hc
  rw [stretch, if_neg (not_not.mpr hsize)]
  exact mapM_answerAt_eq hs hc merged.values s

end Lockstep

end Summand

def sumOutcome (digest : Digest) (key : PublicKey) (lhs rhs : Summand) (merged : Domain)
    (t : Exponent) (left right : List Answer) : Except SumFailure (Pair × MembershipProof) :=
  if (sumBranches key lhs rhs merged t left right).any Branch.isOpen then
    .ok (lhs.pair * rhs.pair, closeProof digest key (lhs.pair * rhs.pair) t
      (lhs.randomness + rhs.randomness) (sumBranches key lhs rhs merged t left right))
  else .error (.refused (.badSum .plaintextOutside))

theorem sumOutcome_cases (digest : Digest) (t : Exponent) (left right : List Answer) :
    (∃ out, sumOutcome digest key lhs rhs merged t left right = .ok out) ∨
      sumOutcome digest key lhs rhs merged t left right =
        .error (.refused (.badSum .plaintextOutside)) := by
  unfold sumOutcome
  split
  · exact .inl ⟨_, rfl⟩
  · exact .inr rfl

def MembershipProof.InStep (proof : MembershipProof) : Prop := proof.s.length = proof.c.length

section Sum
variable (digest : Digest) (s : σ) (hl : lhs.inGroup key = true) (hr : rhs.inGroup key = true)
include hl hr

theorem sumProof_of_left_size_ne (hsize : lhs.proof.size ≠ lhs.domain.size) :
    sumProof digest key lhs rhs merged s = (.error (.refused (.badSum .proofLength)), s) := by
  rw [sumProof, hl, hr, Summand.stretch_of_size_ne hsize]
  rfl

variable (hlstep : lhs.proof.InStep) (hlsize : lhs.proof.size = lhs.domain.size)
include hlstep hlsize

theorem sumProof_of_right_size_ne (hsize : rhs.proof.size ≠ rhs.domain.size) :
    sumProof digest key lhs rhs merged s = (.error (.refused (.badSum .proofLength)),
      after key.q (2 * merged.uncovered lhs.domain) s) := by
  rw [sumProof, hl, hr]
  refine (Randomized.bind_of_ok (Summand.stretch_eq (hlstep.trans hlsize) hlsize merged s) _).trans ?_
  rw [Summand.stretch_of_size_ne hsize]
  rfl

theorem sumProof_eq_sumOutcome (hrstep : rhs.proof.InStep)
    (hrsize : rhs.proof.size = rhs.domain.size) :
    let before := 2 * merged.uncovered lhs.domain
    let drawn := before + 2 * merged.uncovered rhs.domain
    sumProof digest key lhs rhs merged s =
      (sumOutcome digest key lhs rhs merged (exponent key.q (after key.q drawn s))
        (lhs.filled key merged.values (answers key.q (merged.uncovered lhs.domain) s))
        (rhs.filled key merged.values
          (answers key.q (merged.uncovered rhs.domain) (after key.q before s))),
        after key.q (drawn + 1) s) := by
  intro before drawn
  rw [sumProof, hl, hr, after_add drawn, after_add before]
  refine (Randomized.bind_of_ok (Summand.stretch_eq (hlstep.trans hlsize) hlsize merged s) _).trans ?_
  refine (Randomized.bind_of_ok (Summand.stretch_eq (hrstep.trans hrsize) hrsize merged _) _).trans ?_
  refine (Randomized.bind_of_ok (Exponent.random_eq key.q _) _).trans ?_
  change (if (sumBranches key lhs rhs merged _ _ _).any Branch.isOpen then _ else _ :
    Randomized σ SumFailure (Pair × MembershipProof)) _ = (if _ then _ else _, _)
  split <;> rfl

end Sum

structure ProveRun (digest : Digest) (key : PublicKey) (pair : Pair) (r : Exponent) (value : ℕ)
    (domain : Domain) (s : σ) : Prop where
  foreign : key.ownsPair pair = false →
    prove digest key pair r value domain s = (.error .foreignGroup, s)
  absent : key.ownsPair pair = true → value ∉ domain.values →
    prove digest key pair r value domain s = (.error (.absentValue value), s)
  proven : key.ownsPair pair = true → value ∈ domain.values → ∃ proof,
    prove digest key pair r value domain s = (.ok proof, after key.q (1 + 2 * domain.size) s)

structure EncryptRun (key : PublicKey) (value : ℕ) (domain : Domain) (s : σ) : Prop where
  absent : value ∉ domain.values →
    Ciphertext.encrypt key value domain s = (.error (.absentValue value), after key.q 1 s)
  encrypted : value ∈ domain.values → ∃ proof, Ciphertext.encrypt key value domain s =
    (.ok (⟨Pair.encrypt key value (exponent key.q s), 1, proof⟩, exponent key.q s),
      after key.q (1 + (1 + 2 * domain.size)) s)

structure SumRun (digest : Digest) (key : PublicKey) (lhs rhs : Summand) (merged : Domain) (s : σ) :
    Prop where
  foreign : ¬ (lhs.inGroup key = true ∧ rhs.inGroup key = true) →
    sumProof digest key lhs rhs merged s = (.error (.refused .foreignGroup), s)
  left : lhs.inGroup key = true → rhs.inGroup key = true → lhs.proof.size ≠ lhs.domain.size →
    sumProof digest key lhs rhs merged s = (.error (.refused (.badSum .proofLength)), s)
  right : lhs.inGroup key = true → rhs.inGroup key = true → lhs.proof.size = lhs.domain.size →
    rhs.proof.size ≠ rhs.domain.size →
    sumProof digest key lhs rhs merged s = (.error (.refused (.badSum .proofLength)),
      after key.q (2 * merged.uncovered lhs.domain) s)
  composed : lhs.inGroup key = true → rhs.inGroup key = true →
    lhs.proof.size = lhs.domain.size → rhs.proof.size = rhs.domain.size → ∃ outcome,
    ((∃ out, outcome = .ok out) ∨ outcome = .error (.refused (.badSum .plaintextOutside))) ∧
    sumProof digest key lhs rhs merged s = (outcome, after key.q
      (2 * merged.uncovered lhs.domain + 2 * merged.uncovered rhs.domain + 1) s)

structure CombineRun (key : PublicKey) (a : Ciphertext) (r₁ : Exponent) (domain₁ : Domain)
    (b : Ciphertext) (r₂ : Exponent) (domain₂ merged : Domain) (s : σ) : Prop where
  sizes : a.size ≠ b.size → Ciphertext.combine key a r₁ domain₁ b r₂ domain₂ merged s =
    (.error (.refused (.badSum .sizes)), s)
  summed : a.size = b.size → (Ciphertext.combine key a r₁ domain₁ b r₂ domain₂ merged s).2 =
    (sumProof standardDigest key (a.summand r₁ domain₁) (b.summand r₂ domain₂) merged s).2

structure Summand.SameChecks (key : PublicKey) (a b : Summand) : Prop where
  inGroup_eq : a.inGroup key = b.inGroup key
  domain_eq : a.domain = b.domain
  size_eq : a.proof.size = b.proof.size

theorem proveRun (digest : Digest) (pair : Pair) (r : Exponent) (value : ℕ) (domain : Domain)
    (s : σ) : ProveRun digest key pair r value domain s where
  foreign hpair := by
    rw [prove, hpair]
    rfl
  absent hpair hvalue := by
    rw [← Domain.contains_iff, Bool.not_eq_true] at hvalue
    rw [prove, hpair, hvalue]
    rfl
  proven hpair hvalue := ⟨_, prove_eq_of_valid digest hpair hvalue r s⟩

theorem encryptRun (value : ℕ) (domain : Domain) (s : σ) : EncryptRun key value domain s where
  absent hvalue := by
    refine (Randomized.bind_of_ok (Exponent.random_eq key.q s) _).trans ?_
    rw [prove_of_notMem standardDigest hvalue]
    rfl
  encrypted hvalue := by
    have hpair : key.ownsPair (Pair.encrypt key value (exponent key.q s)) = true :=
      PublicKey.ownsPair_encrypt value _
    obtain ⟨proof, hproof⟩ :=
      (proveRun standardDigest _ (exponent key.q s) value domain (after key.q 1 s)).proven hpair hvalue
    refine ⟨proof, (Randomized.bind_of_ok (Exponent.random_eq key.q s) _).trans ?_⟩
    refine (Randomized.bind_of_ok hproof _).trans ?_
    rw [after_add 1 (1 + 2 * domain.size)]
    rfl

theorem sumRun (digest : Digest) (hlstep : lhs.proof.InStep) (hrstep : rhs.proof.InStep)
    (merged : Domain) (s : σ) : SumRun digest key lhs rhs merged s where
  foreign hgroup := by
    rw [sumProof_of_foreign digest hgroup]
    rfl
  left hl hr := sumProof_of_left_size_ne digest s hl hr
  right hl hr hlsize := sumProof_of_right_size_ne digest s hl hr hlstep hlsize
  composed hl hr hlsize hrsize := by
    have hrun : sumProof digest key lhs rhs merged s = _ :=
      sumProof_eq_sumOutcome digest s hl hr hlstep hlsize hrstep hrsize
    exact ⟨_, sumOutcome_cases digest _ _ _, hrun⟩

theorem combineRun (a : Ciphertext) (r₁ : Exponent) (domain₁ : Domain) (b : Ciphertext)
    (r₂ : Exponent) (domain₂ merged : Domain) (s : σ) :
    CombineRun key a r₁ domain₁ b r₂ domain₂ merged s where
  sizes hsize := by
    rw [Ciphertext.combine, if_pos hsize]
    rfl
  summed hsize := by
    rw [Ciphertext.combine, if_neg (not_not.mpr hsize), Randomized.bind_apply]
    rcases sumProof standardDigest key (a.summand r₁ domain₁) (b.summand r₂ domain₂) merged s with
      ⟨_ | _, _⟩ <;> rfl

section TwoRuns
variable {digest : Digest} {s : σ}

theorem ProveRun.state_eq {pair pair' : Pair} {r r' : Exponent} {value value' : ℕ} {domain : Domain}
    (h : ProveRun digest key pair r value domain s)
    (h' : ProveRun digest key pair' r' value' domain s)
    (hpair : key.ownsPair pair = key.ownsPair pair')
    (hvalue : value ∈ domain.values ↔ value' ∈ domain.values) :
    (prove digest key pair r value domain s).2 = (prove digest key pair' r' value' domain s).2 := by
  cases howns : key.ownsPair pair with
  | false => rw [h.foreign howns, h'.foreign (hpair ▸ howns)]
  | true =>
    by_cases hmem : value ∈ domain.values
    · obtain ⟨_, hrun⟩ := h.proven howns hmem
      obtain ⟨_, hrun'⟩ := h'.proven (hpair ▸ howns) (hvalue.mp hmem)
      rw [hrun, hrun']
    · rw [h.absent howns hmem, h'.absent (hpair ▸ howns) (mt hvalue.mpr hmem)]

theorem EncryptRun.state_eq {value value' : ℕ} {domain : Domain}
    (h : EncryptRun key value domain s) (h' : EncryptRun key value' domain s)
    (hvalue : value ∈ domain.values ↔ value' ∈ domain.values) :
    (Ciphertext.encrypt key value domain s).2 = (Ciphertext.encrypt key value' domain s).2 := by
  by_cases hmem : value ∈ domain.values
  · obtain ⟨_, hrun⟩ := h.encrypted hmem
    obtain ⟨_, hrun'⟩ := h'.encrypted (hvalue.mp hmem)
    rw [hrun, hrun']
  · rw [h.absent hmem, h'.absent (mt hvalue.mpr hmem)]

theorem SumRun.state_eq {lhs' rhs' : Summand} (h : SumRun digest key lhs rhs merged s)
    (h' : SumRun digest key lhs' rhs' merged s) (hleft : lhs.SameChecks key lhs')
    (hright : rhs.SameChecks key rhs') :
    (sumProof digest key lhs rhs merged s).2 = (sumProof digest key lhs' rhs' merged s).2 := by
  obtain ⟨foreign', left', right', composed'⟩ := h'
  rw [← hleft.inGroup_eq, ← hright.inGroup_eq] at foreign' left' right' composed'
  rw [← hleft.domain_eq, ← hleft.size_eq] at left' right' composed'
  rw [← hright.domain_eq, ← hright.size_eq] at right' composed'
  by_cases hgroup : lhs.inGroup key = true ∧ rhs.inGroup key = true
  · obtain ⟨hl, hr⟩ := hgroup
    by_cases hlsize : lhs.proof.size = lhs.domain.size
    · by_cases hrsize : rhs.proof.size = rhs.domain.size
      · obtain ⟨_, -, hrun⟩ := h.composed hl hr hlsize hrsize
        obtain ⟨_, -, hrun'⟩ := composed' hl hr hlsize hrsize
        rw [hrun, hrun']
      · rw [h.right hl hr hlsize hrsize, right' hl hr hlsize hrsize]
    · rw [h.left hl hr hlsize, left' hl hr hlsize]
  · rw [h.foreign hgroup, foreign' hgroup]

theorem CombineRun.state_eq {a a' b b' : Ciphertext} {r₁ r₁' r₂ r₂' : Exponent}
    {domain₁ domain₂ : Domain} (h : CombineRun key a r₁ domain₁ b r₂ domain₂ merged s)
    (h' : CombineRun key a' r₁' domain₁ b' r₂' domain₂ merged s)
    (hsize : a.size = b.size ↔ a'.size = b'.size)
    (hsum : (sumProof standardDigest key (a.summand r₁ domain₁) (b.summand r₂ domain₂) merged s).2 =
      (sumProof standardDigest key (a'.summand r₁' domain₁) (b'.summand r₂' domain₂) merged s).2) :
    (Ciphertext.combine key a r₁ domain₁ b r₂ domain₂ merged s).2 =
      (Ciphertext.combine key a' r₁' domain₁ b' r₂' domain₂ merged s).2 := by
  by_cases heq : a.size = b.size
  · rw [h.summed heq, h'.summed (hsize.mp heq), hsum]
  · rw [h.sizes heq, h'.sizes (mt hsize.mpr heq)]

end TwoRuns

/-- The number of draws is settled by the checks and by how many values of the merged domain the
others lack. Two runs from one state that agree in the checks leave the source in one state. -/
theorem draws_by_checks {σ : Type} [Source σ] (digest : Digest) (key : PublicKey) (s : σ) :
    (∀ pair r value domain, ProveRun digest key pair r value domain s) ∧
    (∀ value domain, EncryptRun key value domain s) ∧
    (∀ lhs rhs merged, lhs.proof.InStep → rhs.proof.InStep →
      SumRun digest key lhs rhs merged s) ∧
    (∀ a r₁ domain₁ b r₂ domain₂ merged, CombineRun key a r₁ domain₁ b r₂ domain₂ merged s) ∧
    (∀ pair pair' r r' value value' domain, key.ownsPair pair = key.ownsPair pair' →
      (value ∈ domain.values ↔ value' ∈ domain.values) →
      (prove digest key pair r value domain s).2 = (prove digest key pair' r' value' domain s).2) ∧
    (∀ value value' domain, (value ∈ domain.values ↔ value' ∈ domain.values) →
      (Ciphertext.encrypt key value domain s).2 = (Ciphertext.encrypt key value' domain s).2) ∧
    (∀ lhs lhs' rhs rhs' merged, lhs.proof.InStep → lhs'.proof.InStep → rhs.proof.InStep →
      rhs'.proof.InStep → lhs.SameChecks key lhs' → rhs.SameChecks key rhs' →
      (sumProof digest key lhs rhs merged s).2 = (sumProof digest key lhs' rhs' merged s).2) ∧
    (∀ a a' b b' r₁ r₁' r₂ r₂' domain₁ domain₂ merged, a.proof.InStep → a'.proof.InStep →
      b.proof.InStep → b'.proof.InStep → (a.size = b.size ↔ a'.size = b'.size) →
      (a.summand r₁ domain₁).SameChecks key (a'.summand r₁' domain₁) →
      (b.summand r₂ domain₂).SameChecks key (b'.summand r₂' domain₂) →
      (Ciphertext.combine key a r₁ domain₁ b r₂ domain₂ merged s).2 =
        (Ciphertext.combine key a' r₁' domain₁ b' r₂' domain₂ merged s).2) := by
  refine ⟨fun pair r value domain => proveRun digest pair r value domain s,
    fun value domain => encryptRun value domain s,
    fun lhs rhs merged hl hr => sumRun digest hl hr merged s,
    fun a r₁ domain₁ b r₂ domain₂ merged => combineRun a r₁ domain₁ b r₂ domain₂ merged s,
    ?prove, ?encrypt, ?sum, ?combine⟩
  case prove =>
    intro pair pair' r r' value value' domain hpair hvalue
    exact (proveRun digest pair r value domain s).state_eq
      (proveRun digest pair' r' value' domain s) hpair hvalue
  case encrypt =>
    intro value value' domain hvalue
    exact (encryptRun value domain s).state_eq (encryptRun value' domain s) hvalue
  case sum =>
    intro lhs lhs' rhs rhs' merged hl hl' hr hr' hleft hright
    exact (sumRun digest hl hr merged s).state_eq (sumRun digest hl' hr' merged s) hleft hright
  case combine =>
    intro a a' b b' r₁ r₁' r₂ r₂' domain₁ domain₂ merged ha ha' hb hb' hsize hleft hright
    have hsum := (sumRun standardDigest ha hb merged s).state_eq
      (sumRun standardDigest ha' hb' merged s) hleft hright
    exact (combineRun a r₁ domain₁ b r₂ domain₂ merged s).state_eq
      (combineRun a' r₁' domain₁ b' r₂' domain₂ merged s) hsize hsum

theorem draws_by_checks_eleven :
    let q := PublicKey.small.q
    let lhs : Summand := ⟨Pair.encrypt .small 3 (.ofNat 2 q), ⟨23, 11, [], [9], [15, 40], [7, 30]⟩,
      .ofNat 2 q, ⟨[3, 8], by decide, by decide⟩⟩
    let lhs' : Summand := ⟨Pair.encrypt .small 4 (.ofNat 6 q), ⟨23, 11, [1], [], [0, 1], [8, 2]⟩,
      .ofNat 9 q, ⟨[3, 8], by decide, by decide⟩⟩
    let rhs : Summand := ⟨Pair.encrypt .small 16 (.ofNat 5 q), ⟨23, 11, [], [], [2], [100]⟩,
      .ofNat 5 q, ⟨[1], by decide, by decide⟩⟩
    let merged : Domain := ⟨[8, 12, 19], by decide, by decide⟩
    let s : Metered Tape := ⟨⟨[3, 1, 4, 1, 5, 9, 2, 6, 5, 3, 5, 8]⟩, 0⟩
    let run := sumProof standardDigest .small lhs rhs merged s
    let run' := sumProof standardDigest .small lhs' rhs merged s
    lhs.proof.InStep ∧ lhs'.proof.InStep ∧ rhs.proof.InStep ∧ lhs.SameChecks .small lhs' ∧
      run.1.isOk = true ∧ run'.1 = .error (.refused (.badSum .plaintextOutside)) ∧
      run.2.count = 11 ∧ run'.2 = run.2 := by
  intro q lhs lhs' rhs merged s run run'
  have hl : lhs.proof.InStep := rfl
  have hl' : lhs'.proof.InStep := rfl
  have hr : rhs.proof.InStep := rfl
  have hchecks : lhs.SameChecks .small lhs' := ⟨by decide, rfl, rfl⟩
  have hrhs : rhs.SameChecks .small rhs := ⟨rfl, rfl, rfl⟩
  have hproven : run.1.isOk = true := by decide +kernel
  have houtside : run'.1 = .error (.refused (.badSum .plaintextOutside)) := by decide +kernel
  obtain ⟨-, -, hsum, -, -, -, htwo, -⟩ := draws_by_checks standardDigest .small s
  obtain ⟨outcome, -, hrun⟩ :=
    (hsum lhs rhs merged hl hr).composed (by decide) (by decide) rfl rfl
  have hstate : run.2 = Source.after q 11 s := congrArg Prod.snd hrun
  have hcount : run.2.count = 11 := by rw [hstate, Metered.after_eq]
  exact ⟨hl, hl', hr, hchecks, hproven, houtside, hcount,
    (htwo lhs lhs' rhs rhs merged hl hl' hr hr hchecks hrhs).symm⟩

end SecretTally

end
