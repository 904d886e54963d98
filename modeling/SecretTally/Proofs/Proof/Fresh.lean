import Mathlib
import SecretTally.Proof.Fresh
import SecretTally.Proofs.Domain
import SecretTally.Proofs.Proof.Closing
import SecretTally.Proofs.Random.Outcome

/-! Completeness of fresh proofs. Whatever the prover draws, it ends in a proof with one branch for
each value of the domain, and the proof is accepted over the domain and over all that begin with it.
-/

noncomputable section
namespace SecretTally
open Randomized

variable {σ ε : Type} [Source σ]

theorem returns_answer (q : Modulus) :
    Returns (Answer.random q : Randomized σ ε Answer) (Answer.InRing q) := by
  refine (returns_random q).bind fun s hs => ?_
  refine (returns_random q).bind fun c hc => ?_
  exact returns_pure ⟨hs, hc⟩

theorem returns_answers (q : Modulus) (n : ℕ) :
    Returns (Answer.randomList q n : Randomized σ ε (List Answer))
      fun as => as.length = n ∧ ∀ a ∈ as, a.InRing q := by
  induction n with
  | zero => exact returns_pure ⟨rfl, by simp⟩
  | succ n ih =>
    refine (returns_answer q).bind fun a ha => ?_
    refine ih.bind fun as has => ?_
    exact returns_pure ⟨by simp [has.1], List.forall_mem_cons.mpr ⟨ha, has.2⟩⟩

variable {key : PublicKey} {value : ℕ} {domain : Domain} {r t : Exponent} {answers : List Answer}

theorem freshBranch_fits {a : Answer} (ha : a.InRing key.q) (d : ℕ) :
    (freshBranch key (Pair.encrypt key value r) value t d a).Fits key value r t d := by
  unfold freshBranch
  split
  · next hd => exact .committed (by rw [hd])
  · exact .simulated ha

theorem inGroup_freshBranch {pair : Pair} {d : ℕ} {a : Answer} (ha : a.InRing key.q) :
    (freshBranch key pair value t d a).InGroup key := by
  unfold freshBranch
  split
  · exact Branch.inGroup_committed
  · exact Branch.inGroup_simulated (modulus_commitment_y a pair d) (modulus_commitment_z a pair d) ha

theorem freshBranch_isOpen (pair : Pair) (d : ℕ) (a : Answer) :
    (freshBranch key pair value t d a).isOpen = (d == value) := by
  unfold freshBranch
  split
  · next hd => simp [Branch.committed, Branch.isOpen, hd]
  · next hd => simp [Branch.simulated, Branch.isOpen, hd]

theorem returns_prove (digest : Digest) (hvalue : value ∈ domain.values) :
    Returns (prove digest key (Pair.encrypt key value r) r value domain :
      Randomized σ Refusal MembershipProof) fun proof => ∃ t answers,
        answers.length = domain.size ∧ (∀ a ∈ answers, a.InRing key.q) ∧
          proof = closeProof digest key (Pair.encrypt key value r) t r
            (freshBranches key (Pair.encrypt key value r) value domain t answers) := by
  rw [prove, PublicKey.ownsPair_encrypt, Domain.contains_iff.mpr hvalue]
  refine (returns_random key.q).bind fun t _ => ?_
  refine (returns_answers key.q domain.size).bind fun answers hanswers => ?_
  exact returns_pure ⟨t, answers, hanswers.1, hanswers.2, rfl⟩

theorem prove_of_notMem (digest : Digest) (hvalue : value ∉ domain.values) :
    (prove digest key (Pair.encrypt key value r) r value domain :
      Randomized σ Refusal MembershipProof) = throw (.absentValue value) := by
  rw [prove, PublicKey.ownsPair_encrypt, if_neg (by decide), if_pos]
  rwa [Bool.not_eq_true', ← Bool.not_eq_true, Domain.contains_iff]

theorem length_freshBranches (pair : Pair) (hlength : answers.length = domain.size) :
    (freshBranches key pair value domain t answers).length = domain.size := by
  rw [freshBranches, List.length_zipWith, hlength, Domain.size, Nat.min_self]

theorem freshBranches_fits (hlength : answers.length = domain.size)
    (hring : ∀ a ∈ answers, a.InRing key.q) :
    List.Forall₂ (Branch.Fits key value r t) domain.values
      (freshBranches key (Pair.encrypt key value r) value domain t answers) :=
  forall₂_zipWith hlength fun d a ha => freshBranch_fits (hring a ha) d

theorem countP_freshBranches (pair : Pair) (hvalue : value ∈ domain.values)
    (hlength : answers.length = domain.size) :
    (freshBranches key pair value domain t answers).countP Branch.isOpen = 1 := by
  rw [← Domain.count_eq_one hvalue]
  exact countP_zipWith hlength (freshBranch_isOpen pair)

theorem check_freshProof (digest : Digest) (hvalue : value ∈ domain.values)
    (hlength : answers.length = domain.size) (hring : ∀ a ∈ answers, a.InRing key.q)
    {longer : Domain} (hlonger : domain.values <+: longer.values) :
    (closeProof digest key (Pair.encrypt key value r) t r
      (freshBranches key (Pair.encrypt key value r) value domain t answers)).check digest key
        (Pair.encrypt key value r) longer = .ok true := by
  rw [check_closeProof (freshBranches_fits hlength hring) hlonger,
    countP_freshBranches _ hvalue hlength, Nat.cast_one, one_mul, decide_eq_true rfl]

/-- Whatever is drawn, a member of the domain is proven, and the proof is accepted over the domain and
over every longer one. -/
theorem prove_accepted (digest : Digest) (key : PublicKey) (r : Exponent) {value : ℕ}
    {domain : Domain} (hvalue : value ∈ domain.values) (s : σ) :
    ∃ proof, (prove digest key (Pair.encrypt key value r) r value domain s).1 = .ok proof ∧
      proof.size = domain.size ∧ ∀ longer : Domain, domain.values <+: longer.values →
        proof.check digest key (Pair.encrypt key value r) longer = .ok true := by
  obtain ⟨proof, hproof, t, answers, hlength, hring, rfl⟩ := returns_prove digest hvalue s
  refine ⟨_, hproof, ?_, fun longer hlonger => ?_⟩
  · rw [size_closeProof, length_freshBranches _ hlength]
  · exact check_freshProof digest hvalue hlength hring hlonger

theorem prove_accepted_sixteen :
    let domain : Domain := ⟨[0, 5, 16], by decide, by decide⟩
    let longer : Domain := ⟨[0, 5, 16, 40], by decide, by decide⟩
    let r := Exponent.ofNat 7 PublicKey.small.q
    let proof : MembershipProof := ⟨23, 11, [2, 6, 18], [2, 2, 3], [1, 1, 1], [4, 5, 6]⟩
    16 ∈ domain.values ∧ domain.values <+: longer.values ∧
      (prove standardDigest .small (Pair.encrypt .small 16 r) r 16 domain
        (Tape.mk [3, 1, 4, 1, 5, 9, 2])).1 = .ok proof ∧
      proof.check standardDigest .small (Pair.encrypt .small 16 r) longer = .ok true := by
  intro domain longer r proof
  have hvalue : 16 ∈ domain.values := by decide
  have hlonger : domain.values <+: longer.values := by decide
  have hrun : (prove standardDigest .small (Pair.encrypt .small 16 r) r 16 domain
      (Tape.mk [3, 1, 4, 1, 5, 9, 2])).1 = .ok proof := by decide +kernel
  obtain ⟨_, hproof, _, hcheck⟩ :=
    prove_accepted standardDigest .small r hvalue (Tape.mk [3, 1, 4, 1, 5, 9, 2])
  cases hrun.symm.trans hproof
  exact ⟨hvalue, hlonger, hrun, hcheck longer hlonger⟩

end SecretTally

end
