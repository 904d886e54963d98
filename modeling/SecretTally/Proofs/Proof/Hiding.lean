import Mathlib
import SecretTally.Proofs.Proof.Fresh
import SecretTally.Proofs.Random.Tape

/-! What a fresh proof tells about the value. The answer drawn at the true value is not used; all other
draws correspond one to one to the accepted proofs, whichever value is the true one. So a proof says
no more than that the pair encrypts one of the values. -/

noncomputable section
namespace SecretTally
open Randomized

variable {key : PublicKey} {domain : Domain} {value : ℕ} {t : Exponent}
  {answers answers' : List Answer}

def Answer.drawn (a : Answer) : List ℕ := [a.s.value, a.c.value]

theorem takes_answer {ε : Type} {q : Modulus} {a : Answer} (ha : a.InRing q) :
    Takes (Answer.random q : Randomized Tape ε Answer) a.drawn a :=
  (takes_random ha.modulus_s).bind ((takes_random ha.modulus_c).bind (takes_pure a))

theorem takes_answers {ε : Type} {q : Modulus} (h : ∀ a ∈ answers, a.InRing q) :
    Takes (Answer.randomList q answers.length : Randomized Tape ε (List Answer))
      (answers.flatMap Answer.drawn) answers := by
  induction answers with
  | nil => exact takes_pure []
  | cons a answers ih =>
    rw [List.forall_mem_cons] at h
    rw [List.flatMap_cons]
    exact (takes_answer h.1).bind ((ih h.2).bind_pure (List.cons a))

structure FreshDraws (key : PublicKey) (domain : Domain) where
  t : Exponent
  answers : List Answer
  modulus_t : t.modulus = key.q
  length_answers : answers.length = domain.size
  inRing : ∀ a ∈ answers, a.InRing key.q

def acceptedProofs (digest : Digest) (key : PublicKey) (pair : Pair) (domain : Domain) :
    Set MembershipProof :=
  {proof | proof.size = domain.size ∧ proof.check digest key pair domain = .ok true}

theorem freshProof_mem_acceptedProofs (digest : Digest) {r : Exponent}
    (hvalue : value ∈ domain.values) (hlength : answers.length = domain.size)
    (hring : ∀ a ∈ answers, a.InRing key.q) :
    closeProof digest key (Pair.encrypt key value r) t r
      (freshBranches key (Pair.encrypt key value r) value domain t answers) ∈
        acceptedProofs digest key (Pair.encrypt key value r) domain := by
  refine ⟨?_, check_freshProof digest hvalue hlength hring List.prefix_rfl⟩
  rw [size_closeProof, length_freshBranches _ hlength]

namespace FreshDraws
variable (digest : Digest) (r : Exponent) (draws : FreshDraws key domain)

def tape : Tape := ⟨draws.t.value :: draws.answers.flatMap Answer.drawn⟩

def branches (pair : Pair) (value : ℕ) : List Branch :=
  freshBranches key pair value domain draws.t draws.answers

def proof (value : ℕ) : MembershipProof :=
  closeProof digest key (Pair.encrypt key value r) draws.t r
    (draws.branches (Pair.encrypt key value r) value)

theorem prove_tape (hvalue : value ∈ domain.values) :
    (prove digest key (Pair.encrypt key value r) r value domain draws.tape).1 =
      .ok (draws.proof digest r value) := by
  have htakes : Takes (prove digest key (Pair.encrypt key value r) r value domain)
      draws.tape.pending (draws.proof digest r value) := by
    rw [prove, PublicKey.ownsPair_encrypt, Domain.contains_iff.mpr hvalue, ← draws.length_answers]
    exact (takes_random draws.modulus_t).bind ((takes_answers draws.inRing).bind_pure _)
  have hrun := htakes []
  rw [List.append_nil] at hrun
  exact congrArg Prod.fst hrun

theorem proof_mem_acceptedProofs (hvalue : value ∈ domain.values) :
    draws.proof digest r value ∈ acceptedProofs digest key (Pair.encrypt key value r) domain :=
  freshProof_mem_acceptedProofs digest hvalue draws.length_answers draws.inRing

end FreshDraws

theorem freshBranches_congr (pair : Pair) (hlength : answers.length = answers'.length)
    (h : ∀ i d : ℕ, domain.values[i]? = some d → d ≠ value → answers[i]? = answers'[i]?) :
    freshBranches key pair value domain t answers =
      freshBranches key pair value domain t answers' := by
  refine List.ext_getElem? fun i => ?_
  rw [freshBranches, freshBranches, List.getElem?_zipWith, List.getElem?_zipWith]
  cases hd : domain.values[i]? with
  | none => rfl
  | some d =>
    by_cases hvalue : d = value
    · subst hvalue
      by_cases hi : i < answers.length
      · rw [List.getElem?_eq_getElem hi, List.getElem?_eq_getElem (hlength ▸ hi)]
        simp [freshBranch]
      · rw [List.getElem?_eq_none (Nat.le_of_not_lt hi),
          List.getElem?_eq_none (Nat.le_of_not_lt (hlength ▸ hi))]
    · rw [h i d hd hvalue]

namespace FreshDraws
variable (digest : Digest) (r : Exponent) (draws : FreshDraws key domain)

theorem branches_fits : List.Forall₂ (Branch.Fits key value r draws.t) domain.values
    (draws.branches (Pair.encrypt key value r) value) :=
  freshBranches_fits draws.length_answers draws.inRing

theorem getElem?_branches (pair : Pair) {i d : ℕ} (hd : domain.values[i]? = some d) :
    (draws.branches pair value)[i]? =
      draws.answers[i]?.map (freshBranch key pair value draws.t d) := by
  rw [branches, freshBranches, List.getElem?_zipWith, hd]
  cases draws.answers[i]? <;> rfl

theorem answers_proof_of_ne {i d : ℕ} (hd : domain.values[i]? = some d) (hne : d ≠ value) :
    ((draws.proof digest r value).answers key)[i]? = draws.answers[i]? := by
  rw [proof, closeProof_answers (inGroup_of_fits (branches_fits r draws)), List.getElem?_map,
    getElem?_branches draws _ hd]
  cases draws.answers[i]? with
  | none => rfl
  | some a => simp [freshBranch, hne, Branch.closed, Branch.simulated]

theorem answers_proof_of_eq {i : ℕ} (hd : domain.values[i]? = some value) :
    ∃ share, share.modulus = key.q ∧ ((draws.proof digest r value).answers key)[i]? =
      some (closingAnswer draws.t r share) := by
  have hi : i < draws.answers.length :=
    draws.length_answers ▸ (List.getElem?_eq_some_iff.mp hd).1
  rw [proof, closeProof_answers (inGroup_of_fits (branches_fits r draws)), List.getElem?_map,
    getElem?_branches draws _ hd, List.getElem?_eq_getElem hi]
  refine ⟨closingShare digest key (Pair.encrypt key value r)
    (draws.branches (Pair.encrypt key value r) value), modulus_closingShare _, ?_⟩
  simp [freshBranch, Branch.closed, Branch.committed]

variable {draws}

theorem proof_eq_iff {draws' : FreshDraws key domain} (hvalue : value ∈ domain.values) :
    draws.proof digest r value = draws'.proof digest r value ↔
      draws.t = draws'.t ∧ ∀ i d : ℕ, domain.values[i]? = some d → d ≠ value →
        draws.answers[i]? = draws'.answers[i]? := by
  constructor
  · intro h
    refine ⟨?_, fun i d hd hne => ?_⟩
    · obtain ⟨i, hd⟩ := List.mem_iff_getElem?.mp hvalue
      obtain ⟨share, hshare, hanswer⟩ := draws.answers_proof_of_eq digest r hd
      obtain ⟨share', -, hanswer'⟩ := draws'.answers_proof_of_eq digest r hd
      rw [h, hanswer'] at hanswer
      exact closingAnswer_scalar_inj draws.modulus_t draws'.modulus_t hshare
        (Option.some.inj hanswer).symm
    · rw [← draws.answers_proof_of_ne digest r hd hne, h,
        draws'.answers_proof_of_ne digest r hd hne]
  · rintro ⟨ht, h⟩
    have hlength := draws.length_answers.trans draws'.length_answers.symm
    rw [proof, branches, freshBranches_congr _ hlength h, ht]
    rfl

theorem proof_eq_iff_ne {draws' : FreshDraws key domain} {x : ℕ}
    (hx : domain.values[x]? = some value) :
    draws.proof digest r value = draws'.proof digest r value ↔
      draws.t = draws'.t ∧ ∀ i ≠ x, draws.answers[i]? = draws'.answers[i]? := by
  have hlt : x < domain.values.length := (List.getElem?_eq_some_iff.mp hx).1
  rw [proof_eq_iff digest r (List.mem_of_getElem? hx)]
  refine and_congr_right fun _ => ⟨fun h i hix => ?_, fun h i d hd hne => h i ?_⟩
  · cases hd : domain.values[i]? with
    | none =>
      have hi : domain.size ≤ i := List.getElem?_eq_none_iff.mp hd
      rw [List.getElem?_eq_none (draws.length_answers ▸ hi),
        List.getElem?_eq_none (draws'.length_answers ▸ hi)]
    | some d =>
      refine h i d hd fun hvalue => hix ?_
      rw [hvalue, ← hx] at hd
      exact ((List.getElem?_inj hlt domain.nodup).mp hd.symm).symm
  · rintro rfl
    exact hne (Option.some.inj (hd.symm.trans hx))

end FreshDraws

section Range
variable {digest : Digest} {r : Exponent} {pair : Pair} {closing : Answer} {proof : MembershipProof}

theorem map_commitment_freshBranches
    (hclosing : closing.commitment key pair value = ⟨key.g ^ t, key.h ^ t⟩)
    (honly : List.Forall₂ (fun d a => d = value → a = closing) domain.values answers) :
    (freshBranches key pair value domain t answers).map Branch.commitment =
      List.zipWith (fun d a => a.commitment key pair d) domain.values answers := by
  rw [freshBranches, List.map_zipWith]
  refine List.zipWith_congr _ _ _ _ (honly.imp fun d a ha => ?_)
  unfold freshBranch
  split
  · next hd =>
    rw [ha hd, hd, hclosing]
    rfl
  · rfl

theorem map_closed_freshBranches
    (honly : List.Forall₂ (fun d a => d = value → a = closing) domain.values answers) :
    (freshBranches key pair value domain t answers).map (Branch.closed closing) = answers := by
  have hanswers : List.zipWith (fun _ a => a) domain.values answers = answers :=
    List.map_uncurry_zip_eq_zipWith.symm.trans (List.map_snd_zip honly.length_eq.ge)
  rw [freshBranches, List.map_zipWith]
  refine (List.zipWith_congr _ _ _ _ (honly.imp fun d a ha => ?_)).trans hanswers
  unfold freshBranch
  split
  · next hd => exact (ha hd).symm
  · rfl

theorem exists_answer_at (hvalue : value ∈ domain.values)
    (hlength : answers.length = domain.size) : ∃ closing ∈ answers,
      List.Forall₂ (fun d a => d = value → a = closing) domain.values answers := by
  obtain ⟨x, hx, hxvalue⟩ := List.mem_iff_getElem.mp hvalue
  have hx' : x < answers.length := hlength ▸ hx
  refine ⟨answers[x], List.getElem_mem hx', ?_⟩
  refine List.forall₂_iff_get.mpr ⟨hlength.symm, fun i hi hi' hd => ?_⟩
  have hsame : i = x := domain.nodup.getElem_inj_iff.mp (hd.trans hxvalue.symm)
  subst hsame
  rfl

/-- Whichever value is the true one, an accepted proof has draws that lead to it: its own answers,
and the scalar that its answer at the true value determines. -/
theorem exists_draws_of_accepted (hvalue : value ∈ domain.values)
    (hproof : proof ∈ acceptedProofs digest key (Pair.encrypt key value r) domain) :
    ∃ draws : FreshDraws key domain, draws.answers = proof.answers key ∧
      draws.proof digest r value = proof := by
  obtain ⟨hsize, hcheck⟩ := hproof
  obtain ⟨hmatch, -, hholds⟩ := MembershipProof.check_eq_ok_true_iff.mp hcheck
  have hlength : (proof.answers key).length = domain.size :=
    hholds.shape.length_answers.trans hsize
  obtain ⟨closing, hmem, honly⟩ := exists_answer_at hvalue hlength
  have hclosing : closing.InRing key.q := proof.inRing_answers hmem
  have hscalar : (closing.s - closing.c * r).modulus = key.q := hclosing.modulus_s
  let draws : FreshDraws key domain := ⟨closing.s - closing.c * r, proof.answers key, hscalar,
    hlength, fun _ => proof.inRing_answers⟩
  have hopening : closingAnswer draws.t r closing.c = closing := closingAnswer_eq hclosing r
  have hfits : closing.commitment key (Pair.encrypt key value r) value =
      ⟨key.g ^ draws.t, key.h ^ draws.t⟩ := by
    rw [← closingAnswer_commitment hclosing.modulus_c rfl, hopening]
  have hcommitments : (draws.branches (Pair.encrypt key value r) value).map Branch.commitment =
      proof.commitments key (Pair.encrypt key value r) domain :=
    map_commitment_freshBranches hfits honly
  have hclosed : (draws.branches (Pair.encrypt key value r) value).map (Branch.closed closing) =
      proof.answers key := map_closed_freshBranches honly
  have hone : (draws.branches (Pair.encrypt key value r) value).countP Branch.isOpen = 1 :=
    countP_freshBranches _ hvalue hlength
  have hshare := closingShare_eq_of_holds hholds hcommitments hclosing hclosed hone
  refine ⟨draws, rfl, closeProof_eq_of_holds hholds hcommitments hmatch ?_⟩
  rw [hshare, hopening, hclosed]

end Range

theorem card_inRing (q : Modulus) : Nat.card {a : Answer // a.InRing q} = q.value ^ 2 := by
  let values : {a : Answer // a.InRing q} ≃ Fin q.value × Fin q.value :=
    { toFun := fun a => (⟨a.1.s.value, a.2.s_lt⟩, ⟨a.1.c.value, a.2.c_lt⟩)
      invFun := fun v => ⟨⟨⟨q, v.1, v.1.isLt⟩, ⟨q, v.2, v.2.isLt⟩⟩, rfl, rfl⟩
      left_inv := by
        rintro ⟨⟨⟨qs, s, hs⟩, ⟨qc, c, hc⟩⟩, ⟨rfl, hq⟩⟩
        cases hq
        rfl
      right_inv := fun _ => rfl }
  rw [Nat.card_congr values, Nat.card_prod, Nat.card_fin, sq]

namespace FreshDraws

theorem ext {draws draws' : FreshDraws key domain} (ht : draws.t = draws'.t)
    (hanswers : draws.answers = draws'.answers) : draws = draws' := by
  cases draws
  cases draws'
  cases ht
  cases hanswers
  rfl

def withAnswer (draws : FreshDraws key domain) (x : ℕ) (a : Answer) (ha : a.InRing key.q) :
    FreshDraws key domain where
  t := draws.t
  answers := draws.answers.set x a
  modulus_t := draws.modulus_t
  length_answers := by rw [List.length_set, draws.length_answers]
  inRing b hb := (List.mem_or_eq_of_mem_set hb).elim (draws.inRing b) fun h => h ▸ ha

variable {x : ℕ} (hx : domain.values[x]? = some value)
include hx

theorem proof_withAnswer (digest : Digest) (r : Exponent) (draws : FreshDraws key domain)
    {a : Answer} (ha : a.InRing key.q) :
    (draws.withAnswer x a ha).proof digest r value = draws.proof digest r value :=
  (proof_eq_iff_ne digest r hx).mpr ⟨rfl, fun _ hix => List.getElem?_set_ne hix.symm⟩

theorem card_same_proof (digest : Digest) (r : Exponent) (draws : FreshDraws key domain) :
    Nat.card {other : FreshDraws key domain //
      other.proof digest r value = draws.proof digest r value} = key.q.value ^ 2 := by
  have hlt : x < domain.size := (List.getElem?_eq_some_iff.mp hx).1
  have hlength : ∀ other : FreshDraws key domain, x < other.answers.length :=
    fun other => other.length_answers ▸ hlt
  have hbijective : Function.Bijective fun a : {a : Answer // a.InRing key.q} =>
      (⟨draws.withAnswer x a.1 a.2, proof_withAnswer hx digest r draws a.2⟩ :
        {other : FreshDraws key domain //
          other.proof digest r value = draws.proof digest r value}) := by
    constructor
    · intro a b hab
      have hlists : draws.answers.set x a.1 = draws.answers.set x b.1 :=
        congrArg (fun other => other.1.answers) hab
      have hat := congrArg (fun answers => answers[x]?) hlists
      simp only [List.getElem?_set_self (hlength draws), Option.some.injEq] at hat
      exact Subtype.ext hat
    · rintro ⟨other, hother⟩
      obtain ⟨ht, hanswers⟩ := (proof_eq_iff_ne digest r hx).mp hother
      refine ⟨⟨other.answers.get ⟨x, hlength other⟩, other.inRing _ (List.get_mem _ _)⟩, ?_⟩
      refine Subtype.ext (ext ht.symm (List.ext_getElem? fun i => ?_))
      change (draws.answers.set x _)[i]? = other.answers[i]?
      rcases eq_or_ne x i with rfl | hix
      · rw [List.getElem?_set_self (hlength draws), List.getElem?_eq_getElem (hlength other)]
        rfl
      · rw [List.getElem?_set_ne hix, hanswers i hix.symm]
  rw [← Nat.card_eq_of_bijective _ hbijective, card_inRing]

end FreshDraws

/-- The number of draws with which the prover who knows the opening `value`, `r` ends in a proof. -/
def multiplicity (digest : Digest) (key : PublicKey) (domain : Domain) (value : ℕ) (r : Exponent)
    (proof : MembershipProof) : ℕ :=
  Nat.card {draws : FreshDraws key domain //
    (prove digest key (Pair.encrypt key value r) r value domain draws.tape).1 = .ok proof}

section Multiplicity
variable {digest : Digest} {r : Exponent} {proof : MembershipProof} (hvalue : value ∈ domain.values)
include hvalue

theorem multiplicity_of_mem
    (hproof : proof ∈ acceptedProofs digest key (Pair.encrypt key value r) domain) :
    multiplicity digest key domain value r proof = key.q.value ^ 2 := by
  obtain ⟨x, hx⟩ := List.mem_iff_getElem?.mp hvalue
  obtain ⟨draws, -, rfl⟩ := exists_draws_of_accepted hvalue hproof
  rw [← FreshDraws.card_same_proof hx digest r draws, multiplicity]
  simp only [FreshDraws.prove_tape digest r _ hvalue, Except.ok.injEq]

theorem multiplicity_of_notMem
    (hproof : proof ∉ acceptedProofs digest key (Pair.encrypt key value r) domain) :
    multiplicity digest key domain value r proof = 0 := by
  have hempty : IsEmpty {draws : FreshDraws key domain //
      (prove digest key (Pair.encrypt key value r) r value domain draws.tape).1 = .ok proof} := by
    refine ⟨fun ⟨draws, hdraws⟩ => hproof ?_⟩
    rw [draws.prove_tape digest r hvalue, Except.ok.injEq] at hdraws
    exact hdraws ▸ draws.proof_mem_acceptedProofs digest r hvalue
  rw [multiplicity, Nat.card_of_isEmpty]

end Multiplicity

/-- Fresh proofs are all the accepted ones, and equally many draws lead to each of them from every
opening of the pair. -/
theorem prove_witnessIndistinguishable (digest : Digest) (key : PublicKey) (domain : Domain)
    (r : Exponent) {x value : ℕ} (hx : domain.values[x]? = some value) :
    let pair := Pair.encrypt key value r
    let run := fun draws : FreshDraws key domain =>
      (prove digest key pair r value domain draws.tape).1
    (∀ draws draws', run draws = run draws' ↔
      draws.t = draws'.t ∧ ∀ i ≠ x, draws.answers[i]? = draws'.answers[i]?) ∧
    Set.range run = Except.ok '' acceptedProofs digest key pair domain ∧
    ∀ value' r', value' ∈ domain.values → Pair.encrypt key value' r' = pair → ∀ proof,
      multiplicity digest key domain value' r' proof =
        multiplicity digest key domain value r proof := by
  intro pair run
  have hvalue := List.mem_of_getElem? hx
  have hrun : ∀ draws, run draws = .ok (draws.proof digest r value) :=
    fun draws => draws.prove_tape digest r hvalue
  refine ⟨fun draws draws' => ?_, ?_, fun value' r' hvalue' hpair proof => ?_⟩
  · rw [hrun, hrun, Except.ok.injEq, FreshDraws.proof_eq_iff_ne digest r hx]
  · refine Set.Subset.antisymm ?_ ?_
    · rintro _ ⟨draws, rfl⟩
      exact ⟨_, draws.proof_mem_acceptedProofs digest r hvalue, (hrun draws).symm⟩
    · rintro _ ⟨proof, hproof, rfl⟩
      obtain ⟨draws, -, rfl⟩ := exists_draws_of_accepted hvalue hproof
      exact ⟨draws, hrun draws⟩
  · by_cases hproof : proof ∈ acceptedProofs digest key pair domain
    · rw [multiplicity_of_mem hvalue hproof, multiplicity_of_mem hvalue' (hpair ▸ hproof)]
    · rw [multiplicity_of_notMem hvalue hproof, multiplicity_of_notMem hvalue' (hpair ▸ hproof)]

theorem prove_witnessIndistinguishable_five :
    let key := PublicKey.small
    let domain : Domain := ⟨[0, 5, 16], by decide, by decide⟩
    let r := Exponent.ofNat 7 key.q
    let proof : MembershipProof := ⟨23, 11, [2, 6, 18], [2, 2, 3], [1, 1, 1], [4, 5, 6]⟩
    domain.values[1]? = some 5 ∧ 16 ∈ domain.values ∧
      Pair.encrypt key 16 r = Pair.encrypt key 5 r ∧
      (∃ draws : FreshDraws key domain, (prove standardDigest key (Pair.encrypt key 5 r) r 5 domain
        draws.tape).1 = .ok proof) ∧
      multiplicity standardDigest key domain 16 r proof =
        multiplicity standardDigest key domain 5 r proof := by
  intro key domain r proof
  have hx : domain.values[1]? = some 5 := rfl
  have hmem : 16 ∈ domain.values := by decide
  have hpair : Pair.encrypt key 16 r = Pair.encrypt key 5 r := by decide
  have hproof : proof ∈ acceptedProofs standardDigest key (Pair.encrypt key 5 r) domain :=
    ⟨rfl, by decide +kernel⟩
  obtain ⟨-, hrange, hcount⟩ := prove_witnessIndistinguishable standardDigest key domain r hx
  obtain ⟨draws, hdraws⟩ := hrange.ge ⟨proof, hproof, rfl⟩
  exact ⟨hx, hmem, hpair, ⟨draws, hdraws⟩, hcount 16 r hmem hpair proof⟩

end SecretTally

end
