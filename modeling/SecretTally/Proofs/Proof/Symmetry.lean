import Mathlib
import SecretTally.Proofs.Proof.Consumption
import SecretTally.Proofs.Proof.Hiding
import SecretTally.Proofs.Proof.Subgroup

/-! The two summands of a sum. What is formed from the answers to both pairs is the commitment of one
answer to their product. Neither summand comes first in what is formed, so they can change places
along with their draws, be the pairs and the proofs what they may. -/

noncomputable section
namespace SecretTally

open Source

variable {σ : Type} [Source σ] {key : PublicKey} {lhs rhs : Summand} {merged : Domain}
  {a b : Answer} {t : Exponent} {left right : List Answer}

/-- With the pads powers of the generator and the data anywhere in the subgroup, the quotients by the
cross terms are the commitment of the summed answers to the product of the pairs. A branch has them
unless its value is found to be the plaintext. -/
theorem sumCommitment_product (hlpad : lhs.pair.pad = key.g ^ lhs.randomness)
    (hrpad : rhs.pair.pad = key.g ^ rhs.randomness) (hlm : lhs.randomness.modulus = key.q)
    (hrm : rhs.randomness.modulus = key.q) (hldata : lhs.pair.data.modulus = key.p)
    (hrdata : rhs.pair.data.modulus = key.p) (hlsub : key.InSubgroup lhs.pair.data.value)
    (hrsub : key.InSubgroup rhs.pair.data.value) (ha : a.InRing key.q) (hb : b.InRing key.q) (d : ℕ) :
    let y := key.g ^ a.s * lhs.pair.pad ^ (-a.c) * (key.g ^ b.s * rhs.pair.pad ^ (-b.c))
      / key.g ^ (rhs.randomness * a.c + lhs.randomness * b.c)
    let z := key.h ^ a.s * (lhs.pair.data / key.encode d) ^ (-a.c)
        * (key.h ^ b.s * (rhs.pair.data / key.encode d) ^ (-b.c))
      / (rhs.pair.data ^ a.c * lhs.pair.data ^ b.c)
    (Answer.mk (a.s + b.s) (a.c + b.c)).commitment key (lhs.pair * rhs.pair) d = ⟨y, z⟩ ∧
      sumCommitment key lhs rhs d a b = ⟨y, z⟩ ∧
      ∀ blinding t, (sumBranch key lhs rhs blinding t d (a, b)).commitment =
        if isPlaintext key (lhs.pair * rhs.pair) blinding d then ⟨key.g ^ t, key.h ^ t⟩
        else ⟨y, z⟩ := by
  intro y z
  obtain ⟨data₁, hdata₁⟩ := hlsub.exists_point hldata
  obtain ⟨data₂, hdata₂⟩ := hrsub.exists_point hrdata
  have hl : lhs.pair = ⟨key.g ^ lhs.randomness, data₁.element⟩ := by rw [hdata₁, ← hlpad]
  have hr : rhs.pair = ⟨key.g ^ rhs.randomness, data₂.element⟩ := by rw [hdata₂, ← hrpad]
  have hformed : sumCommitment key lhs rhs d a b = ⟨y, z⟩ := rfl
  refine ⟨(sumCommitment_eq hl hr hlm hrm ha hb d).symm.trans hformed, hformed,
    fun blinding t => ?_⟩
  unfold sumBranch
  split
  · rfl
  · exact hformed

theorem sumCommitment_product_thirty :
    let q := PublicKey.small.q
    let p := PublicKey.small.p
    let lhs : Summand := ⟨⟨⟨p, 16, by decide⟩, ⟨p, 13, by decide⟩⟩, ⟨23, 11, [], [], [], []⟩,
      .ofNat 2 q, ⟨[0], by decide, by decide⟩⟩
    let rhs : Summand := ⟨⟨⟨p, 8, by decide⟩, ⟨p, 9, by decide⟩⟩, ⟨23, 11, [], [], [], []⟩,
      .ofNat 7 q, ⟨[1], by decide, by decide⟩⟩
    let a : Answer := ⟨.ofNat 3 q, .ofNat 5 q⟩
    let b : Answer := ⟨.ofNat 10 q, .ofNat 8 q⟩
    lhs.pair.pad = PublicKey.small.g ^ lhs.randomness ∧
      rhs.pair.pad = PublicKey.small.g ^ rhs.randomness ∧
      PublicKey.small.InSubgroup lhs.pair.data.value ∧
      PublicKey.small.InSubgroup rhs.pair.data.value ∧ a.InRing q ∧ b.InRing q ∧
      (Answer.mk (a.s + b.s) (a.c + b.c)).commitment .small (lhs.pair * rhs.pair) 30 =
        sumCommitment .small lhs rhs 30 a b := by
  intro q p lhs rhs a b
  have hlpad : lhs.pair.pad = PublicKey.small.g ^ lhs.randomness := by decide
  have hrpad : rhs.pair.pad = PublicKey.small.g ^ rhs.randomness := by decide
  have hlsub : PublicKey.small.InSubgroup lhs.pair.data.value := by decide
  have hrsub : PublicKey.small.InSubgroup rhs.pair.data.value := by decide
  have ha : a.InRing q := ⟨rfl, rfl⟩
  have hb : b.InRing q := ⟨rfl, rfl⟩
  obtain ⟨hproduct, hformed, -⟩ :=
    sumCommitment_product hlpad hrpad rfl rfl rfl rfl hlsub hrsub ha hb 30
  exact ⟨hlpad, hrpad, hlsub, hrsub, ha, hb, hproduct.trans hformed.symm⟩

theorem Summand.ownsPair_of_inGroup {summand : Summand} (h : summand.inGroup key = true) :
    key.ownsPair summand.pair = true := by
  rw [inGroup, Bool.and_eq_true] at h
  exact h.2

theorem Pair.mul_comm_of_owns {x y : Pair} (hx : key.ownsPair x = true)
    (hy : key.ownsPair y = true) : x * y = y * x := by
  obtain ⟨hxpad, hxdata⟩ := PublicKey.ownsPair_iff.mp hx
  obtain ⟨hypad, hydata⟩ := PublicKey.ownsPair_iff.mp hy
  change Pair.mk (x.pad * y.pad) (x.data * y.data) = Pair.mk (y.pad * x.pad) (y.data * x.data)
  rw [Element.mul_comm_of_modulus_eq (hxpad.trans hypad.symm),
    Element.mul_comm_of_modulus_eq (hxdata.trans hydata.symm)]

theorem zipWith_zip_swap {α β γ : Type} {P : β → Prop} {f g : α → β × β → γ} {items : List α}
    {left right : List β} (hleft : ∀ a ∈ left, P a) (hright : ∀ b ∈ right, P b)
    (h : ∀ x a b, P a → P b → f x (a, b) = g x (b, a)) :
    List.zipWith f items (left.zip right) = List.zipWith g items (right.zip left) := by
  induction items generalizing left right with
  | nil => rfl
  | cons x items ih =>
    cases left with
    | nil => simp
    | cons a left =>
      cases right with
      | nil => simp
      | cons b right =>
        rw [List.forall_mem_cons] at hleft hright
        rw [List.zip_cons_cons, List.zip_cons_cons, List.zipWith_cons_cons, List.zipWith_cons_cons,
          h x a b hleft.1 hright.1, ih hleft.2 hright.2]

section Swap
variable (hl : key.ownsPair lhs.pair = true) (hr : key.ownsPair rhs.pair = true)
  (hlm : lhs.randomness.modulus = key.q) (hrm : rhs.randomness.modulus = key.q)
include hl hr hlm hrm

theorem sumCommitment_swap (d : ℕ) (a b : Answer) :
    sumCommitment key lhs rhs d a b = sumCommitment key rhs lhs d b a := by
  have hdata : rhs.pair.data.modulus = lhs.pair.data.modulus :=
    (PublicKey.ownsPair_iff.mp hr).2.trans (PublicKey.ownsPair_iff.mp hl).2.symm
  have hy : (a.commitment key lhs.pair d).y * (b.commitment key rhs.pair d).y = _ :=
    Element.mul_comm_of_modulus_eq rfl
  have hz : (a.commitment key lhs.pair d).z * (b.commitment key rhs.pair d).z = _ :=
    Element.mul_comm_of_modulus_eq rfl
  have hcross : rhs.randomness * a.c + lhs.randomness * b.c = _ :=
    Exponent.add_comm_of_modulus_eq (hrm.trans hlm.symm)
  have hdivisor : rhs.pair.data ^ a.c * lhs.pair.data ^ b.c = _ :=
    Element.mul_comm_of_modulus_eq hdata
  simp only [sumCommitment, hy, hz, hcross, hdivisor]

theorem sumBranches_swap (hleft : ∀ a ∈ left, a.InRing key.q) (hright : ∀ a ∈ right, a.InRing key.q) :
    sumBranches key lhs rhs merged t left right = sumBranches key rhs lhs merged t right left := by
  rw [sumBranches, sumBranches, Exponent.add_comm_of_modulus_eq (hlm.trans hrm.symm)]
  refine zipWith_zip_swap hleft hright fun d a b ha hb => ?_
  rw [sumBranch, sumBranch, Pair.mul_comm_of_owns hl hr, sumCommitment_swap hl hr hlm hrm,
    Answer.add_comm_of_inRing ha hb]

theorem sumOutcome_swap (digest : Digest) (hleft : ∀ a ∈ left, a.InRing key.q)
    (hright : ∀ a ∈ right, a.InRing key.q) : sumOutcome digest key lhs rhs merged t left right =
      sumOutcome digest key rhs lhs merged t right left := by
  rw [sumOutcome, sumOutcome, sumBranches_swap hl hr hlm hrm hleft hright,
    Pair.mul_comm_of_owns hl hr, Exponent.add_comm_of_modulus_eq (hlm.trans hrm.symm)]

end Swap

theorem any_isOpen_iff_isPlaintext (hleft : left.length = merged.size)
    (hright : right.length = merged.size) :
    (sumBranches key lhs rhs merged t left right).any Branch.isOpen = true ↔
      ∃ d ∈ merged.values, isPlaintext key (lhs.pair * rhs.pair)
        (key.h ^ (lhs.randomness + rhs.randomness)) d = true := by
  have hlength : (left.zip right).length = merged.values.length := by
    rw [List.length_zip, hleft, hright, Nat.min_self, Domain.size]
  have hcount : (sumBranches key lhs rhs merged t left right).countP Branch.isOpen =
      merged.values.countP (isPlaintext key (lhs.pair * rhs.pair)
        (key.h ^ (lhs.randomness + rhs.randomness))) :=
    countP_zipWith hlength (isOpen_sumBranch _)
  rw [List.any_eq_true, ← List.countP_pos_iff, hcount, List.countP_pos_iff]

theorem sumOutcome_eq_error_iff (digest : Digest) (hleft : left.length = merged.size)
    (hright : right.length = merged.size) (e : SumFailure) :
    sumOutcome digest key lhs rhs merged t left right = .error e ↔
      (¬ ∃ d ∈ merged.values, isPlaintext key (lhs.pair * rhs.pair)
        (key.h ^ (lhs.randomness + rhs.randomness)) d = true) ∧
      e = .refused (.badSum .plaintextOutside) := by
  rw [← any_isOpen_iff_isPlaintext (t := t) hleft hright]
  unfold sumOutcome
  split
  · next hopen => exact ⟨nofun, fun h => absurd hopen h.1⟩
  · next hclosed =>
    rw [Except.error.injEq, eq_comm]
    exact ⟨fun he => ⟨hclosed, he⟩, And.right⟩

theorem Summand.filled_spec (key : PublicKey) {summand : Summand} (hstep : summand.proof.InStep)
    (hsize : summand.proof.size = summand.domain.size) (merged : Domain) (s : σ) :
    let filled := summand.filled key merged.values
      (answers key.q (merged.uncovered summand.domain) s)
    filled.length = merged.size ∧ ∀ a ∈ filled, a.InRing key.q :=
  yields_stretch summand merged s _
    (congrArg Prod.fst (stretch_eq (hstep.trans hsize) hsize merged s))

/-- The source yields these answers, one list after the other, and then the scalar. -/
structure Source.InTurn (q : Modulus) (first second : List Answer) (t : Exponent) (s : σ) : Prop where
  first_eq : answers q first.length s = first
  second_eq : answers q second.length (after q (2 * first.length) s) = second
  scalar_eq : exponent q (after q (2 * first.length + 2 * second.length) s) = t

theorem answers_tape {q : Modulus} {as : List Answer} (h : ∀ a ∈ as, a.InRing q) (rest : List ℕ) :
    answers q as.length (Tape.mk (as.flatMap Answer.drawn ++ rest)) = as ∧
      after q (2 * as.length) (Tape.mk (as.flatMap Answer.drawn ++ rest)) = ⟨rest⟩ := by
  have hrun := takes_answers (ε := Refusal) h rest
  rw [Answer.randomList_eq] at hrun
  exact ⟨Except.ok.inj (congrArg Prod.fst hrun), congrArg Prod.snd hrun⟩

theorem inTurn_tape {q : Modulus} {first second : List Answer} (hfirst : ∀ a ∈ first, a.InRing q)
    (hsecond : ∀ a ∈ second, a.InRing q) (ht : t.modulus = q) : InTurn q first second t
      (Tape.mk (first.flatMap Answer.drawn ++ (second.flatMap Answer.drawn ++ [t.value]))) := by
  obtain ⟨hanswers, hrest⟩ := answers_tape hfirst (second.flatMap Answer.drawn ++ [t.value])
  obtain ⟨hanswers', hrest'⟩ := answers_tape hsecond [t.value]
  refine ⟨hanswers, by rw [hrest, hanswers'], ?_⟩
  rw [after_add, hrest, hrest', ← ht]
  exact t.ofNat_value

section Runs
variable {digest : Digest} {s : σ} (hl : lhs.inGroup key = true) (hr : rhs.inGroup key = true)
  (hlstep : lhs.proof.InStep) (hrstep : rhs.proof.InStep)
include hl hr hlstep

theorem sumProof_fst_of_size_ne
    (hsizes : ¬ (lhs.proof.size = lhs.domain.size ∧ rhs.proof.size = rhs.domain.size)) :
    (sumProof digest key lhs rhs merged s).1 = .error (.refused (.badSum .proofLength)) := by
  by_cases hlsize : lhs.proof.size = lhs.domain.size
  · have hrsize : rhs.proof.size ≠ rhs.domain.size := fun hrsize => hsizes ⟨hlsize, hrsize⟩
    rw [sumProof_of_right_size_ne digest s hl hr hlstep hlsize hrsize]
  · rw [sumProof_of_left_size_ne digest s hl hr hlsize]

variable (hlsize : lhs.proof.size = lhs.domain.size) (hrsize : rhs.proof.size = rhs.domain.size)
include hrstep hlsize hrsize

theorem sumProof_eq_error_iff (merged : Domain) (e : SumFailure) :
    (sumProof digest key lhs rhs merged s).1 = .error e ↔
      (¬ ∃ d ∈ merged.values, isPlaintext key (lhs.pair * rhs.pair)
        (key.h ^ (lhs.randomness + rhs.randomness)) d = true) ∧
      e = .refused (.badSum .plaintextOutside) := by
  rw [sumProof_eq_sumOutcome digest s hl hr hlstep hlsize hrstep hrsize]
  exact sumOutcome_eq_error_iff digest (Summand.filled_spec key hlstep hlsize merged _).1
    (Summand.filled_spec key hrstep hrsize merged _).1 e

theorem sumProof_fst_of_inTurn (hleft : left.length = merged.uncovered lhs.domain)
    (hright : right.length = merged.uncovered rhs.domain) (h : InTurn key.q left right t s) :
    (sumProof digest key lhs rhs merged s).1 = sumOutcome digest key lhs rhs merged t
      (lhs.filled key merged.values left) (rhs.filled key merged.values right) := by
  obtain ⟨hfirst, hsecond, hscalar⟩ := h
  rw [hleft] at hfirst hsecond hscalar
  rw [hright] at hsecond hscalar
  rw [sumProof_eq_sumOutcome digest s hl hr hlstep hlsize hrstep hrsize, hfirst, hsecond, hscalar]

end Runs

/-- With the summands in the other order a sum fails the same way, whatever is drawn. If the draws for
the two summands also change places, it ends in the same pair and the same proof. -/
theorem sumProof_swap {σ' : Type} [Source σ'] (digest : Digest)
    (hlm : lhs.randomness.modulus = key.q) (hrm : rhs.randomness.modulus = key.q)
    (hlstep : lhs.proof.InStep) (hrstep : rhs.proof.InStep) (merged : Domain) (s : σ) (s' : σ') :
    (∀ e, (sumProof digest key lhs rhs merged s).1 = .error e ↔
      (sumProof digest key rhs lhs merged s').1 = .error e) ∧
    ∀ left right t, left.length = merged.uncovered lhs.domain →
      right.length = merged.uncovered rhs.domain → InTurn key.q left right t s →
      InTurn key.q right left t s' →
      (sumProof digest key lhs rhs merged s).1 = (sumProof digest key rhs lhs merged s').1 := by
  by_cases hgroup : lhs.inGroup key = true ∧ rhs.inGroup key = true
  · obtain ⟨hl, hr⟩ := hgroup
    have hlpair := Summand.ownsPair_of_inGroup hl
    have hrpair := Summand.ownsPair_of_inGroup hr
    by_cases hsizes : lhs.proof.size = lhs.domain.size ∧ rhs.proof.size = rhs.domain.size
    · obtain ⟨hlsize, hrsize⟩ := hsizes
      constructor
      · intro e
        rw [sumProof_eq_error_iff hl hr hlstep hrstep hlsize hrsize,
          sumProof_eq_error_iff hr hl hrstep hlstep hrsize hlsize,
          Pair.mul_comm_of_owns hlpair hrpair,
          Exponent.add_comm_of_modulus_eq (hlm.trans hrm.symm)]
      · intro left right t hleft hright hs hs'
        rw [sumProof_fst_of_inTurn hl hr hlstep hrstep hlsize hrsize hleft hright hs,
          sumProof_fst_of_inTurn hr hl hrstep hlstep hrsize hlsize hright hleft hs']
        refine sumOutcome_swap hlpair hrpair hlm hrm digest ?_ ?_
        · have hspec := Summand.filled_spec key hlstep hlsize merged s
          rw [← hleft, hs.first_eq] at hspec
          exact hspec.2
        · have hspec := Summand.filled_spec key hrstep hrsize merged s'
          rw [← hright, hs'.first_eq] at hspec
          exact hspec.2
    · have hsizes' := fun h => hsizes (And.symm h)
      rw [sumProof_fst_of_size_ne hl hr hlstep hsizes,
        sumProof_fst_of_size_ne hr hl hrstep hsizes']
      exact ⟨fun _ => Iff.rfl, fun _ _ _ _ _ _ _ => rfl⟩
  · have hgroup' := fun h => hgroup (And.symm h)
    rw [sumProof_of_foreign digest hgroup, sumProof_of_foreign digest hgroup']
    exact ⟨fun _ => Iff.rfl, fun _ _ _ _ _ _ _ => rfl⟩

theorem sumProof_swap_twelve :
    let q := PublicKey.small.q
    let p := PublicKey.small.p
    let lhs : Summand := ⟨⟨⟨p, 5, by decide⟩, ⟨p, 10, by decide⟩⟩, ⟨23, 11, [], [9], [15, 40], [7, 30]⟩,
      .ofNat 4 q, ⟨[3, 8], by decide, by decide⟩⟩
    let rhs : Summand := ⟨⟨⟨p, 1, by decide⟩, ⟨p, 22, by decide⟩⟩,
      ⟨23, 11, [], [], [2, 3, 4], [100, 5, 6]⟩, .ofNat 9 q, ⟨[8, 12, 40], by decide, by decide⟩⟩
    let merged : Domain := ⟨[3, 8, 12, 19], by decide, by decide⟩
    let left : List Answer := [⟨.ofNat 3 q, .ofNat 1 q⟩, ⟨.ofNat 4 q, .ofNat 1 q⟩]
    let right : List Answer := [⟨.ofNat 5 q, .ofNat 9 q⟩, ⟨.ofNat 2 q, .ofNat 6 q⟩]
    let s := Tape.mk [3, 1, 4, 1, 5, 9, 2, 6, 7]
    let s' := Tape.mk [5, 9, 2, 6, 3, 1, 4, 1, 7]
    ¬ PublicKey.small.InSubgroup lhs.pair.data.value ∧
      ¬ PublicKey.small.InSubgroup rhs.pair.data.value ∧
      lhs.proof.InStep ∧ rhs.proof.InStep ∧ left.length = merged.uncovered lhs.domain ∧
      right.length = merged.uncovered rhs.domain ∧ InTurn q left right (.ofNat 7 q) s ∧
      InTurn q right left (.ofNat 7 q) s' ∧
      (sumProof standardDigest .small lhs rhs merged s).1.isOk = true ∧
      (sumProof standardDigest .small lhs rhs merged s).1 =
        (sumProof standardDigest .small rhs lhs merged s').1 := by
  intro q p lhs rhs merged left right s s'
  have hl : ¬ PublicKey.small.InSubgroup lhs.pair.data.value := by decide
  have hr : ¬ PublicKey.small.InSubgroup rhs.pair.data.value := by decide
  have hleft : left.length = merged.uncovered lhs.domain := by decide
  have hright : right.length = merged.uncovered rhs.domain := by decide
  have hleftRing : ∀ a ∈ left, a.InRing q := by
    simpa [left] using ⟨⟨rfl, rfl⟩, ⟨rfl, rfl⟩⟩
  have hrightRing : ∀ a ∈ right, a.InRing q := by
    simpa [right] using ⟨⟨rfl, rfl⟩, ⟨rfl, rfl⟩⟩
  have hs : InTurn q left right (.ofNat 7 q) s := inTurn_tape hleftRing hrightRing rfl
  have hs' : InTurn q right left (.ofNat 7 q) s' := inTurn_tape hrightRing hleftRing rfl
  have hrun : (sumProof standardDigest .small lhs rhs merged s).1.isOk = true := by decide +kernel
  have hlm : lhs.randomness.modulus = q := rfl
  have hrm : rhs.randomness.modulus = q := rfl
  have hlstep : lhs.proof.InStep := rfl
  have hrstep : rhs.proof.InStep := rfl
  have hswap := sumProof_swap standardDigest hlm hrm hlstep hrstep merged s s'
  exact ⟨hl, hr, hlstep, hrstep, hleft, hright, hs, hs', hrun,
    hswap.2 left right (.ofNat 7 q) hleft hright hs hs'⟩

end SecretTally

end
