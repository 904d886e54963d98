import Mathlib
import SecretTally.Proofs.Proof.Hiding
import SecretTally.Proofs.Proof.Sum

/-! What a sum keeps of its summands. A stretched proof has its own answer at every value of its
domain, and elsewhere it may have any. So the proof of a sum is one that a fresh prover of the product
pair makes, from answers of which some are fixed beforehand. -/

noncomputable section
namespace SecretTally
open Randomized

variable {σ : Type} [Source σ] {key : PublicKey} {lhs rhs summand : Summand} {merged : Domain}
  {m m₁ m₂ d : ℕ} {a b sum : Answer} {t : Exponent}

namespace Summand

def answer? (key : PublicKey) (summand : Summand) (d : ℕ) : Option Answer :=
  (summand.domain.position? d).bind fun i => (summand.proof.answers key)[i]?

theorem inRing_of_answer? (h : summand.answer? key d = some a) : a.InRing key.q := by
  obtain ⟨i, -, hi⟩ := Option.bind_eq_some_iff.mp h
  exact summand.proof.inRing_answers (List.mem_of_getElem? hi)

structure MayAnswer (key : PublicKey) (summand : Summand) (d : ℕ) (a : Answer) : Prop where
  inRing : a.InRing key.q
  kept : ∀ own, summand.answer? key d = some own → a = own

theorem mayAnswer_of_none (h : summand.answer? key d = none) (ha : a.InRing key.q) :
    summand.MayAnswer key d a :=
  ⟨ha, fun _ hown => absurd (h.symm.trans hown) (by simp)⟩

theorem mayAnswer_of_some (h : summand.answer? key d = some a) : summand.MayAnswer key d a :=
  ⟨inRing_of_answer? h, fun _ hown => Option.some.inj (h.symm.trans hown)⟩

theorem exists_mayAnswer (key : PublicKey) (summand : Summand) (d : ℕ) :
    ∃ a, summand.MayAnswer key d a := by
  cases h : summand.answer? key d with
  | none => exact ⟨⟨.zero key.q, .zero key.q⟩, mayAnswer_of_none h ⟨rfl, rfl⟩⟩
  | some own => exact ⟨own, mayAnswer_of_some h⟩

theorem exists_mayAnswer_add (key : PublicKey) (lhs rhs : Summand) (d : ℕ) (hsum : sum.InRing key.q)
    (h : ∀ a b, lhs.answer? key d = some a → rhs.answer? key d = some b → sum = a + b) :
    ∃ a b, lhs.MayAnswer key d a ∧ rhs.MayAnswer key d b ∧ a + b = sum := by
  cases hleft : lhs.answer? key d with
  | none =>
    obtain ⟨b, hb⟩ := rhs.exists_mayAnswer key d
    obtain ⟨a, ha, hadd⟩ := Answer.exists_add_eq hb.inRing hsum
    refine ⟨a, b, mayAnswer_of_none hleft ha, hb, ?_⟩
    rw [Answer.add_comm_of_inRing ha hb.inRing, hadd]
  | some a =>
    have ha := mayAnswer_of_some hleft
    cases hright : rhs.answer? key d with
    | none =>
      obtain ⟨b, hb, hadd⟩ := Answer.exists_add_eq ha.inRing hsum
      exact ⟨a, b, ha, mayAnswer_of_none hright hb, hadd⟩
    | some b => exact ⟨a, b, ha, mayAnswer_of_some hright, (h a b hleft hright).symm⟩

def drawnAt (key : PublicKey) (summand : Summand) (d : ℕ) (a : Answer) : List ℕ :=
  if (summand.answer? key d).isSome then [] else a.drawn

section Lockstep
variable (hs : summand.proof.s.length = summand.domain.size)
  (hc : summand.proof.c.length = summand.domain.size)
include hs hc

theorem length_own : (summand.proof.answers key).length = summand.domain.size := by
  rw [MembershipProof.answers, List.length_zipWith, hs, hc, Nat.min_self]

theorem exists_answer?_iff : (∃ a, summand.answer? key d = some a) ↔ d ∈ summand.domain.values := by
  rw [← Domain.contains_iff, Domain.contains, Option.isSome_iff_exists]
  constructor
  · rintro ⟨a, ha⟩
    obtain ⟨i, hi, -⟩ := Option.bind_eq_some_iff.mp ha
    exact ⟨i, hi⟩
  · rintro ⟨i, hi⟩
    have hlt : i < (summand.proof.answers key).length := by
      rw [length_own hs hc]
      exact Domain.position?_lt hi
    exact ⟨_, Option.bind_eq_some_iff.mpr ⟨i, hi, List.getElem?_eq_getElem hlt⟩⟩

theorem answerAt_eq_answer? (d : ℕ) :
    (summand.answerAt key d : Randomized σ SumFailure Answer) =
      match summand.answer? key d with
      | none => Answer.random key.q
      | some own => pure own := by
  unfold Summand.answerAt Summand.answer?
  cases hd : summand.domain.position? d with
  | none => rfl
  | some i =>
    have hi := Domain.position?_lt hd
    simp [MembershipProof.answers, List.getElem?_zipWith,
      List.getElem?_eq_getElem (hs ▸ hi), List.getElem?_eq_getElem (hc ▸ hi)]

end Lockstep

namespace Encrypts
variable (h : summand.Encrypts key m)
include h

theorem exists_answer? : (∃ a, summand.answer? key d = some a) ↔ d ∈ summand.domain.values :=
  exists_answer?_iff h.length_s h.length_c

theorem answerAt_eq (d : ℕ) : (summand.answerAt key d : Randomized σ SumFailure Answer) =
    match summand.answer? key d with
    | none => Answer.random key.q
    | some own => pure own := answerAt_eq_answer? h.length_s h.length_c d

theorem returns_answerAt_mayAnswer (d : ℕ) :
    Returns (summand.answerAt key d : Randomized σ SumFailure Answer)
      (summand.MayAnswer key d) := by
  rw [h.answerAt_eq]
  cases hd : summand.answer? key d with
  | none => exact (returns_answer key.q).imp fun a ha => mayAnswer_of_none hd ha
  | some own => exact returns_pure (mayAnswer_of_some hd)

theorem takes_answerAt (ha : summand.MayAnswer key d a) :
    Takes (summand.answerAt key d) (summand.drawnAt key d a) a := by
  rw [h.answerAt_eq, drawnAt]
  cases hd : summand.answer? key d with
  | none => exact takes_answer ha.inRing
  | some own =>
    rw [ha.kept own hd]
    exact takes_pure own

theorem returns_stretch_mayAnswer (merged : Domain) :
    Returns (summand.stretch key merged : Randomized σ SumFailure (List Answer))
      (List.Forall₂ (summand.MayAnswer key) merged.values) := by
  have hsize : summand.proof.size = summand.domain.size := h.length_c
  rw [Summand.stretch, if_neg (not_not.mpr hsize)]
  exact returns_mapM fun d _ => h.returns_answerAt_mayAnswer d

theorem takes_stretch {answers : List Answer}
    (hanswers : List.Forall₂ (summand.MayAnswer key) merged.values answers) :
    Takes (summand.stretch key merged)
      (List.zipWith (summand.drawnAt key) merged.values answers).flatten answers := by
  have hsize : summand.proof.size = summand.domain.size := h.length_c
  rw [Summand.stretch, if_neg (not_not.mpr hsize)]
  exact takes_mapM (hanswers.imp fun _ _ ha => h.takes_answerAt ha)

end Encrypts
end Summand

structure KeptDraws (key : PublicKey) (lhs rhs : Summand) (merged : Domain) where
  t : Exponent
  left : List Answer
  right : List Answer
  modulus_t : t.modulus = key.q
  left_kept : List.Forall₂ (lhs.MayAnswer key) merged.values left
  right_kept : List.Forall₂ (rhs.MayAnswer key) merged.values right

namespace KeptDraws

def summed (draws : KeptDraws key lhs rhs merged) : FreshDraws key merged where
  t := draws.t
  answers := List.zipWith (· + ·) draws.left draws.right
  modulus_t := draws.modulus_t
  length_answers := by
    rw [List.length_zipWith, ← draws.left_kept.length_eq, ← draws.right_kept.length_eq,
      Nat.min_self, Domain.size]
  inRing := by
    intro a ha
    obtain ⟨i, hi, rfl⟩ := List.mem_iff_getElem.mp ha
    obtain ⟨_, hleft⟩ := exists_of_mem_right draws.left_kept
      (List.getElem_mem (Nat.lt_of_lt_of_le hi (by simp)))
    rw [List.getElem_zipWith]
    exact Answer.inRing_add hleft.inRing

def tape (draws : KeptDraws key lhs rhs merged) : Tape :=
  ⟨(List.zipWith (lhs.drawnAt key) merged.values draws.left).flatten ++
    ((List.zipWith (rhs.drawnAt key) merged.values draws.right).flatten ++ [draws.t.value])⟩

end KeptDraws

theorem zipWith_zip_congr {α β γ : Type} {R S : α → β → Prop} {f : α → β × β → γ} {g : α → β → γ}
    {add : β → β → β} {items : List α} {left right : List β} (hleft : List.Forall₂ R items left)
    (hright : List.Forall₂ S items right)
    (h : ∀ x ∈ items, ∀ a b, R x a → S x b → f x (a, b) = g x (add a b)) :
    List.zipWith f items (left.zip right) = List.zipWith g items (List.zipWith add left right) := by
  induction hleft generalizing right with
  | nil => rfl
  | @cons x a items left ha _ ih =>
    obtain _ | ⟨hb, hright⟩ := hright
    rw [List.zip_cons_cons, List.zipWith_cons_cons, List.zipWith_cons_cons, List.zipWith_cons_cons,
      h x List.mem_cons_self _ _ ha hb, ih hright fun y hy => h y (List.mem_cons_of_mem _ hy)]

section Composed
variable (hq : key.q.value.Prime) (hl : lhs.Encrypts key m₁) (hr : rhs.Encrypts key m₂)
  (hunique : ∀ d ∈ merged.values, d ≡ m₁ + m₂ [MOD key.q.value] → d = m₁ + m₂)
include hq hl hr hunique

theorem sumBranch_eq_freshBranch (hd : d ∈ merged.values) (ha : a.InRing key.q)
    (hb : b.InRing key.q) :
    sumBranch key lhs rhs (key.h ^ (lhs.randomness + rhs.randomness)) t d (a, b) =
      freshBranch key (lhs.pair * rhs.pair) (m₁ + m₂) t d (a + b) := by
  obtain ⟨data₁, hdata₁⟩ := hl.exists_data
  obtain ⟨data₂, hdata₂⟩ := hr.exists_data
  have hiff := isPlaintext_iff hq (m₁ + m₂) d (lhs.randomness + rhs.randomness)
  rw [← pair_mul_eq hl hr] at hiff
  have hvalue : d ≡ m₁ + m₂ [MOD key.q.value] ↔ d = m₁ + m₂ :=
    ⟨hunique d hd, fun h => h ▸ Nat.ModEq.rfl⟩
  rw [sumBranch, freshBranch, sumCommitment_eq hdata₁ hdata₂ hl.modulus_eq hr.modulus_eq ha hb]
  simp only [hiff, hvalue]

theorem sumBranches_eq (draws : KeptDraws key lhs rhs merged) :
    sumBranches key lhs rhs merged draws.t draws.left draws.right =
      draws.summed.branches (lhs.pair * rhs.pair) (m₁ + m₂) :=
  zipWith_zip_congr draws.left_kept draws.right_kept fun _ hd _ _ ha hb =>
    sumBranch_eq_freshBranch hq hl hr hunique hd ha.inRing hb.inRing

variable (hmem : m₁ + m₂ ∈ merged.values)
include hmem

theorem any_isOpen_sumBranches (draws : KeptDraws key lhs rhs merged) :
    (sumBranches key lhs rhs merged draws.t draws.left draws.right).any Branch.isOpen = true := by
  have hcount : (draws.summed.branches (lhs.pair * rhs.pair) (m₁ + m₂)).countP Branch.isOpen = 1 :=
    countP_freshBranches _ hmem draws.summed.length_answers
  rw [sumBranches_eq hq hl hr hunique, List.any_eq_true]
  exact List.countP_pos_iff.mp (hcount ▸ Nat.one_pos)

theorem returns_sumProof_kept (digest : Digest) :
    Returns (sumProof digest key lhs rhs merged :
      Randomized σ SumFailure (Pair × MembershipProof)) fun out =>
        ∃ draws : KeptDraws key lhs rhs merged, out = (lhs.pair * rhs.pair,
          draws.summed.proof digest (lhs.randomness + rhs.randomness) (m₁ + m₂)) := by
  intro s
  obtain ⟨t, left, right, ht, hleft, hright, houtcome⟩ := ends_sumProof_stretched digest hl.inGroup
    hr.inGroup (hl.returns_stretch_mayAnswer merged) (hr.returns_stretch_mayAnswer merged) s
  let draws : KeptDraws key lhs rhs merged := ⟨t, left, right, ht, hleft, hright⟩
  have hopen := any_isOpen_sumBranches hq hl hr hunique hmem draws
  have hbranches := sumBranches_eq hq hl hr hunique draws
  rw [if_pos hopen, hbranches] at houtcome
  refine ⟨_, houtcome, draws, ?_⟩
  rw [pair_mul_eq hl hr]
  rfl

theorem sumProof_tape (digest : Digest) (draws : KeptDraws key lhs rhs merged) :
    (sumProof digest key lhs rhs merged draws.tape).1 = .ok (lhs.pair * rhs.pair,
      draws.summed.proof digest (lhs.randomness + rhs.randomness) (m₁ + m₂)) := by
  have htakes : Takes (sumProof digest key lhs rhs merged) (draws.tape.pending ++ [])
      (lhs.pair * rhs.pair,
        draws.summed.proof digest (lhs.randomness + rhs.randomness) (m₁ + m₂)) := by
    rw [sumProof, hl.inGroup, hr.inGroup, KeptDraws.tape, List.append_assoc, List.append_assoc]
    refine (hl.takes_stretch draws.left_kept).bind ?_
    refine (hr.takes_stretch draws.right_kept).bind ?_
    refine (takes_random draws.modulus_t).bind ?_
    rw [if_pos (any_isOpen_sumBranches hq hl hr hunique hmem draws),
      sumBranches_eq hq hl hr hunique draws, pair_mul_eq hl hr]
    exact takes_pure _
  have hrun := htakes []
  rw [List.append_nil, List.append_nil] at hrun
  exact congrArg Prod.fst hrun

end Composed

theorem exists_stretched {value : ℕ} {ds : List ℕ} {answers : List Answer}
    (h : List.Forall₂ (fun d sum => sum.InRing key.q ∧ (d ≠ value → ∀ a b,
      lhs.answer? key d = some a → rhs.answer? key d = some b → sum = a + b)) ds answers) :
    ∃ left right, List.Forall₂ (lhs.MayAnswer key) ds left ∧
      List.Forall₂ (rhs.MayAnswer key) ds right ∧ ∀ i d : ℕ, ds[i]? = some d → d ≠ value →
        (List.zipWith (· + ·) left right)[i]? = answers[i]? := by
  induction h with
  | nil => exact ⟨[], [], .nil, .nil, by simp⟩
  | @cons d sum ds answers hsum _ ih =>
    obtain ⟨left, right, hleft, hright, hagree⟩ := ih
    have hhead : ∃ a b, lhs.MayAnswer key d a ∧ rhs.MayAnswer key d b ∧
        (d ≠ value → a + b = sum) := by
      by_cases hd : d = value
      · obtain ⟨a, ha⟩ := lhs.exists_mayAnswer key d
        obtain ⟨b, hb⟩ := rhs.exists_mayAnswer key d
        exact ⟨a, b, ha, hb, fun hne => absurd hd hne⟩
      · obtain ⟨a, b, ha, hb, hadd⟩ :=
          Summand.exists_mayAnswer_add key lhs rhs d hsum.1 (hsum.2 hd)
        exact ⟨a, b, ha, hb, fun _ => hadd⟩
    obtain ⟨a, b, ha, hb, hadd⟩ := hhead
    refine ⟨a :: left, b :: right, .cons ha hleft, .cons hb hright, fun i e he hne => ?_⟩
    cases i with
    | zero =>
      cases he
      exact congrArg some (hadd hne)
    | succ i => exact hagree i e he hne

end SecretTally

end
