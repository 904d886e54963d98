import Mathlib
import SecretTally.Ciphertext
import SecretTally.Proofs.Proof.Sum

/-! Adding ragged proofs. Nothing but the list of shares is measured against the domain; how far the
responses reach is found out where one is looked up. So short responses end an addition early only if
the merged domain asks for one that is not there. -/

noncomputable section
namespace SecretTally
open Randomized

variable {σ α β : Type} [Source σ] {key : PublicKey} {lhs rhs summand : Summand} {merged : Domain}
  {d i : ℕ} {outcome : Except SumFailure α}

namespace Summand

/-- The merged domain asks for a response that the proof does not have. -/
def Lacks (summand : Summand) (merged : Domain) : Prop :=
  ∃ d ∈ merged.values, ∃ i ∈ summand.domain.position? d, summand.proof.s.length ≤ i

instance (summand : Summand) (merged : Domain) : Decidable (summand.Lacks merged) :=
  inferInstanceAs (Decidable (∃ d ∈ merged.values, ∃ i ∈ _, _ ≤ i))

theorem not_lacks_iff : ¬ summand.Lacks merged ↔ ∀ d ∈ merged.values, ∀ i,
    summand.domain.position? d = some i → i < summand.proof.s.length := by
  simp only [Lacks, not_exists, not_and, not_le, Option.mem_def]

theorem not_lacks_of_le (hsize : summand.proof.size = summand.domain.size)
    (hlength : summand.proof.size ≤ summand.proof.s.length) : ¬ summand.Lacks merged :=
  not_lacks_iff.mpr fun _ _ _ hi =>
    (Domain.position?_lt hi).trans_le (hsize.symm.le.trans hlength)

theorem fails_answerAt (hi : summand.domain.position? d = some i)
    (hshort : summand.proof.s.length ≤ i) :
    Fails (summand.answerAt key d : Randomized σ SumFailure Answer) .missingEntry := by
  unfold answerAt
  simp only [hi, List.getElem?_eq_none hshort]
  exact fails_throw _

theorem fails_stretch_of_lacks (hsize : summand.proof.size = summand.domain.size)
    (h : summand.Lacks merged) :
    Fails (summand.stretch key merged : Randomized σ SumFailure (List Answer)) .missingEntry := by
  rw [stretch, if_neg (not_not.mpr hsize)]
  obtain ⟨d, hd, i, hi, hshort⟩ := h
  have hends (e : ℕ) :
      Returns (summand.answerAt key e : Randomized σ SumFailure Answer) (Answer.InRing key.q) ∨
        Fails (summand.answerAt key e : Randomized σ SumFailure Answer) .missingEntry := by
    by_cases hreaches : ∀ i, summand.domain.position? e = some i → i < summand.proof.s.length
    · exact .inl (returns_answerAt hsize hreaches)
    · push Not at hreaches
      obtain ⟨j, hj, hshort⟩ := hreaches
      exact .inr (fails_answerAt hj hshort)
  exact fails_mapM (fun e _ => hends e) ⟨d, hd, fails_answerAt hi hshort⟩

theorem fails_stretch_of_size (hsize : summand.proof.size ≠ summand.domain.size) :
    Fails (summand.stretch key merged : Randomized σ SumFailure (List Answer))
      (.refused (.badSum .proofLength)) := by
  rw [stretch_of_size_ne hsize]
  exact fails_throw _

end Summand

structure EndsByLengths (lhs rhs : Summand) (merged : Domain) (outcome : Except SumFailure α) :
    Prop where
  proofLength : outcome = .error (.refused (.badSum .proofLength)) ↔
    lhs.proof.size ≠ lhs.domain.size ∨ ¬ lhs.Lacks merged ∧ rhs.proof.size ≠ rhs.domain.size
  missingEntry : outcome = .error .missingEntry ↔ lhs.proof.size = lhs.domain.size ∧
    (lhs.Lacks merged ∨ rhs.proof.size = rhs.domain.size ∧ rhs.Lacks merged)
  failure : ∀ e, outcome = .error e → e = .missingEntry ∨ e = .refused (.badSum .proofLength) ∨
    e = .refused (.badSum .plaintextOutside)

theorem EndsByLengths.map (h : EndsByLengths lhs rhs merged outcome) (f : α → β) :
    EndsByLengths lhs rhs merged (outcome.map f) := by
  obtain ⟨hlength, hentry, hfailure⟩ := h
  cases outcome with
  | error e => exact ⟨by simpa [Except.map] using hlength, by simpa [Except.map] using hentry,
      by simpa [Except.map] using hfailure⟩
  | ok a => exact ⟨by simpa [Except.map] using hlength, by simpa [Except.map] using hentry,
      by simp [Except.map]⟩

section Sum
variable (digest : Digest)

theorem fails_sumProof_foreign (h : ¬ (lhs.inGroup key ∧ rhs.inGroup key)) :
    Fails (sumProof digest key lhs rhs merged : Randomized σ SumFailure (Pair × MembershipProof))
      (.refused .foreignGroup) := by
  rw [sumProof_of_foreign digest h]
  exact fails_throw _

variable (hl : lhs.inGroup key) (hr : rhs.inGroup key) {e : SumFailure}
include hl hr

theorem fails_sumProof_of_left
    (h : Fails (lhs.stretch key merged : Randomized σ SumFailure (List Answer)) e) :
    Fails (sumProof digest key lhs rhs merged : Randomized σ SumFailure (Pair × MembershipProof))
      e := by
  rw [sumProof, hl, hr]
  exact h.bind _

theorem fails_sumProof_of_right {P : List Answer → Prop}
    (hleft : Returns (lhs.stretch key merged : Randomized σ SumFailure (List Answer)) P)
    (h : Fails (rhs.stretch key merged : Randomized σ SumFailure (List Answer)) e) :
    Fails (sumProof digest key lhs rhs merged : Randomized σ SumFailure (Pair × MembershipProof))
      e := by
  rw [sumProof, hl, hr]
  exact hleft.bind_ends fun _ _ => h.bind _

theorem ends_sumProof_lengths :
    Ends (sumProof digest key lhs rhs merged : Randomized σ SumFailure (Pair × MembershipProof))
      (EndsByLengths lhs rhs merged) := by
  by_cases hlsize : lhs.proof.size = lhs.domain.size
  · by_cases hllacks : lhs.Lacks merged
    · refine (fails_sumProof_of_left digest hl hr
        (Summand.fails_stretch_of_lacks hlsize hllacks)).imp ?_
      rintro _ rfl
      exact ⟨by simp [hlsize, hllacks], by simp [hlsize, hllacks], by simp⟩
    · have hleft : Returns (lhs.stretch key merged : Randomized σ SumFailure (List Answer)) _ :=
        Summand.returns_stretch_of_reaches hlsize (Summand.not_lacks_iff.mp hllacks)
      by_cases hrsize : rhs.proof.size = rhs.domain.size
      · by_cases hrlacks : rhs.Lacks merged
        · refine (fails_sumProof_of_right digest hl hr hleft
            (Summand.fails_stretch_of_lacks hrsize hrlacks)).imp ?_
          rintro _ rfl
          exact ⟨by simp [hlsize, hrsize], by simp [hlsize, hrsize, hrlacks], by simp⟩
        · have hright : Returns (rhs.stretch key merged : Randomized σ SumFailure (List Answer)) _ :=
            Summand.returns_stretch_of_reaches hrsize (Summand.not_lacks_iff.mp hrlacks)
          refine (ends_sumProof_stretched digest hl hr hleft hright).imp fun outcome h => ?_
          obtain ⟨t, left, right, -, -, -, rfl⟩ := h
          split <;>
          exact ⟨by simp [hlsize, hrsize], by simp [hllacks, hrlacks], by simp⟩
      · refine (fails_sumProof_of_right digest hl hr hleft
          (Summand.fails_stretch_of_size hrsize)).imp ?_
        rintro _ rfl
        exact ⟨by simp [hllacks, hrsize], by simp [hllacks, hrsize], by simp⟩
  · refine (fails_sumProof_of_left digest hl hr (Summand.fails_stretch_of_size hlsize)).imp ?_
    rintro _ rfl
    exact ⟨by simp [hlsize], by simp [hlsize], by simp⟩

end Sum

theorem Ciphertext.ends_combine {a b : Ciphertext} {r₁ r₂ : Exponent} {domain₁ domain₂ : Domain}
    {R : Except SumFailure (Pair × MembershipProof) → Prop} (hsize : a.size = b.size)
    (h : Ends (sumProof standardDigest key (a.summand r₁ domain₁) (b.summand r₂ domain₂) merged :
      Randomized σ SumFailure (Pair × MembershipProof)) R) :
    Ends (combine key a r₁ domain₁ b r₂ domain₂ merged :
      Randomized σ SumFailure (Ciphertext × Exponent))
        fun outcome => ∃ sum, R sum ∧
          outcome = sum.map fun out => (⟨out.1, a.size, out.2⟩, r₁ + r₂) := by
  rw [combine, if_neg (not_not.mpr hsize)]
  exact h.bind_pure fun out => (Ciphertext.mk out.1 a.size out.2, r₁ + r₂)

/-- Additions end in a proof or a refusal unless a response is missing. That happens exactly where the
merged domain asks for more responses than a summand has, and never if there is one for each share. -/
theorem addition_endsByLengths (digest : Digest) (key : PublicKey) (merged : Domain) (s : σ) :
    (∀ lhs rhs : Summand,
      let outcome := (sumProof digest key lhs rhs merged s).1
      (¬ (lhs.inGroup key ∧ rhs.inGroup key) → outcome = .error (.refused .foreignGroup)) ∧
      (lhs.inGroup key → rhs.inGroup key → EndsByLengths lhs rhs merged outcome)) ∧
    (∀ (a b : Ciphertext) (r₁ r₂ : Exponent) (domain₁ domain₂ : Domain),
      let lhs := a.summand r₁ domain₁
      let rhs := b.summand r₂ domain₂
      let outcome := (Ciphertext.combine key a r₁ domain₁ b r₂ domain₂ merged s).1
      (a.size ≠ b.size → outcome = .error (.refused (.badSum .sizes))) ∧
      (a.size = b.size → ¬ (lhs.inGroup key ∧ rhs.inGroup key) →
        outcome = .error (.refused .foreignGroup)) ∧
      (a.size = b.size → lhs.inGroup key → rhs.inGroup key →
        EndsByLengths lhs rhs merged outcome)) ∧
    ∀ summand : Summand, summand.proof.size = summand.domain.size →
      summand.proof.size ≤ summand.proof.s.length → ¬ summand.Lacks merged := by
  refine ⟨fun lhs rhs => ⟨fun h => fails_sumProof_foreign digest h s, fun hl hr =>
    ends_sumProof_lengths digest hl hr s⟩, fun a b r₁ r₂ domain₁ domain₂ => ⟨fun hsize => ?_,
      fun hsize h => ?_, fun hsize hl hr => ?_⟩, fun summand => Summand.not_lacks_of_le⟩
  · rw [Ciphertext.combine, if_pos hsize]
    rfl
  · obtain ⟨_, rfl, hrun⟩ :=
      Ciphertext.ends_combine hsize (fails_sumProof_foreign standardDigest h) s
    exact hrun
  · obtain ⟨_, hends, hrun⟩ :=
      Ciphertext.ends_combine hsize (ends_sumProof_lengths standardDigest hl hr) s
    exact hrun ▸ hends.map _

theorem addition_endsByLengths_three :
    let q := PublicKey.small.q
    let pair := Pair.encrypt .small 3 (.ofNat 2 q)
    let a : Ciphertext := ⟨pair, 1, ⟨23, 11, [], [9], [15], [7, 30]⟩⟩
    let b : Ciphertext := ⟨pair, 1, ⟨23, 11, [4], [], [2, 6], [100]⟩⟩
    let domain₁ : Domain := ⟨[3, 8], by decide, by decide⟩
    let domain₂ : Domain := ⟨[3], by decide, by decide⟩
    let lhs := a.summand (.ofNat 2 q) domain₁
    let rhs := b.summand (.ofNat 2 q) domain₂
    let merged : Domain := ⟨[6, 8], by decide, by decide⟩
    let narrow : Domain := ⟨[3, 6], by decide, by decide⟩
    lhs.inGroup .small ∧ rhs.inGroup .small ∧
      lhs.proof.size = lhs.domain.size ∧ lhs.Lacks merged ∧ ¬ lhs.Lacks narrow ∧
      ¬ rhs.Lacks merged ∧ ¬ rhs.Lacks narrow ∧
      (Ciphertext.combine .small a (.ofNat 2 q) domain₁ b (.ofNat 2 q) domain₂ merged
        (Tape.mk [3, 1, 4])).1 = .error .missingEntry ∧
      ∀ tape : Tape, (sumProof standardDigest .small lhs rhs narrow tape).1 ≠ .error .missingEntry := by
  intro q pair a b domain₁ domain₂ lhs rhs merged narrow
  have hl : lhs.inGroup .small := by decide
  have hr : rhs.inGroup .small := by decide
  have hlacks : lhs.Lacks merged := by decide
  have hlacks' : ¬ lhs.Lacks narrow := by decide
  obtain ⟨-, hcombine, hlong⟩ :=
    addition_endsByLengths standardDigest .small merged (Tape.mk [3, 1, 4])
  have hends := (hcombine a b (.ofNat 2 q) (.ofNat 2 q) domain₁ domain₂).2.2 rfl hl hr
  have hrlacks : ¬ rhs.Lacks merged := hlong rhs rfl (by decide)
  have hrlacks' : ¬ rhs.Lacks narrow := by decide
  refine ⟨hl, hr, rfl, hlacks, hlacks', hrlacks, hrlacks',
    hends.missingEntry.mpr ⟨rfl, .inl hlacks⟩, fun tape hmissing => ?_⟩
  have hnarrow := ((addition_endsByLengths standardDigest .small narrow tape).1 lhs rhs).2 hl hr
  rcases (hnarrow.missingEntry.mp hmissing).2 with h | ⟨-, h⟩
  · exact hlacks' h
  · exact hrlacks' h

/-- A missing response is not refused as such. Whether it is noticed at all depends on the merged
domain. -/
theorem sumProof_of_missing_response :
    let q := PublicKey.small.q
    let ct : Ciphertext := ⟨Pair.encrypt .small 0 (.ofNat 2 q), 1, ⟨23, 11, [], [], [4], [1, 10]⟩⟩
    let domain : Domain := ⟨[0, 1], by decide, by decide⟩
    let summand := ct.summand (.ofNat 2 q) domain
    let all : Domain := ⟨[0, 1, 2], by decide, by decide⟩
    let few : Domain := ⟨[0, 5], by decide, by decide⟩
    PublicKey.small.p.value.Prime ∧ q.value.Prime ∧ summand.inGroup .small ∧
      summand.proof.s.length < summand.domain.size ∧
      (sumProof standardDigest .small summand summand all (Tape.mk [])).1 = .error .missingEntry ∧
      (Ciphertext.combine .small ct (.ofNat 2 q) domain ct (.ofNat 2 q) domain all (Tape.mk [])).1 =
        .error .missingEntry ∧
      (sumProof standardDigest .small summand summand few (Tape.mk [3, 1, 4, 1, 5])).1 =
        .ok (ct.pair * ct.pair, ⟨23, 11, [12, 6], [18, 8], [10, 7], [4, 2]⟩) := by
  intro q ct domain summand all few
  exact ⟨by decide, by decide, by decide, by decide, by decide +kernel, by decide +kernel,
    by decide +kernel⟩

end SecretTally

end
