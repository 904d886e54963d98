import Mathlib
import SecretTally.Election.Tally
import SecretTally.Proofs.Ciphertext
import SecretTally.Proofs.Wire.RoundTrip

/-! Elections from end to end. After every vote the tally encrypts the number of votes for one over the
domain from zero to the number of votes; so at the end the published proof is accepted and the tally
decrypts, as long as there are fewer votes than plaintexts and no more than a domain can span. -/

noncomputable section
namespace SecretTally
open Randomized

variable {σ : Type} [Source σ] {key : PublicKey} {x r : Exponent} {domain : Domain} {m vote : ℕ}
  {votes before : List ℕ}

theorem Pair.unblind_encrypt (hh : key.h = key.g ^ x) (m : ℕ) (r : Exponent) :
    (Pair.encrypt key m r).unblind x = key.encode m := by
  have hpoint : key.hPoint = x.toZMod key.q • key.gPoint := by
    rw [← Point.element_inj, ← Point.element_pow, ← PublicKey.h_eq, ← PublicKey.g_eq, hh]
  rw [Pair.encrypt_eq, Pair.unblind, Point.element_pow, Point.element_div, PublicKey.encode_eq,
    Point.element_inj, hpoint]
  module

namespace Tally

theorem decrypt_encrypt (hq : key.q.value.Prime) (hh : key.h = key.g ^ x) (hm : m ∈ domain.values)
    (hwidth : domain.max - domain.min < key.q.value) :
    decrypt key x (Pair.encrypt key m r) domain = some m := by
  have hfound : (decrypt key x (Pair.encrypt key m r) domain).isSome = true := by
    rw [decrypt, List.find?_isSome]
    exact ⟨m, hm, decide_eq_true (Pair.unblind_encrypt hh m r).symm⟩
  obtain ⟨d, hd⟩ := Option.isSome_iff_exists.mp hfound
  have hcode := List.find?_some (show domain.values.find? _ = some d from hd)
  rw [decide_eq_true_eq, Pair.unblind_encrypt hh] at hcode
  rw [PublicKey.encode_eq, PublicKey.encode_eq, Point.element_inj, PublicKey.smul_fPoint_inj hq,
    ZMod.natCast_eq_natCast_iff] at hcode
  rw [hd, Domain.eq_of_modEq hwidth (List.mem_of_find?_eq_some hd) hm hcode]

theorem ballotDomain_upTo : ballotDomain.UpTo 1 := rfl

theorem mem_ballotDomain (hvote : vote ≤ 1) : vote ∈ ballotDomain.values :=
  ballotDomain_upTo.mem_iff.mpr hvote

/-- What the votes so far amount to. Before the first vote there is no tally. -/
inductive Counts (key : PublicKey) : List ℕ → Option Tally → Prop
  | none : Counts key [] none
  | some {votes : List ℕ} {tally : Tally}
      (tallies : tally.ciphertext.Tallies key tally.randomness (votes.count 1) tally.domain)
      (upTo : tally.domain.UpTo votes.length) : Counts key votes (some tally)

theorem count_append_vote (votes : List ℕ) (hvote : vote ≤ 1) :
    (votes ++ [vote]).count 1 = votes.count 1 + vote := by
  rw [List.count_append]
  interval_cases vote <;> rfl

variable {tally : Option Tally}

theorem returns_add (hq : key.q.value.Prime) {ballot : Ciphertext} (hvote : vote ≤ 1)
    (hballot : ballot.Tallies key r vote ballotDomain) (h : Counts key before tally)
    (horder : before.length + 1 < key.q.value) (hwidth : before.length + 1 < Domain.maxWidth)
    (voter : ℕ) :
    Returns (add key voter ballot r tally : Randomized σ ElectionFailure Tally)
      fun tally => Counts key (before ++ [vote]) (some tally) := by
  have hcount := count_append_vote before hvote
  have hlength : (before ++ [vote]).length = before.length + 1 := List.length_append
  cases h with
  | none =>
    refine returns_pure (.some ?_ ballotDomain_upTo)
    rw [hcount, List.count_nil, Nat.zero_add]
    exact hballot
  | @some _ tally htallies hupTo =>
    obtain ⟨merged, hsum, hmerged⟩ := hupTo.sum ballotDomain_upTo hwidth
    have hspan : merged.max - merged.min < key.q.value := by
      rw [hmerged.max_eq, hmerged.min_eq]
      exact horder
    unfold add
    simp only [hsum]
    refine ((Ciphertext.returns_combine hq htallies hballot hsum hspan).adapt _).bind
      fun out hout => ?_
    refine returns_pure (.some ?_ (hlength ▸ hmerged))
    rw [hcount]
    exact hout

theorem returns_cast (hq : key.q.value.Prime) (hvote : vote ≤ 1) (h : Counts key before tally)
    (horder : before.length + 1 < key.q.value) (hwidth : before.length + 1 < Domain.maxWidth)
    (voter : ℕ) :
    Returns (cast key voter vote tally : Randomized σ ElectionFailure Tally)
      fun tally => Counts key (before ++ [vote]) (some tally) := by
  refine ((Ciphertext.returns_encrypt (mem_ballotDomain hvote)).adapt _).bind fun out hout => ?_
  obtain ⟨ballot, r⟩ := out
  simp only [hout.accepted]
  exact returns_add hq hvote hout h horder hwidth voter

theorem returns_castAll (hq : key.q.value.Prime) (hvotes : ∀ vote ∈ votes, vote ≤ 1)
    (h : Counts key before tally) (horder : before.length + votes.length < key.q.value)
    (hwidth : before.length + votes.length < Domain.maxWidth) (voter : ℕ) :
    Returns (castAll key voter tally votes : Randomized σ ElectionFailure (Option Tally))
      (Counts key (before ++ votes)) := by
  induction votes generalizing before tally voter with
  | nil =>
    rw [List.append_nil]
    exact returns_pure h
  | cons vote votes ih =>
    rw [List.forall_mem_cons] at hvotes
    rw [List.length_cons] at horder hwidth
    rw [castAll]
    refine (returns_cast hq hvotes.1 h (by omega) (by omega) voter).bind fun tally htally => ?_
    have hlength : (before ++ [vote]).length = before.length + 1 := List.length_append
    rw [← List.singleton_append, ← List.append_assoc]
    exact ih hvotes.2 htally (by omega) (by omega) (voter + 1)

theorem returns_ofVotes (hq : key.q.value.Prime) (hne : votes ≠ [])
    (hvotes : ∀ vote ∈ votes, vote ≤ 1) (horder : votes.length < key.q.value)
    (hwidth : votes.length < Domain.maxWidth) :
    Returns (ofVotes key votes : Randomized σ ElectionFailure Tally)
      fun tally => Counts key votes (some tally) := by
  refine (returns_castAll hq hvotes .none (by simpa using horder) (by simpa using hwidth) 0).bind
    fun tally htally => ?_
  rw [List.nil_append] at htally
  cases htally with
  | none => exact absurd rfl hne
  | some htallies hupTo => exact returns_pure (.some htallies hupTo)

theorem received_of_counts (hq : key.q.value.Prime) (hp : key.p.value < Decimal.limit)
    (hh : key.h = key.g ^ x) {tally : Tally} (h : Counts key votes (some tally))
    (horder : votes.length < key.q.value) :
    MembershipProof.parseBytes tally.publish = .ok tally.ciphertext.proof ∧
      tally.ciphertext.proof.check standardDigest key tally.ciphertext.pair tally.domain =
        .ok true ∧
      decrypt key x tally.ciphertext.pair tally.domain = some (votes.count 1) := by
  obtain _ | ⟨htallies, hupTo⟩ := h
  have hformed := MembershipProof.wellFormed_of_check hp htallies.accepted
  have hspan : tally.domain.max - tally.domain.min < key.q.value := by
    rw [hupTo.max_eq, hupTo.min_eq]
    exact horder
  refine ⟨?_, htallies.accepted, ?_⟩
  · rw [publish, ← Utf8.flatMap_utf8EncodeChar tally.ciphertext.proof.ascii_print]
    exact MembershipProof.parseBytes_print hformed
  · rw [htallies.pair_eq]
    exact decrypt_encrypt hq hh htallies.mem hspan

/-- Whatever is drawn, every ballot is accepted, nothing fails, and the count comes out. -/
theorem ofVotes_audited (hq : key.q.value.Prime) (hp : key.p.value < Decimal.limit)
    (hh : key.h = key.g ^ x) (hne : votes ≠ []) (hvotes : ∀ vote ∈ votes, vote ≤ 1)
    (horder : votes.length < key.q.value) (hwidth : votes.length ≤ 65535) (s : σ) :
    (∀ vote ∈ votes, ∀ s : σ, ∃ ballot r,
      (Ciphertext.encrypt key vote ballotDomain s).1 = .ok (ballot, r) ∧
      ballot.check key ballotDomain = .ok true) ∧
    ∃ tally : Tally, (ofVotes key votes s).1 = .ok tally ∧
      tally.domain.values = List.range (votes.length + 1) ∧
      (∃ proof, MembershipProof.parseBytes tally.publish = .ok proof ∧
        proof.check standardDigest key tally.ciphertext.pair tally.domain = .ok true) ∧
      decrypt key x tally.ciphertext.pair tally.domain = some (votes.count 1) ∧
      tally.audit key x tally.publish (votes.count 1) = .ok (votes.count 1) := by
  constructor
  · intro vote hvote s
    obtain ⟨⟨ballot, r⟩, hrun, hballot⟩ :=
      Ciphertext.returns_encrypt (mem_ballotDomain (hvotes vote hvote)) s
    exact ⟨ballot, r, hrun, hballot.accepted⟩
  · have hmaxWidth : votes.length < Domain.maxWidth := Nat.lt_succ_of_le hwidth
    obtain ⟨tally, hrun, hcounts⟩ := returns_ofVotes hq hne hvotes horder hmaxWidth s
    obtain ⟨hread, haccepted, hdecrypt⟩ := received_of_counts hq hp hh hcounts horder
    obtain _ | ⟨-, hupTo⟩ := hcounts
    refine ⟨tally, hrun, hupTo, ⟨_, hread, haccepted⟩, hdecrypt, ?_⟩
    simp only [audit, hread, haccepted, hdecrypt, if_true]

theorem ofVotes_audited_three :
    let key := PublicKey.small
    let x := Exponent.ofNat 5 key.q
    let votes := [1, 0, 1]
    key.q.value.Prime ∧ key.p.value < Decimal.limit ∧ key.h = key.g ^ x ∧ votes ≠ [] ∧
      (∀ vote ∈ votes, vote ≤ 1) ∧ votes.length < key.q.value ∧ votes.length ≤ 65535 ∧
      ∃ tally : Tally, (ofVotes key votes (Tape.mk [3, 1, 4, 1, 5, 9, 2, 6, 5])).1 = .ok tally ∧
        tally.domain.values = [0, 1, 2, 3] ∧
        decrypt key x tally.ciphertext.pair tally.domain = some 2 ∧
        tally.audit key x tally.publish 2 = .ok 2 := by
  intro key x votes
  have hq : key.q.value.Prime := by decide
  have hp : key.p.value < Decimal.limit := by decide +kernel
  have hh : key.h = key.g ^ x := by decide
  have hne : votes ≠ [] := by decide
  have hvotes : ∀ vote ∈ votes, vote ≤ 1 := by decide
  have horder : votes.length < key.q.value := by decide
  have hwidth : votes.length ≤ 65535 := by decide
  obtain ⟨-, tally, hrun, hdomain, -, hdecrypt, haudit⟩ := ofVotes_audited hq hp hh hne hvotes horder
    hwidth (Tape.mk [3, 1, 4, 1, 5, 9, 2, 6, 5])
  exact ⟨hq, hp, hh, hne, hvotes, horder, hwidth, tally, hrun, hdomain, hdecrypt, haudit⟩

end Tally

end SecretTally

end
