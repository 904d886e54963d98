import Mathlib
import SecretTally.Proof.Scan
import SecretTally.Proofs.Proof.Acceptance
import SecretTally.Proofs.Residue.Bounded
import SecretTally.Proofs.Residue.Reduction

/-! The pass over the branches of a proof. Lists that were found to be of one length are never read
beyond their ends, and the residues of one key are never mixed with others, so that there is a result;
and what it gathers before a branch are the equations, shares and texts of the branches in front. It
ends as the check does. -/

noncomputable section
namespace SecretTally

variable {key : PublicKey} {pair : Pair} {d i : ℕ}

theorem Element.mul?_eq {a b : Element} (h : a.modulus = b.modulus) : a.mul? b = some (a * b) :=
  if_pos h

theorem Element.div?_eq {a b : Element} (h : a.modulus = b.modulus) : a.div? b = some (a / b) :=
  if_pos h

theorem Exponent.bounded_inj {x y : Exponent} : x.bounded = y.bounded ↔ x = y := by
  simp only [bounded, BoundedExponent.mk.injEq, ← eq_iff]
  constructor
  · rintro ⟨hvalue, hmodulus, -⟩
    exact ⟨hmodulus, hvalue⟩
  · rintro ⟨hmodulus, hvalue⟩
    exact ⟨hvalue, hmodulus, congrArg Modulus.bits hmodulus⟩

theorem Exponent.add?_bounded {x y : Exponent} (h : x.modulus = y.modulus) :
    x.bounded.add? y.bounded = some (x + y).bounded := by
  rw [BoundedExponent.bounded_add h]
  exact if_pos h

theorem PublicKey.commitment?_eq (hpad : pair.pad.modulus = key.p) (hdata : pair.data.modulus = key.p)
    (d : ℕ) (a : Answer) :
    key.commitment? pair d a.s.bounded a.c.bounded = some (a.commitment key pair d) := by
  have hy : (key.g ^ a.s).modulus = (pair.pad ^ (-a.c)).modulus :=
    key.isGenerator_g.modulus_eq.trans hpad.symm
  have hquotient : pair.data.modulus = (key.encode d).modulus :=
    hdata.trans key.isGenerator_f.modulus_eq.symm
  have hz : (key.h ^ a.s).modulus = ((pair.data / key.encode d) ^ (-a.c)).modulus :=
    key.isGenerator_h.modulus_eq.trans hdata.symm
  have hencode : key.f ^ BoundedExponent.ofNat d key.q = key.encode d := rfl
  rw [commitment?, ← BoundedExponent.bounded_neg, hencode]
  simp only [BoundedExponent.pow_bounded, Element.mul?_eq hy, Element.div?_eq hquotient,
    Element.mul?_eq hz, Option.bind_eq_bind, Option.bind_some]
  rfl

namespace MembershipProof
variable {proof : MembershipProof} {domain : Domain} {scan : Scan} {digest : Digest}

structure Aligned (proof : MembershipProof) (domain : Domain) : Prop where
  length_y : proof.y.length = proof.size
  length_z : proof.z.length = proof.size
  length_s : proof.s.length = proof.size
  covered : proof.size ≤ domain.size

structure InRange (proof : MembershipProof) (key : PublicKey) (i : ℕ) : Prop where
  s_lt : ∀ s ∈ proof.s[i]?, s < key.q.value
  c_lt : ∀ c ∈ proof.c[i]?, c < key.q.value
  y_range : ∀ y ∈ proof.y[i]?, 0 < y ∧ y < key.p.value
  z_range : ∀ z ∈ proof.z[i]?, 0 < z ∧ z < key.p.value

/-- What is gathered before the branch at index `i`. -/
structure Gathers (proof : MembershipProof) (key : PublicKey) (pair : Pair) (domain : Domain) (i : ℕ)
    (scan : Scan) : Prop where
  consistent_iff : scan.consistent = true ↔
    ∀ j < i, ∀ k ∈ (proof.commitments key pair domain)[j]?,
      proof.y[j]? = some k.y.value ∧ proof.z[j]? = some k.z.value
  sum_eq : scan.sum = Exponent.bounded
    (((proof.answers key).take i).foldl (fun sum a => sum + a.c) (.zero key.q))
  text_eq : scan.text =
    commitmentText key.g key.h pair ((proof.commitments key pair domain).take i)

theorem forall_mem_iff_of_length {α : Type} {P : α → Prop} {xs : List α} {n : ℕ} (h : xs.length = n) :
    (∀ x ∈ xs, P x) ↔ ∀ i < n, ∀ x ∈ xs[i]?, P x := by
  constructor
  · exact fun hall i _ x hx => hall x (List.mem_of_getElem? hx)
  · intro hall x hx
    obtain ⟨i, hi, rfl⟩ := List.getElem_of_mem hx
    exact hall i (h ▸ hi) _ (List.getElem?_eq_getElem hi)

theorem wellShaped_iff : proof.WellShaped key domain ↔
    proof.Aligned domain ∧ ∀ i < proof.size, proof.InRange key i := by
  constructor
  · intro h
    exact ⟨⟨h.length_y, h.length_z, h.length_s, h.covered⟩, fun i _ =>
      ⟨fun s hs => h.s_lt s (List.mem_of_getElem? hs), fun c hc => h.c_lt c (List.mem_of_getElem? hc),
        fun y hy => h.y_range y (List.mem_of_getElem? hy),
        fun z hz => h.z_range z (List.mem_of_getElem? hz)⟩⟩
  · rintro ⟨h, hrange⟩
    exact ⟨h.length_y, h.length_z, h.length_s, h.covered,
      (forall_mem_iff_of_length h.length_s).mpr fun i hi => (hrange i hi).s_lt,
      (forall_mem_iff_of_length rfl).mpr fun i hi => (hrange i hi).c_lt,
      (forall_mem_iff_of_length h.length_y).mpr fun i hi => (hrange i hi).y_range,
      (forall_mem_iff_of_length h.length_z).mpr fun i hi => (hrange i hi).z_range⟩

theorem gathers_start (proof : MembershipProof) (key : PublicKey) (pair : Pair) (domain : Domain) :
    proof.Gathers key pair domain 0 (.start key pair) := by
  refine ⟨⟨fun _ j hj => absurd hj (Nat.not_lt_zero j), fun _ => rfl⟩, rfl, ?_⟩
  rw [List.take_zero, commitmentText, List.flatMap_nil, List.append_nil]
  rfl

theorem Aligned.exists_entries (h : proof.Aligned domain) (hi : i < proof.size) :
    ∃ s c y z, proof.s[i]? = some s ∧ proof.c[i]? = some c ∧ proof.y[i]? = some y ∧
      proof.z[i]? = some z := by
  have hs : i < proof.s.length := h.length_s ▸ hi
  have hy : i < proof.y.length := h.length_y ▸ hi
  have hz : i < proof.z.length := h.length_z ▸ hi
  exact ⟨_, _, _, _, List.getElem?_eq_getElem hs, List.getElem?_eq_getElem hi,
    List.getElem?_eq_getElem hy, List.getElem?_eq_getElem hz⟩

theorem inRange_iff {s c y z : ℕ} (hs : proof.s[i]? = some s) (hc : proof.c[i]? = some c)
    (hy : proof.y[i]? = some y) (hz : proof.z[i]? = some z) : proof.InRange key i ↔
      s < key.q.value ∧ c < key.q.value ∧ (0 < y ∧ y < key.p.value) ∧ 0 < z ∧ z < key.p.value := by
  constructor
  · intro h
    exact ⟨h.s_lt s hs, h.c_lt c hc, h.y_range y hy, h.z_range z hz⟩
  · rintro ⟨hslt, hclt, hyrange, hzrange⟩
    exact ⟨by simpa [hs], by simpa [hc], by simpa [hy], by simpa [hz]⟩

theorem scanAt_eq (hpad : pair.pad.modulus = key.p) (hdata : pair.data.modulus = key.p)
    {s c y z : ℕ} (hs : proof.s[i]? = some s) (hc : proof.c[i]? = some c)
    (hy : proof.y[i]? = some y) (hz : proof.z[i]? = some z) {sum : Exponent}
    (hsum : scan.sum = sum.bounded) (hmodulus : sum.modulus = key.q) :
    let a : Answer := ⟨.ofNat s key.q, .ofNat c key.q⟩
    let k := a.commitment key pair d
    proof.scanAt key pair i d scan = some
      (if s < key.q.value ∧ c < key.q.value ∧ (0 < y ∧ y < key.p.value) ∧ 0 < z ∧ z < key.p.value then
        some ⟨scan.consistent && (k.y.value = y && k.z.value = z), (sum + a.c).bounded,
          scan.text ++ k.text⟩
      else none) := by
  intro a k
  have hcommitment : key.commitment? pair d (.ofNat s key.q) (.ofNat c key.q) = some k :=
    PublicKey.commitment?_eq hpad hdata d a
  have hadd : scan.sum.add? (.ofNat c key.q) = some (sum + a.c).bounded := by
    rw [hsum]
    exact Exponent.add?_bounded (y := a.c) hmodulus
  simp only [scanAt, hs, hc, hy, hz, Option.bind_eq_bind, Option.bind_some, Element.ofNat?,
    hcommitment, hadd]
  by_cases hslt : s < key.q.value
  case neg =>
    rw [if_pos (Nat.not_lt.mp hslt), if_neg fun h => hslt h.1]
    rfl
  by_cases hclt : c < key.q.value
  case neg =>
    rw [if_neg (Nat.not_le.mpr hslt), if_pos (Nat.not_lt.mp hclt), if_neg fun h => hclt h.2.1]
    rfl
  rw [if_neg (Nat.not_le.mpr hslt), if_neg (Nat.not_le.mpr hclt)]
  by_cases hyrange : 0 < y ∧ y < key.p.value
  case neg =>
    rw [dif_neg hyrange, if_neg fun h => hyrange h.2.2.1]
    rfl
  by_cases hzrange : 0 < z ∧ z < key.p.value
  case neg =>
    rw [dif_neg hzrange, if_neg fun h => hzrange h.2.2.2, dif_pos hyrange]
    rfl
  rw [dif_pos hyrange, dif_pos hzrange, if_pos ⟨hslt, hclt, hyrange, hzrange⟩]
  rfl

theorem Gathers.push (h : proof.Gathers key pair domain i scan) {s c y z : ℕ}
    (hd : domain.values[i]? = some d) (hs : proof.s[i]? = some s) (hc : proof.c[i]? = some c)
    (hy : proof.y[i]? = some y) (hz : proof.z[i]? = some z) :
    let a : Answer := ⟨.ofNat s key.q, .ofNat c key.q⟩
    let k := a.commitment key pair d
    let sum := ((proof.answers key).take i).foldl (fun sum a => sum + a.c) (.zero key.q)
    proof.Gathers key pair domain (i + 1) ⟨scan.consistent && (k.y.value = y && k.z.value = z),
      (sum + a.c).bounded, scan.text ++ k.text⟩ := by
  intro a k sum
  have ha : (proof.answers key)[i]? = some a := by
    rw [answers, List.getElem?_zipWith, hs, hc]
  have hk : (proof.commitments key pair domain)[i]? = some k :=
    getElem?_commitments.mpr ⟨d, s, c, hd, hs, hc, rfl⟩
  refine ⟨?_, ?_, ?_⟩
  · have hagrees : (∀ k' ∈ (proof.commitments key pair domain)[i]?,
        proof.y[i]? = some k'.y.value ∧ proof.z[i]? = some k'.z.value) ↔
          k.y.value = y ∧ k.z.value = z := by
      simp only [hk, Option.mem_some, forall_eq', hy, hz, Option.some.injEq]
      rw [eq_comm, eq_comm (a := z)]
    rw [Nat.forall_lt_succ_right, hagrees, ← h.consistent_iff, Bool.and_eq_true, Bool.and_eq_true,
      decide_eq_true_eq, decide_eq_true_eq]
  · rw [List.take_add_one, ha, Option.toList_some, List.foldl_append]
    rfl
  · rw [List.take_add_one, hk, Option.toList_some, h.text_eq, commitmentText, commitmentText,
      List.flatMap_append, List.flatMap_singleton, List.append_assoc _ _ k.text]

theorem Gathers.scanAt (h : proof.Gathers key pair domain i scan) (haligned : proof.Aligned domain)
    (hpad : pair.pad.modulus = key.p) (hdata : pair.data.modulus = key.p) (hi : i < proof.size)
    (hd : domain.values[i]? = some d) :
    (∃ scan', proof.scanAt key pair i d scan = some (some scan') ∧
      proof.Gathers key pair domain (i + 1) scan' ∧ proof.InRange key i) ∨
    proof.scanAt key pair i d scan = some none ∧ ¬ proof.InRange key i := by
  obtain ⟨s, c, y, z, hs, hc, hy, hz⟩ := haligned.exists_entries hi
  have hscan := scanAt_eq (d := d) hpad hdata hs hc hy hz h.sum_eq (modulus_foldl_share _ _)
  rw [inRange_iff hs hc hy hz]
  split at hscan
  · next hrange => exact .inl ⟨_, hscan, h.push hd hs hc hy hz, hrange⟩
  · next hrange => exact .inr ⟨hscan, hrange⟩

theorem Gathers.scanFrom (haligned : proof.Aligned domain) (hpad : pair.pad.modulus = key.p)
    (hdata : pair.data.modulus = key.p) {values : List ℕ}
    (hvalues : (domain.values.take proof.size).drop i = values) (hi : i ≤ proof.size)
    (h : proof.Gathers key pair domain i scan) :
    (∃ scan', proof.scanFrom key pair i values scan = some (some scan') ∧
      proof.Gathers key pair domain proof.size scan' ∧
      ∀ j, i ≤ j → j < proof.size → proof.InRange key j) ∨
    proof.scanFrom key pair i values scan = some none ∧ ∃ j < proof.size, ¬ proof.InRange key j := by
  have hlength : (domain.values.take proof.size).length = proof.size :=
    List.length_take_of_le haligned.covered
  induction values generalizing i scan with
  | nil =>
    obtain rfl : i = proof.size :=
      le_antisymm hi (hlength ▸ List.drop_eq_nil_iff.mp hvalues)
    exact .inl ⟨scan, rfl, h, fun j hij hj => absurd hj (Nat.not_lt.mpr hij)⟩
  | cons d values ih =>
    have hlt : i < proof.size := by
      rw [← hlength, ← not_le, ← List.drop_eq_nil_iff, hvalues]
      exact List.cons_ne_nil d values
    have hd : domain.values[i]? = some d := by
      rw [← List.getElem?_take_of_lt hlt, ← List.head?_drop, hvalues, List.head?_cons]
    have hrest : (domain.values.take proof.size).drop (i + 1) = values := by
      rw [← List.tail_drop, hvalues, List.tail_cons]
    rw [MembershipProof.scanFrom]
    rcases h.scanAt haligned hpad hdata hlt hd with
      ⟨scan', hscan, hgathers, hrange⟩ | ⟨hscan, hrange⟩
    · rw [hscan]
      rcases ih hrest hlt hgathers with ⟨last, hlast, hall, hranges⟩ | hstops
      · refine .inl ⟨last, hlast, hall, fun j hij hj => ?_⟩
        rcases hij.eq_or_lt with rfl | hbehind
        · exact hrange
        · exact hranges j hbehind hj
      · exact .inr hstops
    · rw [hscan]
      exact .inr ⟨rfl, i, hlt, hrange⟩

theorem Gathers.verdict_eq (h : proof.Gathers key pair domain proof.size scan)
    (hshape : proof.WellShaped key domain) (digest : Digest) :
    scan.verdict digest key = some (proof.holds digest key pair domain) := by
  have hlength : (proof.commitments key pair domain).length = proof.size := hshape.length_commitments
  have hconsistent : scan.consistent = true ↔
      proof.y = (proof.commitments key pair domain).map (fun k => k.y.value) ∧
        proof.z = (proof.commitments key pair domain).map fun k => k.z.value := by
    rw [h.consistent_iff, hshape.entries_eq_iff]
    constructor
    · exact fun hall i k hk => hall i (hlength ▸ (List.getElem?_eq_some_iff.mp hk).1) k hk
    · exact fun hall i _ k hk => hall i k hk
  have hsum : scan.sum = (proof.totalShare key).bounded := by
    rw [h.sum_eq, List.take_of_length_le hshape.length_answers.le, totalShare]
  have htext : scan.text = commitmentText key.g key.h pair (proof.commitments key pair domain) := by
    rw [h.text_eq, List.take_of_length_le hlength.le]
  have hchallenge : BoundedExponent.ofBytes? (digest (scan.text.map Char.toUInt8)) key.q =
      some (key.challenge digest pair (proof.commitments key pair domain)).bounded := by
    rw [htext, Exponent.ofBytes?_eq]
    rfl
  rw [Scan.verdict, hchallenge, hsum]
  by_cases hscan : scan.consistent = true
  · obtain ⟨hy, hz⟩ := hconsistent.mp hscan
    rw [if_pos hscan, Option.bind_eq_bind, Option.bind_some]
    refine congrArg some (Bool.eq_iff_iff.mpr ?_)
    rw [decide_eq_true_eq, Exponent.bounded_inj, holds_iff]
    exact ⟨fun htotal => ⟨hshape, hy, hz, htotal⟩, fun hholds => hholds.total_eq⟩
  · rw [if_neg hscan]
    refine congrArg some (Bool.eq_false_iff.mpr fun hholds => ?_).symm
    have hall := holds_iff.mp hholds
    exact hscan (hconsistent.mpr ⟨hall.y_eq, hall.z_eq⟩)

theorem holds_eq_false (h : ¬ proof.WellShaped key domain) (digest : Digest) :
    proof.holds digest key pair domain = false :=
  Bool.eq_false_iff.mpr fun hholds => h (holds_iff.mp hholds).shape

theorem scan_eq (haligned : proof.Aligned domain) (hpad : pair.pad.modulus = key.p)
    (hdata : pair.data.modulus = key.p) (digest : Digest) :
    proof.scan digest key pair domain = some (proof.holds digest key pair domain) := by
  unfold scan
  rcases (gathers_start proof key pair domain).scanFrom haligned hpad hdata List.drop_zero
    (Nat.zero_le _) with ⟨scan', hscan, hgathers, hrange⟩ | ⟨hscan, i, hi, hrange⟩
  · have hshape : proof.WellShaped key domain :=
      wellShaped_iff.mpr ⟨haligned, fun i hi => hrange i (Nat.zero_le i) hi⟩
    rw [hscan]
    exact hgathers.verdict_eq hshape digest
  · have hshape : ¬ proof.WellShaped key domain := fun h => hrange ((wellShaped_iff.mp h).2 i hi)
    rw [hscan, holds_eq_false hshape]
    rfl

theorem check?_eq (proof : MembershipProof) (digest : Digest) (key : PublicKey) (pair : Pair)
    (domain : Domain) :
    proof.check? digest key pair domain = some (proof.check digest key pair domain) := by
  have hguard : (!proof.matchesKey key || !key.owns pair.pad || !key.owns pair.data) =
      !(proof.matchesKey key && key.ownsPair pair) := by
    rw [PublicKey.ownsPair, Bool.not_and, Bool.not_and, Bool.or_assoc]
  rw [check?, check, hguard]
  cases hgroup : proof.matchesKey key && key.ownsPair pair with
  | false => rfl
  | true =>
    obtain ⟨hpad, hdata⟩ := PublicKey.ownsPair_iff.mp (Bool.and_eq_true_iff.mp hgroup).2
    rw [Bool.not_true, if_neg Bool.false_ne_true, if_pos rfl]
    split
    · next hlengths =>
      have hshape : ¬ proof.WellShaped key domain := fun h =>
        hlengths.elim (· h.length_y) fun hrest => hrest.elim (· h.length_z) (· h.length_s)
      rw [holds_eq_false hshape]
    · next hlengths =>
      push Not at hlengths
      obtain ⟨hy, hz, hs⟩ := hlengths
      split
      · next hshort =>
        rw [holds_eq_false fun h => Nat.not_lt.mpr h.covered hshort]
      · next hcovered =>
        rw [scan_eq ⟨hy, hz, hs, Nat.not_lt.mp hcovered⟩ hpad hdata]
        rfl

open scoped Classical in
/-- The pass over the branches always ends in the answer of the check, in whichever way the lists are
ragged, short or out of range: no index misses its list, and no moduli are mixed. A proof or a pair of
another group is refused, and all others are accepted exactly if the acceptance condition holds. -/
theorem check_exact (proof : MembershipProof) (key : PublicKey) (pair : Pair) (domain : Domain) :
    (∀ digest, proof.check? digest key pair domain = some (proof.check digest key pair domain)) ∧
    proof.check? standardDigest key pair domain = some
      (if proof.p = key.p.value ∧ proof.q = key.q.value ∧ pair.pad.modulus = key.p ∧
          pair.data.modulus = key.p then
        Except.ok (decide (proof.Satisfies key pair domain))
      else .error .foreignGroup) :=
  ⟨fun digest => check?_eq proof digest key pair domain, by rw [check?_eq, check_eq]⟩

end MembershipProof
end SecretTally

end
